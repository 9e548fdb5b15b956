import Stottr.Proofs.Document.Accepted
import Stottr.Proofs.Expansion.WellFormed

namespace Stottr

-- Neither the term nor anything inside it is the IRI that marks what is absent.
def Term.Unmarked (t : Term) : Prop := ∀ part ∈ t.parts, part ≠ .iri Vocabulary.absent

namespace Argument

mutual

def inside : Argument → List Argument
  | .concrete _ => []
  | .variable _ => []
  | .list items => insideAll items
  | .expand inner => inner :: inner.inside

def insideAll : List Argument → List Argument
  | [] => []
  | a :: as => a :: (a.inside ++ insideAll as)

end

theorem mem_insideAll {b : Argument} {items : List Argument} :
    b ∈ insideAll items ↔ ∃ a ∈ items, b ∈ a :: a.inside := by
  induction items with
  | nil => simp [insideAll]
  | cons a as ih => simp [insideAll, ih, or_assoc]

theorem positionsAll_eq_flatMap (items : List Argument) :
    positionsAll items = items.flatMap positions := by
  induction items with
  | nil => rfl
  | cons a as ih => simp [positionsAll, ih]

structure Proper (a : Argument) : Prop where
  outermost : ∀ b ∈ a.inside, b.isExpand = false
  -- A list without a variable is a constant, and is kept as one.
  varied : ∀ b ∈ a :: a.inside, ∀ items, b = .list items → b.positions ≠ []
  unmarked : ∀ b ∈ a :: a.inside, ∀ value, b = .concrete value → value.Unmarked

end Argument

def nameAt (parameters : List Parameter) (index : Nat) : Option String :=
  parameters[index]?.map Parameter.name

namespace Template

structure Proper (t : Template) : Prop where
  body : t.isBase = false
  indices : t.parameters.map Parameter.index = List.range t.arity
  names : (t.parameters.map Parameter.name).Nodup
  defaults : ∀ p ∈ t.parameters, ∀ value, p.default = some value → value.Unmarked
  arguments : ∀ inner ∈ t.calls, ∀ a ∈ inner.arguments, a.Proper
  positions : ∀ inner ∈ t.calls, ∀ a ∈ inner.arguments, ∀ k ∈ a.positions, k < t.arity
  modes : ∀ inner ∈ t.calls, inner.mode.isSome = true ↔ ∃ a ∈ inner.arguments, a.isExpand = true

-- The names that a template writes, in order: those of its parameters, and then those of the
-- parameters that the arguments in its body stand for.
def mentions (t : Template) : List (Option String) :=
  t.parameters.map (fun p => some p.name) ++
    t.calls.flatMap fun inner => inner.arguments.flatMap fun a =>
      a.positions.map (nameAt t.parameters)

end Template

def Token.named (t : Token) : Option String :=
  match t.kind with
  | .variable name => some name
  | _ => none

namespace Document

def mentions (ts : List Token) : List (Option String) :=
  (ts.filterMap Token.named).map some

@[simp] theorem mentions_nil : mentions [] = [] := rfl

theorem mentions_append (ts us : List Token) :
    mentions (ts ++ us) = mentions ts ++ mentions us := by
  simp [mentions]

theorem mentions_cons (t : Token) (ts : List Token) :
    mentions (t :: ts) = (t.named.map some).toList ++ mentions ts := by
  cases named : t.named <;> simp [mentions, named]

theorem named_of_kind {t : Token} {kind : TokenKind} (written : t.kind = kind)
    (other : ∀ name, kind ≠ .variable name) : t.named = none := by
  unfold Token.named
  split
  · rename_i name named
    exact absurd (written.symm.trans named) (other name)
  · rfl

theorem mentions_cons_of_kind {t : Token} {kind : TokenKind} (ts : List Token)
    (written : t.kind = kind) (other : ∀ name, kind ≠ .variable name) :
    mentions (t :: ts) = mentions ts := by
  rw [mentions_cons, named_of_kind written other]
  rfl

theorem mentions_cons_of_variable {t : Token} {name : String} (ts : List Token)
    (written : t.kind = .variable name) : mentions (t :: ts) = some name :: mentions ts := by
  rw [mentions_cons, Token.named, written]
  rfl

theorem Listed.mentions {α : Type} {Item : List α → List Token → α → Prop}
    {found all : List α} {ts : List Token} {names : α → List (Option String)}
    (listed : Listed Item found ts all)
    (each : ∀ found us a, Item found us a → Document.mentions us = names a) :
    found.reverse.flatMap names ++ Document.mentions ts = all.flatMap names := by
  induction listed with
  | stop => simp
  | last one => simp [each _ _ _ one]
  | next one separator _ ih =>
    rw [← ih, mentions_append, mentions_cons_of_kind _ separator nofun, each _ _ _ one]
    simp

theorem unmarked_ofName (iri : Iri) : (ofName iri).Unmarked := by
  unfold ofName
  split
  · simp [Term.Unmarked, Term.parts]
  · rename_i different
    simpa [Term.Unmarked, Term.parts] using different

theorem unmarked_of_word? {word : String} {value : Term} (meaning : word? word = some value) :
    value.Unmarked := by
  unfold word? at meaning
  split at meaning
  · cases meaning
    simp [Term.Unmarked, Term.parts]
  · split at meaning
    · cases meaning
      simp [Term.Unmarked, Term.parts]
    · split at meaning
      · cases meaning
        simp [Term.Unmarked, Term.parts]
      · cases meaning

theorem mem_partsAll {part : Term} {ts : List Term} :
    part ∈ Term.partsAll ts ↔ ∃ t ∈ ts, part ∈ t.parts := by
  induction ts with
  | nil => simp [Term.partsAll]
  | cons t ts ih => simp [Term.partsAll, ih]

theorem unmarked_list {values : List Term} (each : ∀ value ∈ values, value.Unmarked) :
    (Term.list values).Unmarked := by
  intro part member
  rw [Term.parts] at member
  rcases List.mem_cons.mp member with rfl | within
  · exact nofun
  · obtain ⟨value, listed, inside⟩ := mem_partsAll.mp within
    exact each value listed part inside

theorem map_concrete_of_mapM {items : List Argument} {values : List Term}
    (all : items.mapM Argument.concrete? = some values) : items = values.map .concrete := by
  induction items generalizing values with
  | nil =>
    cases all
    rfl
  | cons a items ih =>
    rw [List.mapM_cons] at all
    obtain ⟨value, first, all⟩ := Option.bind_eq_some_iff.mp all
    obtain ⟨others, rest, same⟩ := Option.bind_eq_some_iff.mp all
    cases same
    cases a with
    | concrete held =>
      cases first
      rw [ih rest]
      rfl
    | «variable» | list | expand => cases first

theorem ofList_cases (items : List Argument) :
    (∃ values, items = values.map .concrete ∧
      Argument.ofList items = .concrete (.list values)) ∨
    (∃ a ∈ items, ∀ value, a ≠ .concrete value) ∧ Argument.ofList items = .list items := by
  unfold Argument.ofList
  split
  · rename_i values all
    exact .inl ⟨values, map_concrete_of_mapM all, rfl⟩
  · rename_i mixed
    refine .inr ⟨?_, rfl⟩
    by_contra constant
    push Not at constant
    obtain ⟨values, same⟩ := exists_map_concrete constant
    have folded := ofList_concrete values
    rw [← same, Argument.ofList, mixed] at folded
    cases folded

structure Plain (a : Argument) : Prop extends a.Proper where
  unexpanded : a.isExpand = false

namespace Plain

theorem concrete {value : Term} (unmarked : value.Unmarked) : Plain (.concrete value) := by
  refine ⟨⟨nofun, ?_, ?_⟩, rfl⟩
  · intro b member items same
    rw [List.mem_singleton.mp member] at same
    cases same
  · intro b member other same
    rw [List.mem_singleton.mp member] at same
    cases same
    exact unmarked

theorem «variable» (index : Nat) : Plain (.variable index) := by
  refine ⟨⟨nofun, ?_, ?_⟩, rfl⟩
  · intro b member items same
    rw [List.mem_singleton.mp member] at same
    cases same
  · intro b member other same
    rw [List.mem_singleton.mp member] at same
    cases same

theorem positions_ne_nil {a : Argument} (plain : Plain a)
    (varied : ∀ value, a ≠ .concrete value) : a.positions ≠ [] := by
  cases a with
  | concrete value => exact absurd rfl (varied value)
  | «variable» index => exact List.cons_ne_nil _ _
  | list items => exact plain.varied _ List.mem_cons_self items rfl
  | expand inner => cases plain.unexpanded

theorem ofList {items : List Argument} (each : ∀ a ∈ items, Plain a) :
    Plain (.ofList items) := by
  rcases ofList_cases items with ⟨values, rfl, folded⟩ | ⟨⟨a, member, varied⟩, kept⟩
  · rw [folded]
    refine concrete (unmarked_list ?_)
    intro value listed
    exact (each _ (List.mem_map_of_mem listed)).unmarked _ List.mem_cons_self value rfl
  · rw [kept]
    have within : ∀ b ∈ (Argument.list items).inside, ∃ a ∈ items, b ∈ a :: a.inside :=
      fun b member => Argument.mem_insideAll.mp member
    refine ⟨⟨?_, ?_, ?_⟩, rfl⟩
    · intro b inside
      obtain ⟨a, listed, held⟩ := within b inside
      rcases List.mem_cons.mp held with rfl | deeper
      · exact (each _ listed).unexpanded
      · exact (each a listed).outermost b deeper
    · intro b inside others same
      rcases List.mem_cons.mp inside with rfl | inside
      · rw [Argument.positions, Argument.positionsAll_eq_flatMap]
        intro none
        exact (each a member).positions_ne_nil varied (List.flatMap_eq_nil_iff.mp none a member)
      · obtain ⟨a, listed, held⟩ := within b inside
        exact (each a listed).varied b held others same
    · intro b inside value same
      rcases List.mem_cons.mp inside with rfl | inside
      · cases same
      · obtain ⟨a, listed, held⟩ := within b inside
        exact (each a listed).unmarked b held value same

theorem expand {a : Argument} (plain : Plain a) : (Argument.expand a).Proper := by
  refine ⟨?_, ?_, ?_⟩
  · intro b inside
    rcases List.mem_cons.mp inside with rfl | deeper
    · exact plain.unexpanded
    · exact plain.outermost b deeper
  · intro b inside items same
    rcases List.mem_cons.mp inside with rfl | deeper
    · cases same
    · exact plain.varied b deeper items same
  · intro b inside value same
    rcases List.mem_cons.mp inside with rfl | deeper
    · cases same
    · exact plain.unmarked b deeper value same

end Plain

def Numbered (parameters : List Parameter) : Prop :=
  parameters.map Parameter.index = List.range parameters.length

theorem Numbered.nil : Numbered [] := rfl

theorem Numbered.nameAt {parameters : List Parameter} (numbered : Numbered parameters)
    {name : String} {p : Parameter}
    (declared : parameters.find? (fun p => p.name = name) = some p) :
    nameAt parameters p.index = some name := by
  obtain ⟨k, bound, place⟩ := List.getElem_of_mem (List.mem_of_find?_eq_some declared)
  have index := congrArg (fun indices : List Nat => indices[k]?) numbered
  simp only [List.getElem?_map, List.getElem?_eq_getElem bound, place, Option.map_some,
    List.getElem?_range bound, Option.some.injEq] at index
  have named : p.name = name := by simpa using List.find?_some declared
  rw [index, Stottr.nameAt, List.getElem?_eq_getElem bound, place, ← named]
  rfl

section Runs

variable {ns : Namespaces} {scope : List Parameter} {ts : List Token}

theorem atom_plain {t : Token} {a : Argument} (numbered : Numbered scope)
    (meaning : Atom ns scope t.kind a) :
    Plain a ∧ mentions [t] = a.positions.map (nameAt scope) := by
  generalize written : t.kind = kind at meaning
  cases meaning with
  | iri => exact ⟨.concrete (unmarked_ofName _), mentions_cons_of_kind [] written nofun⟩
  | blank | literal | integer | decimal =>
    refine ⟨.concrete ?_, mentions_cons_of_kind [] written nofun⟩
    simp [Term.Unmarked, Term.parts]
  | word meaning =>
    exact ⟨.concrete (unmarked_of_word? meaning), mentions_cons_of_kind [] written nofun⟩
  | «variable» declared =>
    refine ⟨.variable _, ?_⟩
    rw [mentions_cons_of_variable [] written, Argument.positions, List.map_singleton,
      numbered.nameAt declared]
    rfl

theorem positions_ofList (items : List Argument) :
    (Argument.ofList items).positions = items.flatMap Argument.positions := by
  rcases ofList_cases items with ⟨values, rfl, folded⟩ | ⟨-, kept⟩
  · rw [folded, List.flatMap_map]
    exact (List.flatMap_eq_nil_iff.mpr fun _ _ => rfl).symm
  · rw [kept, Argument.positions, Argument.positionsAll_eq_flatMap]

theorem TermRun.plain {a : Argument} (numbered : Numbered scope) (run : TermRun ns scope ts a) :
    Plain a ∧ mentions ts = a.positions.map (nameAt scope) := by
  refine TermRun.induction
    (P := fun ts a => Plain a ∧ mentions ts = a.positions.map (nameAt scope)) ?_ ?_ run
  · intro t a meaning
    exact atom_plain numbered meaning
  · intro opening closing ts items opens closes inside
    refine ⟨.ofList (inside.forall_mem (fun _ _ _ one => one.2.1) nofun), ?_⟩
    have named := inside.mentions fun _ _ _ one => one.2.2
    rw [List.cons_append, mentions_cons_of_kind _ opens nofun, mentions_append,
      mentions_cons_of_kind _ closes nofun, positions_ofList, List.map_flatMap]
    simpa using named

theorem ConstantRun.unmarked {value : Term} (run : ConstantRun ns ts value) :
    value.Unmarked ∧ mentions ts = [] := by
  obtain ⟨plain, named⟩ := TermRun.plain .nil run
  exact ⟨plain.unmarked _ List.mem_cons_self value rfl, named⟩

theorem ArgumentRun.proper {a : Argument} (numbered : Numbered scope)
    (run : ArgumentRun ns scope ts a) :
    a.Proper ∧ mentions ts = a.positions.map (nameAt scope) := by
  cases run with
  | plain term =>
    obtain ⟨plain, named⟩ := term.plain numbered
    exact ⟨plain.toProper, named⟩
  | expand marked term =>
    obtain ⟨plain, named⟩ := term.plain numbered
    rw [mentions_cons_of_kind _ marked nofun]
    exact ⟨plain.expand, named⟩

theorem TypeRun.mentions {type : ParamType} (run : TypeRun ns ts type) :
    Document.mentions ts = [] := by
  induction run with
  | named written => exact mentions_cons_of_kind [] written nofun
  | list opens closes _ ih | nonEmptyList opens closes _ ih =>
    rw [List.cons_append, mentions_cons_of_kind _ opens nofun, mentions_append, ih,
      mentions_cons_of_kind _ closes nofun]
    rfl

theorem MarksRun.mentions {nonBlank optional marked omittable : Bool}
    (run : MarksRun nonBlank optional ts marked omittable) : Document.mentions ts = [] := by
  induction run with
  | done => rfl
  | nonBlank bang _ ih => rw [mentions_cons_of_kind _ bang nofun, ih]
  | optional question _ ih => rw [mentions_cons_of_kind _ question nofun, ih]

structure Settled (p : Parameter) (index : Nat) (ts : List Token) : Prop where
  index : p.index = index
  unmarked : ∀ value, p.default = some value → value.Unmarked
  named : mentions ts = [some p.name]

theorem ParameterRun.settled {index : Nat} {p : Parameter} (run : ParameterRun ns index ts p) :
    Settled p index ts := by
  cases run with
  | @parameter front types back t name type nonBlank optional default marked typed named value =>
    have untyped : mentions types = [] := by
      cases typed with
      | untyped => rfl
      | typed given => exact given.mentions
    have constant : (∀ held, default = some held → held.Unmarked) ∧ mentions back = [] := by
      cases value with
      | none => exact ⟨nofun, rfl⟩
      | given assigned run =>
        obtain ⟨unmarked, none⟩ := run.unmarked
        refine ⟨?_, by rw [mentions_cons_of_kind _ assigned nofun, none]⟩
        intro held same
        cases same
        exact unmarked
    refine ⟨rfl, constant.1, ?_⟩
    rw [mentions_append, mentions_append, mentions_cons_of_variable _ named, marked.mentions,
      untyped, constant.2]
    rfl

theorem parameters_settled {found all : List Parameter}
    (listed : Listed (NewParameterRun ns) found ts all) (numbered : Numbered found.reverse)
    (names : (found.reverse.map Parameter.name).Nodup) :
    Numbered all ∧ (all.map Parameter.name).Nodup := by
  have step : ∀ {found ts p}, NewParameterRun ns found ts p → Numbered found.reverse →
      (found.reverse.map Parameter.name).Nodup →
      Numbered (p :: found).reverse ∧ ((p :: found).reverse.map Parameter.name).Nodup := by
    intro found ts p one numbered names
    obtain ⟨run, fresh⟩ := one
    refine ⟨?_, ?_⟩
    · unfold Numbered at numbered ⊢
      rw [List.reverse_cons, List.map_append, numbered, List.length_append, List.length_singleton,
        List.range_succ, List.map_singleton, run.settled.index, List.length_reverse]
    · rw [List.reverse_cons, List.map_append, List.nodup_append]
      refine ⟨names, List.pairwise_singleton _ _, ?_⟩
      intro name old other new same
      rw [List.mem_singleton.mp new] at same
      obtain ⟨q, listed, rfl⟩ := List.mem_map.mp old
      exact fresh q (List.mem_reverse.mp listed) same
  induction listed with
  | stop => exact ⟨numbered, names⟩
  | last one => exact step one numbered names
  | next one _ _ ih =>
    obtain ⟨numbered, names⟩ := step one numbered names
    exact ih numbered names

theorem NameRun.mentions {iri : Iri} (run : NameRun ns ts iri) : Document.mentions ts = [] := by
  cases run with
  | name written => exact mentions_cons_of_kind [] written nofun

theorem ModeRun.mentions {mode : Option ExpansionMode} (run : ModeRun ts mode) :
    Document.mentions ts = [] := by
  cases run with
  | none => rfl
  | mode written piped =>
    rw [mentions_cons_of_kind _ written nofun, mentions_cons_of_kind _ piped nofun]
    rfl

structure Fits (parameters : List Parameter) (inner : Call) (ts : List Token) : Prop where
  arguments : ∀ a ∈ inner.arguments, a.Proper
  mode : inner.mode.isSome = true ↔ ∃ a ∈ inner.arguments, a.isExpand = true
  named : mentions ts =
    inner.arguments.flatMap fun a => a.positions.map (nameAt parameters)

theorem CallRun.fits {inner : Call} (numbered : Numbered scope) (run : CallRun ns scope ts inner) :
    Fits scope inner ts := by
  cases run with
  | call moded named opens closes given agree =>
    refine ⟨given.forall_mem (fun _ _ _ one => (one.proper numbered).1) nofun, ?_, ?_⟩
    · dsimp only
      rw [agree, List.any_eq_true]
    · have written := given.mentions fun _ _ _ one => (one.proper numbered).2
      rw [mentions_append, mentions_append, mentions_append, mentions_cons_of_kind _ opens nofun,
        mentions_cons_of_kind _ closes nofun, moded.mentions, named.mentions]
      simpa using written

theorem lt_of_nameAt {parameters : List Parameter} {k : Nat} {name : String}
    (named : nameAt parameters k = some name) : k < parameters.length := by
  obtain ⟨p, held, -⟩ := Option.map_eq_some_iff.mp named
  exact (List.getElem?_eq_some_iff.mp held).1

theorem Fits.positions {parameters : List Parameter} {inner : Call}
    (fits : Fits parameters inner ts) {a : Argument} (member : a ∈ inner.arguments) : ∀ k ∈ a.positions, k < parameters.length := by
  intro k position
  have present : nameAt parameters k ∈ mentions ts := by
    rw [fits.named]
    exact List.mem_flatMap.mpr ⟨a, member, List.mem_map_of_mem position⟩
  obtain ⟨name, -, named⟩ := List.mem_map.mp present
  exact lt_of_nameAt named.symm

theorem TemplateRun.proper {t : Template} (run : TemplateRun ns ts t) :
    t.Proper ∧ mentions ts = t.mentions := by
  cases run with
  | @template names signature body opening closing colons begins ends dot iri parameters calls named
      opens closes signed defined begun ended made stops =>
    obtain ⟨numbered, distinct⟩ := parameters_settled signed .nil .nil
    have settled := signed.forall_mem
      (P := fun p => ∀ value, p.default = some value → value.Unmarked)
      (fun _ _ _ one => one.1.settled.unmarked) nofun
    have fits := made.forall_mem (P := fun inner => ∃ us, Fits parameters inner us)
      (fun _ us _ one => ⟨us, one.fits numbered⟩) nofun
    refine ⟨⟨rfl, numbered, distinct, settled, ?_, ?_, ?_⟩, ?_⟩
    · intro inner member
      obtain ⟨us, fit⟩ := fits inner member
      exact fit.arguments
    · intro inner member a listed
      obtain ⟨us, fit⟩ := fits inner member
      exact fit.positions listed
    · intro inner member
      obtain ⟨us, fit⟩ := fits inner member
      exact fit.mode
    · have head := signed.mentions fun _ _ _ one => one.1.settled.named
      have inside := made.mentions fun _ _ _ one => (one.fits numbered).named
      simp only [List.reverse_nil, List.flatMap_nil, List.nil_append] at head inside
      simp only [mentions_append, mentions_cons_of_kind _ opens nofun,
        mentions_cons_of_kind _ closes nofun, mentions_cons_of_kind _ defined nofun,
        mentions_cons_of_kind _ begun nofun, mentions_cons_of_kind _ ended nofun,
        mentions_cons_of_kind _ stops nofun, named.mentions, head, inside, mentions_nil,
        List.nil_append, List.append_nil]
      rw [Template.mentions, List.map_eq_flatMap]
      rfl

theorem BindingRun.mentions {b : Binding} (run : BindingRun ts b) :
    Document.mentions ts = [] := by
  cases run with
  | binding begins named spaced stops =>
    rw [mentions_cons_of_kind _ begins nofun, mentions_cons_of_kind _ named nofun,
      mentions_cons_of_kind _ spaced nofun, mentions_cons_of_kind _ stops nofun]
    rfl

theorem Declarations.proper {after : Namespaces} {templates : List Template}
    (run : Declarations TemplateRun ns ts templates after) :
    (∀ t ∈ templates, t.Proper) ∧ mentions ts = templates.flatMap Template.mentions := by
  induction run with
  | done => exact ⟨nofun, rfl⟩
  | binding bound _ ih =>
    rw [mentions_append, bound.mentions]
    exact ih
  | item one _ ih =>
    obtain ⟨proper, named⟩ := one.proper
    obtain ⟨others, rest⟩ := ih
    refine ⟨List.forall_mem_cons.mpr ⟨proper, others⟩, ?_⟩
    rw [mentions_append, named, rest]
    rfl

end Runs

theorem templates_declarations {ns : Namespaces} {text : String} {templates : List Template}
    (accepted : (Document.templates ns text).outcome = .ok templates) :
    ∃ stream, Token.scan text = .ok stream ∧
      Declarations TemplateRun ns stream.tokens templates (Document.templates ns text).namespaces :=
  read_declarations (fun _ _ _ taken => template_run taken) accepted

end Document

theorem Library.FromTexts.proper {lib : Library} (texts : lib.FromTexts) :
    ∀ t ∈ lib.items, t.isBase = false → t.Proper := by
  refine texts.items nofun nofun ?_
  intro ns text templates accepted t member _
  obtain ⟨stream, -, run⟩ := Document.templates_declarations accepted
  exact run.proper.1 t member

end Stottr

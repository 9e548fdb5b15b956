import Mathlib.Data.List.Forall2
import Mathlib.Data.List.Induction
import Stottr.Proofs.Expansion.Compared

namespace Stottr

theorem length_dropWhile_reverse_le_iff {α : Type} (f : α → Bool) (items : List α) (count : Nat) :
    (items.reverse.dropWhile f).length ≤ count ↔ ∀ a ∈ items.drop count, f a = true := by
  induction items using List.reverseRecOn with
  | nil => simp
  | append_singleton items a ih =>
    rw [List.reverse_concat]
    by_cases short : count ≤ items.length
    · have beyond : (items ++ [a]).drop count = items.drop count ++ [a] :=
        List.drop_append_of_le_length short
      rw [beyond, List.forall_mem_append, List.forall_mem_singleton, ← ih]
      cases passed : f a with
      | true => simp [passed]
      | false =>
        simp [passed]
        omega
    · have beyond : (items ++ [a]).drop count = [] := by
        rw [List.drop_eq_nil_iff, List.length_append]
        simp
        omega
      have shorter := (List.dropWhile_sublist (l := a :: items.reverse) f).length_le
      rw [beyond]
      refine iff_of_true ?_ (List.forall_mem_nil _)
      simp at shorter
      omega

namespace Template

-- The template can be called with this many arguments: those that are missing need not be there.
structure Omits (t : Template) (given : Nat) : Prop where
  fits : given ≤ t.arity
  omittable : ∀ p ∈ t.parameters.drop given, p.optional = true ∨ p.default.isSome = true

theorem omits_iff {t : Template} {given : Nat} :
    t.Omits given ↔ given ≤ t.arity ∧ t.minArity ≤ given := by
  have needed : t.minArity ≤ given ↔
      ∀ p ∈ t.parameters.drop given, p.optional = true ∨ p.default.isSome = true := by
    simp only [minArity, length_dropWhile_reverse_le_iff, Parameter.isOmittable, Bool.or_eq_true]
  rw [needed]
  exact ⟨fun omits => ⟨omits.fits, omits.omittable⟩, fun both => ⟨both.1, both.2⟩⟩

variable {fresh : String → BlankNode} {span : Text.Span}

theorem bind_eq_ok_iff {t : Template} {given : List Term} :
    (∃ env, t.bind given span fresh = .ok env) ↔ t.Omits given.length := by
  rw [omits_iff, bind]
  by_cases outside : t.arity < given.length ∨ given.length < t.minArity
  · rw [if_pos outside]
    exact iff_of_false nofun (by omega)
  · rw [if_neg outside]
    exact iff_of_true ⟨_, rfl⟩ (by omega)

theorem fillAll_padded (ps : List Parameter) (given : List Term) (count : Nat) :
    fillAll fresh ps (given ++ List.replicate count .none) = fillAll fresh ps given := by
  have absent : ∀ p : Parameter, p.fill fresh (some .none) = p.fill fresh none := by
    intro p
    unfold Parameter.fill
    cases p.default <;> rfl
  induction ps generalizing given count with
  | nil => rfl
  | cons p ps ih =>
    cases given with
    | cons a given => exact congrArg (p.fill fresh (some a) :: ·) (ih given count)
    | nil =>
      cases count with
      | zero => rfl
      | succ count =>
        have later := ih [] count
        simp only [fillAll, List.nil_append, List.replicate_succ, List.head?_cons, List.head?_nil,
          List.tail_cons, List.tail_nil, absent] at later ⊢
        rw [later]

theorem bind_padded {t : Template} {given : List Term} {count : Nat}
    (omits : t.Omits given.length) (fits : given.length + count ≤ t.arity) :
    t.bind (given ++ List.replicate count .none) span fresh = t.bind given span fresh := by
  have enough := (omits_iff.mp omits).2
  simp only [bind, List.length_append, List.length_replicate, fillAll_padded]
  rw [if_neg (by omega), if_neg (by omega)]

end Template

theorem Library.entry?_of_get? {lib : Library} {iri : Iri} {t : Template}
    (found : lib.get? iri = some t) : ∃ member, lib.entry? iri = some ⟨t, member⟩ := by
  refine ⟨lib.mem_of_find? _ _ found, ?_⟩
  have filed := lib.iri_of_get? _ _ found
  subst filed
  exact entry?_of_mem _

def Instance.padded (i : Instance) (count : Nat) : Instance :=
  { i with arguments := i.arguments ++ List.replicate count .none }

def Call.padded (inner : Call) (count : Nat) : Call :=
  { inner with arguments := inner.arguments ++ List.replicate count (.concrete .none) }

namespace Expansion

section Calls

variable {s : Setting} {path : List Iri}

theorem call_padded {atTop : Bool} {span : Text.Span} {target : s.library.Entry}
    {given : List Term} {count : Nat} (omits : target.val.Omits given.length)
    (fits : given.length + count ≤ target.val.arity) (next : Nat) :
    call s path atTop span target (given ++ List.replicate count .none) next =
      call s path atTop span target given next := by
  rw [call, call, Template.bind_padded omits fits]

inductive Opens (target : Template) (span : Text.Span) (value : Argument → Term) (position : Nat)
    (a : Argument) : Prop where
  | slot (slot : Slot) (onward : ∀ rest, slots? target span value position (a :: rest) =
      (slots? target span value (position + 1) rest).map (Option.map (slot :: ·)))
  | settled (result : Except ExpansionError (Option (List Slot)))
    (unslotted : ∀ slots, result ≠ .ok (some slots))
    (settles : ∀ rest, slots? target span value position (a :: rest) = result)

theorem slots?_opens (target : Template) (span : Text.Span) (value : Argument → Term)
    (position : Nat) (a : Argument) : Opens target span value position a := by
  cases shape : a with
  | expand inner =>
    cases read : value inner with
    | list items =>
      refine .slot (.spread items) fun rest => ?_
      simp only [slots?, read]
      cases slots? target span value (position + 1) rest <;> rfl
    | none => exact .settled (.ok none) nofun fun rest => by simp only [slots?, read]
    | iri | blank | literal =>
      let parameter := target.parameters[position]?.map Parameter.name
      let fault := ExpansionFault.mismatch target.iri parameter (some (value inner))
        (.expectedList (value inner).kind)
      refine .settled (.error ⟨fault, span⟩) nofun fun rest => ?_
      simp only [slots?, fault, parameter, read]
  | concrete | «variable» | list =>
    refine .slot (.fixed (value a)) fun rest => ?_
    simp only [slots?, shape]
    cases slots? target span value (position + 1) rest <;> rfl

theorem slots?_padded (target : Template) (span : Text.Span) {value : Argument → Term}
    (absent : value (.concrete .none) = .none) (count position : Nat) (arguments : List Argument) :
    slots? target span value position (arguments ++ List.replicate count (.concrete .none)) =
      (slots? target span value position arguments).map
        (Option.map (· ++ List.replicate count (.fixed .none))) := by
  induction arguments generalizing position with
  | nil =>
    induction count generalizing position with
    | zero => rfl
    | succ count ih =>
      have later := ih (position + 1)
      rw [List.nil_append] at later ⊢
      simp only [List.replicate_succ, slots?, later, absent]
      rfl
  | cons a rest ih =>
    rw [List.cons_append]
    cases slots?_opens target span value position a with
    | slot slot onward =>
      rw [onward, onward, ih]
      cases slots? target span value (position + 1) rest with
      | error e => rfl
      | ok slots => cases slots <;> rfl
    | settled result unslotted settles =>
      rw [settles, settles]
      cases result with
      | error e => rfl
      | ok slots =>
        cases slots with
        | none => rfl
        | some slots => exact absurd rfl (unslotted slots)

theorem fill_padded (slots : List Slot) (row : List Term) (count : Nat) :
    Slot.fill (slots ++ List.replicate count (.fixed .none)) row =
      Slot.fill slots row ++ List.replicate count .none := by
  induction slots generalizing row with
  | nil =>
    rw [List.nil_append]
    induction count with
    | zero => rfl
    | succ count ih =>
      rw [List.replicate_succ, List.replicate_succ]
      exact congrArg (Term.none :: ·) ih
  | cons slot slots ih =>
    cases slot with
    | fixed value => exact congrArg (value :: ·) (ih row)
    | spread items => exact congrArg (row.headD .none :: ·) (ih row.tail)

theorem rows_padded (inner : Call) (target : Template) {value : Argument → Term}
    (absent : value (.concrete .none) = .none) (count : Nat) :
    rows (inner.padded count) target value =
      (rows inner target value).map (List.map (· ++ List.replicate count .none)) := by
  unfold rows
  cases moded : inner.mode with
  | none =>
    simp only [Call.padded, moded, List.map_append, List.map_replicate, absent]
    rfl
  | some mode =>
    have unlisted : (List.replicate count (Slot.fixed .none)).filterMap Slot.items? = [] := by
      rw [List.filterMap_replicate_of_none rfl]
    simp only [Call.padded, moded, slots?_padded target inner.span absent]
    cases slots? target inner.span value 0 inner.arguments with
    | error e => rfl
    | ok slots =>
      cases slots with
      | none => rfl
      | some slots =>
        have filled : Slot.fill (slots ++ List.replicate count (.fixed .none)) =
            (· ++ List.replicate count .none) ∘ Slot.fill slots :=
          funext fun row => fill_padded slots row count
        simp only [Except.map, Option.map_some, List.filterMap_append, unlisted, List.append_nil,
          List.map_map, filled]

theorem length_fill (slots : List Slot) (row : List Term) :
    (Slot.fill slots row).length = slots.length := by
  induction slots generalizing row with
  | nil => rfl
  | cons slot slots ih =>
    cases slot with
    | fixed value => exact congrArg (· + 1) (ih row)
    | spread items => exact congrArg (· + 1) (ih row.tail)

theorem length_slots? {target : Template} {span : Text.Span} {value : Argument → Term}
    {position : Nat} {arguments : List Argument} {slots : List Slot}
    (read : slots? target span value position arguments = .ok (some slots)) :
    slots.length = arguments.length := by
  induction arguments generalizing position slots with
  | nil =>
    cases read
    rfl
  | cons a rest ih =>
    cases slots?_opens target span value position a with
    | settled result unslotted settles =>
      exact absurd ((settles rest).symm.trans read) (unslotted _)
    | slot slot onward =>
      rw [onward] at read
      cases others : slots? target span value (position + 1) rest with
      | error e =>
        rw [others] at read
        cases read
      | ok later =>
        rw [others] at read
        obtain ⟨behind, rfl, rfl⟩ := Option.map_eq_some_iff.mp (Except.ok.inj read)
        exact congrArg (· + 1) (ih others)

theorem length_rows {inner : Call} {target : Template} {value : Argument → Term}
    {made : List (List Term)} (read : rows inner target value = .ok made) :
    ∀ row ∈ made, row.length = inner.arguments.length := by
  unfold rows at read
  split at read
  · cases read
    exact List.forall_mem_singleton.mpr (List.length_map _)
  · split at read
    · cases read
    · cases read
      exact nofun
    · rename_i slots spread
      cases read
      intro row member
      obtain ⟨choice, _, rfl⟩ := List.mem_map.mp member
      rw [length_fill, length_slots? spread]

theorem inOrder_congr {α β : Type} {step : α → Nat → Result} {step' : β → Nat → Result}
    {items : List α} {items' : List β}
    (each : List.Forall₂ (fun a b => ∀ next, step' b next = step a next) items items')
    (next : Nat) : inOrder step' items' next = inOrder step items next := by
  induction each generalizing next with
  | nil => rfl
  | cons same _ ih =>
    unfold inOrder
    rw [same]
    cases step _ next with
    | error e => rfl
    | ok first =>
      dsimp only
      rw [ih]

theorem perform_padded {env : Environment} {number count : Nat} {inner : Call}
    {callee : Template} (found : s.library.get? inner.template = some callee)
    (omits : callee.Omits inner.arguments.length)
    (fits : inner.arguments.length + count ≤ callee.arity) (next : Nat) :
    perform s path env number (inner.padded count) next = perform s path env number inner next := by
  obtain ⟨member, known⟩ := Library.entry?_of_get? found
  have same : (inner.padded count).template = inner.template := rfl
  have span : (inner.padded count).span = inner.span := rfl
  have absent : Argument.evaluate env (fun label => .ofCall label s.scope number)
      (.concrete .none) = .none := rfl
  simp only [perform, same, span, known, rows_padded inner callee absent]
  cases read : rows inner callee (Argument.evaluate env fun label =>
      .ofCall label s.scope number) with
  | error e => rfl
  | ok made =>
    refine inOrder_congr (List.forall₂_map_right_iff.mpr (List.forall₂_same.mpr ?_)) next
    intro row member
    have width := length_rows read row member
    exact call_padded (width ▸ omits) (width ▸ fits)

end Calls

end Expansion

-- A call as it is, or with absent values for some of the arguments that it leaves out.
inductive Call.Fills (lib : Library) (inner : Call) : Call → Prop where
  | same : Fills lib inner inner
  | padded {callee : Template} {count : Nat} (found : lib.get? inner.template = some callee)
    (omits : callee.Omits inner.arguments.length)
    (fits : inner.arguments.length + count ≤ callee.arity) : Fills lib inner (inner.padded count)

inductive Body.Fills (lib : Library) : Body → Body → Prop where
  | statement (pattern : Pattern) : Fills lib (.statement pattern) (.statement pattern)
  | crossProduct : Fills lib .crossProduct .crossProduct
  | calls {calls filled : List Call} (each : List.Forall₂ (Call.Fills lib) calls filled) :
    Fills lib (.calls calls) (.calls filled)

structure Template.Fills (lib : Library) (t filled : Template) : Prop where
  iri : filled.iri = t.iri
  parameters : filled.parameters = t.parameters
  body : t.body.Fills lib filled.body

namespace Template.Fills

variable {lib : Library} {t filled : Template}

theorem bind (one : t.Fills lib filled) : filled.bind = t.bind := by
  cases t
  cases filled
  obtain ⟨rfl, rfl, -⟩ := one
  rfl

theorem checkValues (one : t.Fills lib filled) : filled.checkValues = t.checkValues := by
  funext env
  simp only [Template.checkValues, one.parameters]

theorem error (one : t.Fills lib filled) (m : Misfit) (span : Text.Span) :
    m.error filled span = m.error t span := by
  simp only [Misfit.error, one.iri]

theorem slots? (one : t.Fills lib filled) (span : Text.Span) (value : Argument → Term)
    (position : Nat) (arguments : List Argument) :
    Expansion.slots? filled span value position arguments =
      Expansion.slots? t span value position arguments := by
  induction arguments generalizing position with
  | nil => rfl
  | cons a rest ih => simp only [Expansion.slots?, one.iri, one.parameters, ih]

theorem rows (one : t.Fills lib filled) (inner : Call) :
    Expansion.rows inner filled = Expansion.rows inner t := by
  funext value
  simp only [Expansion.rows, one.slots?]

end Template.Fills

namespace Library

-- The same templates, whose bodies may spell out what they leave out in the first library.
def Fills (lib filled : Library) : Prop := List.Forall₂ (Template.Fills lib) lib.items filled.items

variable {lib filled : Library}

theorem find?_of_fills {iri : Iri} {items items' : List Template}
    (fills : List.Forall₂ (Template.Fills lib) items items') :
    Option.Rel (Template.Fills lib) (items.find? fun t => t.iri.text = iri.text)
      (items'.find? fun t => t.iri.text = iri.text) := by
  induction fills with
  | nil => exact .none
  | @cons t filled _ _ one _ ih =>
    rw [List.find?_cons, List.find?_cons, one.iri]
    split
    · exact .some one
    · exact ih

theorem Fills.entry? (fills : lib.Fills filled) (iri : Iri) :
    lib.entry? iri = none ∧ filled.entry? iri = none ∨
      ∃ t u, lib.entry? iri = some t ∧ filled.entry? iri = some u ∧ t.val.Fills lib u.val := by
  have alike : Option.Rel (Template.Fills lib) (lib.get? iri) (filled.get? iri) :=
    find?_of_fills fills
  unfold Library.entry?
  split
  · rename_i t found
    split
    · rename_i u found'
      rw [found, found'] at alike
      cases alike with
      | some one => exact .inr ⟨_, _, rfl, rfl, one⟩
    · rename_i missing
      rw [found, missing] at alike
      cases alike
  · rename_i missing
    split
    · rename_i u found'
      rw [missing, found'] at alike
      cases alike
    · exact .inl ⟨rfl, rfl⟩

end Library

namespace Expansion

variable {lib filled : Library} {scope : Scope} {limit : Option Nat} {path : List Iri}

def AgreeBelow (lib filled : Library) (scope : Scope) (limit : Option Nat) (path : List Iri) :
    Prop :=
  ∀ atTop span (target : lib.Entry) (target' : filled.Entry) arguments next,
    target.val.Fills lib target'.val →
      call ⟨filled, scope, limit⟩ path atTop span target' arguments next =
        call ⟨lib, scope, limit⟩ path atTop span target arguments next

theorem perform_filled (fills : lib.Fills filled) (agree : AgreeBelow lib filled scope limit path)
    (env : Environment) (number : Nat) {inner inner' : Call} (one : inner.Fills lib inner')
    (next : Nat) :
    perform ⟨filled, scope, limit⟩ path env number inner' next =
      perform ⟨lib, scope, limit⟩ path env number inner next := by
  have padded : perform ⟨lib, scope, limit⟩ path env number inner' next =
      perform ⟨lib, scope, limit⟩ path env number inner next := by
    cases one with
    | same => rfl
    | padded found omits fits =>
      exact @perform_padded ⟨lib, scope, limit⟩ path env number _ inner _ found omits fits next
  rw [← padded, perform, perform]
  rcases fills.entry? inner'.template with ⟨missing, missing'⟩ | ⟨t, u, found, found', alike⟩
  · simp only [missing, missing']
  · simp only [found, found', alike.rows]
    cases rows inner' t.val (Argument.evaluate env fun label => .ofCall label scope number) with
    | error e => rfl
    | ok made =>
      refine inOrder_congr (List.forall₂_same.mpr fun row _ next => ?_) next
      exact agree false inner'.span t u row next alike

-- The induction is on the path; what a call comes to is decided in the same way in both libraries,
-- up to the calls of the body that it enters.
theorem agreeBelow_of_fills (fills : lib.Fills filled) (scope : Scope) (limit : Option Nat)
    (path : List Iri) : AgreeBelow lib filled scope limit path := by
  induction path using path_induction lib with
  | step path ih =>
    intro atTop span target target' arguments next one
    have way := course ⟨lib, scope, limit⟩ path atTop span target arguments next
    have sameBinding : bound ⟨filled, scope, limit⟩ target' arguments span next =
        bound ⟨lib, scope, limit⟩ target arguments span next := by
      simp only [bound, one.bind]
    have body := one.body
    generalize call ⟨lib, scope, limit⟩ path atTop span target arguments next = answer at way
    generalize written' : target'.val.body = filledBody at body
    apply call_of_course
    cases way with
    | unbound binding => exact .unbound (sameBinding.trans binding)
    | skipped binding checked absent inside =>
      exact .skipped (sameBinding.trans binding) (one.checkValues ▸ checked) absent inside
    | misfit binding checked faulty =>
      rw [← one.error]
      exact .misfit (sameBinding.trans binding) (one.checkValues ▸ checked) faulty
    | statement binding checked written =>
      rw [written] at body
      cases body
      exact .statement (sameBinding.trans binding) (one.checkValues ▸ checked) written'
    | direct binding checked written =>
      rw [written] at body
      cases body
      rw [← one.iri]
      exact .direct (sameBinding.trans binding) (one.checkValues ▸ checked) written'
    | deep binding checked written below =>
      rw [written] at body
      cases body
      rw [← one.iri]
      exact .deep (sameBinding.trans binding) (one.checkValues ▸ checked) written' below
    | cyclic binding checked written above again =>
      rw [written] at body
      cases body
      rw [← one.iri] at again ⊢
      exact .cyclic (sameBinding.trans binding) (one.checkValues ▸ checked) written' above again
    | @entered env calls binding checked written above fresh =>
      have agree := ih target.val target.property fresh
      rw [written] at body
      cases body with
      | calls each =>
        rw [← one.iri] at fresh agree ⊢
        have same := inOrder_congr (each.imp fun _ _ one' next' =>
          perform_filled fills agree env next one' next') (next + 1)
        rw [← same]
        exact .entered (sameBinding.trans binding) (one.checkValues ▸ checked) written' above fresh

end Expansion

namespace Library

variable {lib filled : Library}

theorem expand_padded {i : Instance} {t : Template} (found : lib.get? i.template = some t)
    {count : Nat} (omits : t.Omits i.arguments.length)
    (fits : i.arguments.length + count ≤ t.arity) (limit : Option Nat) (scope : Scope) :
    lib.expand limit (i.padded count) scope = lib.expand limit i scope := by
  obtain ⟨member, known⟩ := entry?_of_get? found
  have values : (i.padded count).arguments.map (Term.relabel fun label => .ofInstance label scope) =
      i.arguments.map (Term.relabel fun label => .ofInstance label scope) ++
        List.replicate count .none := by
    simp only [Instance.padded, List.map_append, List.map_replicate]
    rfl
  have width : (i.arguments.map (Term.relabel fun label => .ofInstance label scope)).length =
      i.arguments.length := List.length_map _
  have same : (i.padded count).template = i.template := rfl
  simp only [expand, same, known, values]
  rw [Expansion.call_padded (width ▸ omits) (width ▸ fits)]
  rfl

theorem expand_filled (fills : lib.Fills filled) (limit : Option Nat) (i : Instance)
    (scope : Scope) : filled.expand limit i scope = lib.expand limit i scope := by
  unfold expand
  rcases fills.entry? i.template with ⟨missing, missing'⟩ | ⟨t, u, found, found', alike⟩
  · simp only [missing, missing']
  · simp only [found, found']
    rw [Expansion.agreeBelow_of_fills fills scope limit [] true i.span t u _ 0 alike]

-- Arguments may be left out exactly where the parameters can do without them, and it is the same to
-- leave them out and to pass absent values: in an instance, in a call of a body, and in all the
-- bodies of a library at once.
theorem omitted_as_absent :
    (∀ (t : Template) (given : List Term) span fresh,
      ((∃ env, t.bind given span fresh = .ok env) ↔ given.length ≤ t.arity ∧
        ∀ p ∈ t.parameters.drop given.length, p.optional = true ∨ p.default.isSome = true) ∧
      ∀ env, t.bind given span fresh = .ok env → env.length = t.arity) ∧
    (∀ (lib : Library) (i : Instance) t count, lib.get? i.template = some t →
      t.Omits i.arguments.length → i.arguments.length + count ≤ t.arity →
        ∀ limit scope, lib.expand limit (i.padded count) scope = lib.expand limit i scope) ∧
    (∀ (s : Expansion.Setting) (inner : Call) callee count,
      s.library.get? inner.template = some callee → callee.Omits inner.arguments.length →
      inner.arguments.length + count ≤ callee.arity → ∀ path env number next,
        Expansion.perform s path env number (inner.padded count) next =
          Expansion.perform s path env number inner next) ∧
    ∀ lib filled : Library, lib.Fills filled → ∀ limit i scope,
      filled.expand limit i scope = lib.expand limit i scope := by
  refine ⟨?_, ?_, ?_, fun _ _ fills => expand_filled fills⟩
  · intro t given span fresh
    refine ⟨Template.bind_eq_ok_iff.trans ⟨fun omits => ⟨omits.fits, omits.omittable⟩,
      fun ⟨fits, omittable⟩ => ⟨fits, omittable⟩⟩, ?_⟩
    intro env binding
    unfold Template.bind at binding
    split at binding
    · cases binding
    · cases binding
      exact Template.length_fillAll fresh t.parameters given
  · intro lib i t count found omits fits limit scope
    exact expand_padded found omits fits limit scope
  · intro s inner callee count found omits fits path env number next
    exact Expansion.perform_padded found omits fits next

-- A template whose last two parameters can do without an argument, one of them by a default that
-- holds a blank node.
def lenient : Template :=
  let blank : Parameter :=
    { baseParameter "y" 1 .resource false with default := some (.blank ⟨"b"⟩) }
  let last : Parameter := { baseParameter "z" 2 .resource false with optional := true }
  let written (predicate : String) (index : Nat) : Call :=
    ⟨Vocabulary.triple, [.variable 0, .concrete (.iri ⟨predicate⟩), .variable index], none,
      .nowhere⟩
  ⟨⟨"u:t"⟩, [baseParameter "x" 0 .iri false, blank, last],
    .calls [written "u:p" 1, written "u:q" 2], .nowhere⟩

def spreading : Call := ⟨⟨"u:t"⟩, [.expand (.variable 0)], some .cross, .nowhere⟩

def sparing (absent : Nat) : Library where
  items := [cross, triple,
    ⟨⟨"u:all"⟩, [baseParameter "xs" 0 (.list .iri) false], .calls [spreading.padded absent],
      .nowhere⟩,
    lenient]
  ascending := List.pairwise_map.mp (show [Vocabulary.cross.text, Vocabulary.triple.text, "u:all",
    "u:t"].Pairwise (· < ·) by decide +kernel)

theorem omitted_as_absent_sparing :
    let one : Instance := ⟨⟨"u:t"⟩, [.iri ⟨"u:a"⟩], .nowhere⟩
    let all : Instance := ⟨⟨"u:all"⟩, [.list [.iri ⟨"u:a"⟩, .iri ⟨"u:c"⟩]], .nowhere⟩
    let written (subject label : String) : Statement :=
      ⟨.iri ⟨subject⟩, .iri ⟨"u:p"⟩, .blank ⟨label⟩⟩
    let perform := fun inner => Expansion.perform ⟨sparing 0, .first, none⟩ [⟨"u:all"⟩]
      [.list [.iri ⟨"u:a"⟩]] 0 inner 1
    lenient.Omits 1 ∧ 1 + 2 ≤ lenient.arity ∧ (sparing 0).Fills (sparing 2) ∧
      (sparing 0).expand none (one.padded 2) .first = .ok [written "u:a" "b_0_0"] ∧
      perform (spreading.padded 1) = perform spreading ∧
      (sparing 2).expand none all .first =
        .ok [written "u:a" "b_0_1", written "u:c" "b_0_2"] := by
  intro one all written perform
  obtain ⟨-, padded, inside, throughout⟩ := omitted_as_absent
  have found : (sparing 0).get? ⟨"u:t"⟩ = some lenient :=
    (sparing 0).find?_of_mem lenient (by simp [sparing])
  have omits : lenient.Omits 1 := ⟨by decide, by decide⟩
  have fits : 1 + 2 ≤ lenient.arity := by decide
  have fills : (sparing 0).Fills (sparing 2) := by
    have called : spreading.Fills (sparing 0) (spreading.padded 2) := .padded found omits fits
    have same : ∀ inner : Call, inner.Fills (sparing 0) inner := fun _ => .same
    refine .cons ⟨rfl, rfl, .crossProduct⟩ (.cons ⟨rfl, rfl, .statement _⟩
      (.cons ⟨rfl, rfl, .calls (.cons called .nil)⟩ (.cons ⟨rfl, rfl, .calls ?_⟩ .nil)))
    exact List.forall₂_same.mpr fun inner _ => same inner
  refine ⟨omits, fits, fills, ?_, ?_, ?_⟩
  · rw [padded (sparing 0) one lenient 2 found omits fits]
    decide +kernel
  · exact inside ⟨sparing 0, .first, none⟩ spreading lenient 1 found omits (by decide) _ _ _ _
  · rw [throughout _ _ fills]
    decide +kernel

end Library

end Stottr

import Mathlib.Data.List.Forall2
import Stottr.Proofs.Document.Derived

namespace Stottr

def Parameter.respan (f : Text.Span → Text.Span) (p : Parameter) : Parameter :=
  { p with span := f p.span }

def Call.respan (f : Text.Span → Text.Span) (inner : Call) : Call :=
  { inner with span := f inner.span }

def Body.respan (f : Text.Span → Text.Span) : Body → Body
  | .calls inside => .calls (inside.map (Call.respan f))
  | base => base

def Template.respan (f : Text.Span → Text.Span) (t : Template) : Template :=
  ⟨t.iri, t.parameters.map (Parameter.respan f), t.body.respan f, f t.span⟩

def Instance.respan (f : Text.Span → Text.Span) (i : Instance) : Instance :=
  { i with span := f i.span }

namespace Document

-- A prefixed name may be written out, if what it stands for is an IRI that can be read.
inductive Rewrites (ns : Namespaces) : WrittenIri → WrittenIri → Prop where
  | same (name : WrittenIri) : Rewrites ns name name
  | full {label name : String} {iri : Iri} (bound : ns.resolve label name = some iri)
    (valid : Iri.parse iri.text = .ok iri) :
    Rewrites ns (.prefixed label name) (.full iri.text)

inductive Spells (ns : Namespaces) : TokenKind → TokenKind → Prop where
  | same (kind : TokenKind) : Spells ns kind kind
  | iri {name name' : WrittenIri} (other : Rewrites ns name name') :
    Spells ns (.iri name) (.iri name')
  | datatype {lexical : String} {name name' : WrittenIri} (other : Rewrites ns name name') :
    Spells ns (.literal lexical (some (.datatype name))) (.literal lexical (some (.datatype name')))

def namesIri : TokenKind → Bool
  | .iri _ | .literal _ (some (.datatype _)) => true
  | _ => false

theorem Spells.fixed {ns : Namespaces} {kind kind' known : TokenKind}
    (spells : Spells ns kind kind') (written : kind = known) (plain : namesIri known = false) :
    kind' = known := by
  cases spells with
  | same => exact written
  | iri | datatype =>
    rw [← written] at plain
    cases plain

theorem Rewrites.resolves {ns : Namespaces} {name name' : WrittenIri} {iri : Iri}
    (other : Rewrites ns name name') (resolved : Resolves ns name iri) :
    Resolves ns name' iri := by
  cases other with
  | same => exact resolved
  | full bound valid =>
    cases resolved with
    | prefixed bound' =>
      cases bound.symm.trans bound'
      exact .full valid

theorem Spells.named {ns : Namespaces} {kind kind' : TokenKind} {name : WrittenIri} {iri : Iri}
    (spells : Spells ns kind kind') (written : kind = .iri name) (resolved : Resolves ns name iri) :
    ∃ name', kind' = .iri name' ∧ Resolves ns name' iri := by
  cases spells with
  | same => exact ⟨name, written, resolved⟩
  | iri other =>
    cases written
    exact ⟨_, rfl, other.resolves resolved⟩
  | datatype => cases written

def Respelled (ns : Namespaces) (f g : Text.Span → Text.Span) (ts us : List Token) : Prop :=
  List.Forall₂ (fun t u => Spells ns t.kind u.kind ∧ g u.span = f t.span) ts us

section Respelled

variable {ns : Namespaces} {f g : Text.Span → Text.Span} {t : Token} {ts ts' us : List Token}

namespace Respelled

theorem nil (same : Respelled ns f g [] us) : us = [] := List.forall₂_nil_left_iff.mp same

theorem cons (same : Respelled ns f g (t :: ts) us) :
    ∃ u vs, us = u :: vs ∧ Spells ns t.kind u.kind ∧ g u.span = f t.span ∧
      Respelled ns f g ts vs := by
  obtain ⟨u, vs, ⟨spells, place⟩, rest, rfl⟩ := List.forall₂_cons_left_iff.mp same
  exact ⟨u, vs, rfl, spells, place, rest⟩

theorem append (same : Respelled ns f g (ts ++ ts') us) :
    ∃ vs vs', us = vs ++ vs' ∧ Respelled ns f g ts vs ∧ Respelled ns f g ts' vs' := by
  induction ts generalizing us with
  | nil => exact ⟨[], us, rfl, List.Forall₂.nil, same⟩
  | cons t ts ih =>
    obtain ⟨u, rest, rfl, spells, place, sameRest⟩ := same.cons
    obtain ⟨vs, vs', rfl, front, back⟩ := ih sameRest
    exact ⟨u :: vs, vs', rfl, List.Forall₂.cons ⟨spells, place⟩ front, back⟩

theorem single (same : Respelled ns f g [t] us) :
    ∃ u, us = [u] ∧ Spells ns t.kind u.kind ∧ g u.span = f t.span := by
  obtain ⟨u, vs, rfl, spells, place, rest⟩ := same.cons
  rw [rest.nil]
  exact ⟨u, rfl, spells, place⟩

end Respelled

def Joins (f : Text.Span → Text.Span) : Prop :=
  ∀ first last, f (first.through last) = (f first).through (f last)

theorem spanOf_respelled (joins : Joins f) (joins' : Joins g) (same : Respelled ns f g ts us)
    (given : ts ≠ []) : g (spanOf us) = f (spanOf ts) := by
  have last : g (lastSpan us) = f (lastSpan ts) := by
    obtain ⟨front, t, rfl⟩ := (List.eq_nil_or_concat ts).resolve_left given
    rw [List.concat_eq_append] at same ⊢
    obtain ⟨_, _, rfl, -, rest⟩ := same.append
    obtain ⟨u, rfl, -, place⟩ := rest.single
    simpa [lastSpan] using place
  obtain ⟨t, ts, rfl⟩ := List.exists_cons_of_ne_nil given
  obtain ⟨u, us, rfl, -, place, -⟩ := same.cons
  rw [spanOf, spanOf, joins', joins, last]
  simp only [List.head?_cons, Option.map_some, Option.getD_some, place]

-- Items are spelled in view of those before them, so these are alike as well.
theorem Listed.respelled {α : Type} {F G : α → α} {Item Item' : List α → List Token → α → Prop}
    {found found' all : List α} (listed : Listed Item found ts all)
    (each : ∀ {found found' ts us a}, found'.map G = found.map F → Respelled ns f g ts us →
      Item found ts a → ∃ b, Item' found' us b ∧ G b = F a)
    (earlier : found'.map G = found.map F) (same : Respelled ns f g ts us) :
    ∃ all', Listed Item' found' us all' ∧ all'.map G = all.map F := by
  induction listed generalizing found' us with
  | stop =>
    rw [same.nil]
    refine ⟨_, .stop, ?_⟩
    rw [List.map_reverse, List.map_reverse, earlier]
  | last one =>
    obtain ⟨b, one', alike⟩ := each earlier same one
    refine ⟨_, .last one', ?_⟩
    rw [List.map_reverse, List.map_reverse, List.map_cons, List.map_cons, alike, earlier]
  | @next found all ts us a comma one separator others ih =>
    obtain ⟨front, back, rfl, sameFront, sameBack⟩ := same.append
    obtain ⟨comma', rest, rfl, spells, -, sameRest⟩ := sameBack.cons
    obtain ⟨b, one', alike⟩ := each earlier sameFront one
    have both : (b :: found').map G = (a :: found).map F := congrArg₂ List.cons alike earlier
    obtain ⟨all', others', alikeAll⟩ := ih both sameRest
    exact ⟨all', .next one' (spells.fixed separator rfl) others', alikeAll⟩

theorem Listed.respelled_nil {α : Type} {F G : α → α}
    {Item Item' : List α → List Token → α → Prop} {all : List α} (listed : Listed Item [] ts all)
    (each : ∀ {found found' ts us a}, found'.map G = found.map F → Respelled ns f g ts us →
      Item found ts a → ∃ b, Item' found' us b ∧ G b = F a) (same : Respelled ns f g ts us) :
    ∃ all', Listed Item' [] us all' ∧ all'.map G = all.map F :=
  listed.respelled each rfl same

theorem Listed.same {α : Type} {Item Item' : List Token → α → Prop} {all : List α}
    (listed : Listed (fun _ => Item) [] ts all)
    (each : ∀ {ts us a}, Respelled ns f g ts us → Item ts a → Item' us a)
    (same : Respelled ns f g ts us) : Listed (fun _ => Item') [] us all := by
  have spelled : ∀ {found found' : List α} {ts us a}, found'.map id = found.map id →
      Respelled ns f g ts us → Item ts a → ∃ b, Item' us b ∧ id b = id a :=
    fun _ moved one => ⟨_, each moved one, rfl⟩
  obtain ⟨all', listed', alike⟩ := @Listed.respelled_nil ns f g ts us α id id (fun _ => Item)
    (fun _ => Item') all listed spelled same
  rw [List.map_id, List.map_id] at alike
  rwa [← alike]

end Respelled

section Runs

variable {ns : Namespaces} {f g : Text.Span → Text.Span} {scope scope' : List Parameter}
  {ts us : List Token}

theorem find?_respan (f : Text.Span → Text.Span) (parameters : List Parameter) (name : String) :
    (parameters.map (Parameter.respan f)).find? (fun p => p.name = name) =
      (parameters.find? fun p => p.name = name).map (Parameter.respan f) :=
  List.find?_map

theorem Atom.respelled {kind kind' : TokenKind} {a : Argument} (meaning : Atom ns scope kind a)
    (alike : scope'.map (Parameter.respan g) = scope.map (Parameter.respan f))
    (spells : Spells ns kind kind') : Atom ns scope' kind' a := by
  cases spells with
  | iri other =>
    cases meaning with
    | iri resolved => exact .iri (other.resolves resolved)
  | datatype other =>
    cases meaning with
    | literal read =>
      cases read with
      | datatype resolved => exact .literal (.datatype (other.resolves resolved))
  | same =>
    cases meaning with
    | iri resolved => exact .iri resolved
    | blank label => exact .blank label
    | literal read => exact .literal read
    | integer digits => exact .integer digits
    | decimal digits => exact .decimal digits
    | word meaning => exact .word meaning
    | @«variable» name p declared =>
      have found := find?_respan g scope' name
      rw [alike, find?_respan, declared] at found
      obtain ⟨p', declared', same⟩ := Option.map_eq_some_iff.mp found.symm
      have index : p'.index = p.index := (congrArg Parameter.index same :)
      rw [← index]
      exact .variable declared'

theorem TermRun.respelled {a : Argument} (run : TermRun ns scope ts a)
    (alike : scope'.map (Parameter.respan g) = scope.map (Parameter.respan f))
    (same : Respelled ns f g ts us) : TermRun ns scope' us a := by
  refine TermRun.induction (P := fun ts a => ∀ us, Respelled ns f g ts us → TermRun ns scope' us a)
    ?_ ?_ run us same
  · intro t a meaning us same
    obtain ⟨u, rfl, spells, -⟩ := same.single
    exact .atom (meaning.respelled alike spells)
  · intro opening closing ts items opens closes inside us same
    obtain ⟨front, back, rfl, sameFront, sameBack⟩ := same.append
    obtain ⟨opening', within, rfl, spells, -, sameWithin⟩ := sameFront.cons
    obtain ⟨closing', rfl, spells', -⟩ := sameBack.single
    refine .list (spells.fixed opens rfl) (spells'.fixed closes rfl) ?_
    exact inside.same (fun same one => one.2 _ same) sameWithin

theorem ArgumentRun.respelled {a : Argument} (run : ArgumentRun ns scope ts a)
    (alike : scope'.map (Parameter.respan g) = scope.map (Parameter.respan f))
    (same : Respelled ns f g ts us) : ArgumentRun ns scope' us a := by
  cases run with
  | plain term => exact .plain (term.respelled alike same)
  | expand marked term =>
    obtain ⟨mark, rest, rfl, spells, -, sameRest⟩ := same.cons
    exact .expand (spells.fixed marked rfl) (term.respelled alike sameRest)

theorem ConstantRun.respelled {value : Term} (run : ConstantRun ns ts value)
    (same : Respelled ns f g ts us) : ConstantRun ns us value := by
  have none : [].map (Parameter.respan g) = [].map (Parameter.respan f) := rfl
  exact TermRun.respelled run none same

theorem TypeRun.respelled {type : ParamType} (run : TypeRun ns ts type)
    (same : Respelled ns f g ts us) : TypeRun ns us type := by
  induction run generalizing us with
  | named written resolved known =>
    obtain ⟨u, rfl, spells, -⟩ := same.single
    obtain ⟨name, written', resolved'⟩ := spells.named written resolved
    exact .named written' resolved' known
  | list opens closes _ ih =>
    obtain ⟨front, back, rfl, sameFront, sameBack⟩ := same.append
    obtain ⟨opening, within, rfl, spells, -, sameWithin⟩ := sameFront.cons
    obtain ⟨closing, rfl, spells', -⟩ := sameBack.single
    exact .list (spells.fixed opens rfl) (spells'.fixed closes rfl) (ih sameWithin)
  | nonEmptyList opens closes _ ih =>
    obtain ⟨front, back, rfl, sameFront, sameBack⟩ := same.append
    obtain ⟨opening, within, rfl, spells, -, sameWithin⟩ := sameFront.cons
    obtain ⟨closing, rfl, spells', -⟩ := sameBack.single
    exact .nonEmptyList (spells.fixed opens rfl) (spells'.fixed closes rfl) (ih sameWithin)

theorem MarksRun.respelled {nonBlank optional marked omittable : Bool}
    (run : MarksRun nonBlank optional ts marked omittable) (same : Respelled ns f g ts us) :
    MarksRun nonBlank optional us marked omittable := by
  induction run generalizing us with
  | done =>
    rw [same.nil]
    exact .done
  | nonBlank bang _ ih =>
    obtain ⟨u, rest, rfl, spells, -, sameRest⟩ := same.cons
    exact .nonBlank (spells.fixed bang rfl) (ih sameRest)
  | optional question _ ih =>
    obtain ⟨u, rest, rfl, spells, -, sameRest⟩ := same.cons
    exact .optional (spells.fixed question rfl) (ih sameRest)

theorem TypedRun.respelled {type : ParamType} (run : TypedRun ns ts type)
    (same : Respelled ns f g ts us) : TypedRun ns us type := by
  cases run with
  | untyped =>
    rw [same.nil]
    exact .untyped
  | typed given => exact .typed (given.respelled same)

theorem DefaultRun.respelled {default : Option Term} (run : DefaultRun ns ts default)
    (same : Respelled ns f g ts us) : DefaultRun ns us default := by
  cases run with
  | none =>
    rw [same.nil]
    exact .none
  | given assigned constant =>
    obtain ⟨equals, rest, rfl, spells, -, sameRest⟩ := same.cons
    exact .given (spells.fixed assigned rfl) (constant.respelled sameRest)

theorem ModeRun.respelled {mode : Option ExpansionMode} (run : ModeRun ts mode)
    (same : Respelled ns f g ts us) : ModeRun us mode := by
  cases run with
  | none =>
    rw [same.nil]
    exact .none
  | mode written piped known =>
    obtain ⟨u, rest, rfl, spells, -, sameRest⟩ := same.cons
    obtain ⟨bar, rfl, spells', -⟩ := sameRest.single
    exact .mode (spells.fixed written rfl) (spells'.fixed piped rfl) known

theorem NameRun.respelled {iri : Iri} (run : NameRun ns ts iri) (same : Respelled ns f g ts us) :
    NameRun ns us iri := by
  cases run with
  | name written resolved =>
    obtain ⟨u, rfl, spells, -⟩ := same.single
    obtain ⟨name, written', resolved'⟩ := spells.named written resolved
    exact .name written' resolved'

theorem ParameterRun.respelled (joins : Joins f) (joins' : Joins g) {index : Nat} {p : Parameter}
    (run : ParameterRun ns index ts p) (same : Respelled ns f g ts us) :
    ∃ p', ParameterRun ns index us p' ∧ p'.respan g = p.respan f := by
  cases run with
  | parameter marked typed named value =>
    have place := spanOf_respelled joins joins' same (by simp)
    obtain ⟨front, back, rfl, sameFront, sameBack⟩ := same.append
    obtain ⟨marks, types, rfl, sameMarks, sameTypes⟩ := sameFront.append
    obtain ⟨u, rest, rfl, spells, -, sameRest⟩ := sameBack.cons
    refine ⟨_, .parameter (marked.respelled sameMarks) (typed.respelled sameTypes)
      (spells.fixed named rfl) (value.respelled sameRest), ?_⟩
    simp only [Parameter.respan, place]

theorem NewParameterRun.respelled (joins : Joins f) (joins' : Joins g)
    {found found' : List Parameter} {p : Parameter} (run : NewParameterRun ns found ts p)
    (alike : found'.map (Parameter.respan g) = found.map (Parameter.respan f))
    (same : Respelled ns f g ts us) :
    ∃ p', NewParameterRun ns found' us p' ∧ p'.respan g = p.respan f := by
  obtain ⟨parameter, fresh⟩ := run
  obtain ⟨p', parameter', sameParameter⟩ := parameter.respelled joins joins' same
  have length : found'.length = found.length := by simpa using congrArg List.length alike
  refine ⟨p', ⟨length ▸ parameter', ?_⟩, sameParameter⟩
  intro q' member
  have listed : q'.respan g ∈ found.map (Parameter.respan f) :=
    alike ▸ List.mem_map_of_mem member
  obtain ⟨q, member', sameEarlier⟩ := List.mem_map.mp listed
  have name : p'.name = p.name := (congrArg Parameter.name sameParameter :)
  have name' : q.name = q'.name := (congrArg Parameter.name sameEarlier :)
  rw [name, ← name']
  exact fresh q member'

theorem CallRun.respelled (joins : Joins f) (joins' : Joins g) {inner : Call}
    (run : CallRun ns scope ts inner)
    (alike : scope'.map (Parameter.respan g) = scope.map (Parameter.respan f))
    (same : Respelled ns f g ts us) :
    ∃ inner', CallRun ns scope' us inner' ∧ inner'.respan g = inner.respan f := by
  cases run with
  | call moded named opens closes given agree =>
    have place := spanOf_respelled joins joins' same (by simp)
    obtain ⟨front, back, rfl, sameFront, sameBack⟩ := same.append
    obtain ⟨head, body, rfl, sameHead, sameBody⟩ := sameFront.append
    obtain ⟨modes, names, rfl, sameModes, sameNames⟩ := sameHead.append
    obtain ⟨opening, arguments, rfl, spells, -, sameArguments⟩ := sameBody.cons
    obtain ⟨closing, rfl, spells', -⟩ := sameBack.single
    refine ⟨_, .call (moded.respelled sameModes) (named.respelled sameNames)
      (spells.fixed opens rfl) (spells'.fixed closes rfl)
      (given.same (fun same one => one.respelled alike same) sameArguments) agree, ?_⟩
    simp only [Call.respan, place]

theorem TemplateRun.respelled (joins : Joins f) (joins' : Joins g) {t : Template}
    (run : TemplateRun ns ts t) (same : Respelled ns f g ts us) :
    ∃ t', TemplateRun ns us t' ∧ t'.respan g = t.respan f := by
  cases run with
  | template named opens closes signed defined begun ended made stops =>
    have place := spanOf_respelled joins joins' same (by simp)
    obtain ⟨front, back, rfl, sameFront, sameBack⟩ := same.append
    obtain ⟨head, behind, rfl, sameHead, sameBehind⟩ := sameFront.append
    obtain ⟨names, within, rfl, sameNames, sameWithin⟩ := sameHead.append
    obtain ⟨opening, signature, rfl, opened, -, sameSignature⟩ := sameWithin.cons
    obtain ⟨closing, rest, rfl, closed, -, sameRest⟩ := sameBehind.cons
    obtain ⟨colons, rest, rfl, colon, -, sameRest⟩ := sameRest.cons
    obtain ⟨begins, body, rfl, began, -, sameBody⟩ := sameRest.cons
    obtain ⟨ends, rest, rfl, finished, -, sameRest⟩ := sameBack.cons
    obtain ⟨dot, rfl, stopped, -⟩ := sameRest.single
    obtain ⟨parameters, signed', alike⟩ := signed.respelled_nil
      (fun alike same one => one.respelled joins joins' alike same) sameSignature
    obtain ⟨calls, made', alikeCalls⟩ := made.respelled_nil
      (fun _ same one => one.respelled joins joins' alike same) sameBody
    refine ⟨_, .template (named.respelled sameNames) (opened.fixed opens rfl)
      (closed.fixed closes rfl) signed' (colon.fixed defined rfl) (began.fixed begun rfl)
      (finished.fixed ended rfl) made' (stopped.fixed stops rfl), ?_⟩
    simp only [Template.respan, Body.respan, alike, alikeCalls, place]

theorem InstanceRun.respelled (joins : Joins f) (joins' : Joins g) {i : Instance}
    (run : InstanceRun ns ts i) (same : Respelled ns f g ts us) :
    ∃ i', InstanceRun ns us i' ∧ i'.respan g = i.respan f := by
  cases run with
  | ground named opens closes given stops =>
    have place := spanOf_respelled joins joins' same (by simp)
    obtain ⟨front, back, rfl, sameFront, sameBack⟩ := same.append
    obtain ⟨names, within, rfl, sameNames, sameWithin⟩ := sameFront.append
    obtain ⟨opening, arguments, rfl, spells, -, sameArguments⟩ := sameWithin.cons
    obtain ⟨closing, rest, rfl, spells', -, sameRest⟩ := sameBack.cons
    obtain ⟨dot, rfl, stopped, -⟩ := sameRest.single
    refine ⟨_, .ground (named.respelled sameNames) (spells.fixed opens rfl)
      (spells'.fixed closes rfl) (given.same (fun same one => one.respelled same) sameArguments)
      (stopped.fixed stops rfl), ?_⟩
    simp only [Instance.respan, place]

end Runs

section Grammar

variable {α : Type} {item : Item α} {Run : Namespaces → List Token → α → Prop}

-- A kind of declaration, with the grammar that its reader follows.
structure Grammar (item : Item α) (Run : Namespaces → List Token → α → Prop) : Prop where
  run : ∀ r us (one : Parsed α us), item r us = .ok one → Spelled (Run r.namespaces) one
  takes : ∀ r us a rest, Run r.namespaces us a → Takes (item r) us a rest
  begins : ∀ ns us a, Run ns us a → BeginsWithout [.prefixKeyword] us
  inner : ∀ ns us a, Run ns us a → Inner us

theorem template_grammar : Grammar template TemplateRun :=
  ⟨fun _ _ _ taken => template_run taken, fun _ _ _ rest run => template_takes run rest,
    fun _ _ _ run => run.begins, fun _ _ _ run => run.inner⟩

theorem groundInstance_grammar : Grammar groundInstance InstanceRun :=
  ⟨fun _ _ _ taken => groundInstance_run taken,
    fun _ _ _ rest run => groundInstance_takes run rest, fun _ _ _ run => run.begins,
    fun _ _ _ run => run.inner⟩

variable {ns after : Namespaces} {items : List α}

theorem Grammar.ofTokens_iff (grammar : Grammar item Run) {stop : Text.Span} {ts : List Token} :
    ofTokens item stop ns ts = ⟨items, [], after⟩ ↔ Declarations Run ns ts items after :=
  ofTokens_iff_declarations grammar.run grammar.takes grammar.begins

theorem Grammar.read_iff (grammar : Grammar item Run) {text : String} :
    read item ns text = ⟨.ok items, after⟩ ↔ ∃ stream, Token.scan text = .ok stream ∧
      Declarations Run ns stream.tokens items after :=
  read_iff_declarations grammar.run grammar.takes grammar.begins

end Grammar

end Document

end Stottr

import Mathlib.Data.List.Basic
import Stottr.Proofs.Expansion.Course
import Stottr.Proofs.Library.Sources

namespace Stottr

namespace Term

mutual

def parts : Term → List Term
  | .list items => .list items :: partsAll items
  | .iri name => [.iri name]
  | .blank node => [.blank node]
  | .literal value => [.literal value]
  | .none => [.none]

def partsAll : List Term → List Term
  | [] => []
  | t :: ts => t.parts ++ partsAll ts

end

def IsAtom (t : Term) : Prop := t.kind = .iri ∨ t.kind = .blank ∨ t.kind = .literal

theorem IsAtom.parts {t : Term} (atom : t.IsAtom) : t.parts = [t] := by
  cases t with
  | iri | blank | literal => rfl
  | list | none => rcases atom with kind | kind | kind <;> cases kind

end Term

def Statement.terms (st : Statement) : List Term := [st.subject, st.predicate, st.object]

structure Statement.WellFormed (st : Statement) : Prop where
  subject : st.subject.kind = .iri ∨ st.subject.kind = .blank
  predicate : st.predicate.kind = .iri
  object : st.object.kind = .iri ∨ st.object.kind = .blank ∨ st.object.kind = .literal

theorem Statement.WellFormed.atoms {st : Statement} (formed : st.WellFormed) :
    ∀ t ∈ st.terms, t.IsAtom := by
  intro t member
  simp only [terms, List.mem_cons, List.not_mem_nil, or_false] at member
  rcases member with rfl | rfl | rfl
  · rcases formed.subject with kind | kind
    · exact .inl kind
    · exact .inr (.inl kind)
  · exact .inl formed.predicate
  · exact formed.object

theorem firstFailure_ok {α ε : Type} {check : α → Except ε Unit} {items : List α}
    (passed : firstFailure check items = .ok ()) : ∀ a ∈ items, check a = .ok () := by
  induction items with
  | nil =>
    intro a member
    cases member
  | cons b rest ih =>
    unfold firstFailure at passed
    split at passed
    · rename_i here
      intro a member
      rcases List.mem_cons.mp member with rfl | later
      · exact here
      · exact ih passed a later
    · cases passed

theorem Template.check_of_checkValues {t : Template} {env : Environment}
    (checked : t.checkValues env = .ok ()) :
    ∀ p ∈ t.parameters.zip env, p.1.check p.2 = .ok () := by
  intro p member
  have passed := firstFailure_ok checked p member
  dsimp only at passed
  split at passed
  · assumption
  · cases passed

namespace Parameter

-- A required parameter is never bound to the absent value, and what it is bound to has its type.
theorem check_required {p : Parameter} {value : Term} (required : p.optional = false)
    (passed : p.check value = .ok ()) :
    value.kind ≠ .none ∧ (p.nonBlank = true → value.hasBlank = false) ∧
      p.type.check value = .ok () := by
  unfold check at passed
  split at passed
  · simp [required] at passed
  · rename_i present
    split at passed
    · cases passed
    · rename_i blank
      refine ⟨?_, ?_, passed⟩
      · intro kind
        cases value <;> simp_all [Term.kind, Term.isNone]
      · intro nonBlank
        simpa [nonBlank] using blank

end Parameter

namespace ParamType

theorem kind_of_check_iri {value : Term} (passed : ParamType.iri.check value = .ok ()) :
    value.kind = .iri ∨ value.kind = .blank := by
  cases value with
  | iri => exact .inl rfl
  | blank => exact .inr rfl
  | literal | list | none => cases passed

theorem kind_of_check_resource {value : Term} (present : value.kind ≠ .none)
    (passed : ParamType.resource.check value = .ok ()) : value.IsAtom := by
  cases value with
  | iri => exact .inl rfl
  | blank => exact .inr (.inl rfl)
  | literal => exact .inr (.inr rfl)
  | list => cases passed
  | none => exact absurd rfl present

end ParamType

namespace Library

theorem triple_wellFormed {pattern : Pattern} {env : Environment}
    (body : triple.body = .statement pattern) (length : env.length = triple.parameters.length)
    (checked : triple.checkValues env = .ok ()) : (pattern.statement env).WellFormed := by
  cases body
  obtain ⟨subject, predicate, object, rfl⟩ := List.length_eq_three.mp length
  have passed := Template.check_of_checkValues checked
  have first := Parameter.check_required rfl (passed ⟨_, subject⟩ (.head _))
  have second := Parameter.check_required rfl (passed ⟨_, predicate⟩ (.tail _ (.head _)))
  have third := Parameter.check_required rfl (passed ⟨_, object⟩ (.tail _ (.tail _ (.head _))))
  refine ⟨ParamType.kind_of_check_iri first.2.2, ?_,
    ParamType.kind_of_check_resource third.1 third.2.2⟩
  rcases ParamType.kind_of_check_iri second.2.2 with iri | blank
  · exact iri
  · have clean := second.2.1 rfl
    cases predicate with
    | blank => cases clean
    | iri | literal | list | none => cases blank

-- Neither a list nor the absent value is left anywhere in what is written.
theorem expand_wellFormed {lib : Library} (texts : lib.FromTexts) {limit : Option Nat}
    {i : Instance} {scope : Scope} {statements : List Statement}
    (done : lib.expand limit i scope = .ok statements) :
    ∀ st ∈ statements, st.WellFormed ∧
      ∀ t ∈ st.terms, ∀ part ∈ t.parts, part.kind ≠ .list ∧ part.kind ≠ .none := by
  obtain ⟨target, r, _, called, rfl⟩ := callOf_of_expand done
  have formed : ∀ st ∈ r.statements, st.WellFormed := by
    refine Expansion.call_statements ⟨lib, scope, limit⟩ ?_ _ _ _ _ _ _ r called
    intro t pattern env body length checked
    have same : t.val = triple := texts.triple_of_statement t.property body
    rw [same] at body length checked
    exact triple_wellFormed body length checked
  intro st member
  refine ⟨formed st member, ?_⟩
  intro t term part inside
  have atom := (formed st member).atoms t term
  rw [atom.parts, List.mem_singleton] at inside
  subst inside
  rcases atom with kind | kind | kind <;> rw [kind] <;> exact ⟨nofun, nofun⟩

def pairing : Library :=
  ofText ("@prefix ex: <http://e/> . ex:Pair[ List<ottr:IRI> ?x, List<rdfs:Resource> ?y ] :: " ++
    "\x7b zipMax | ottr:Triple(++?x, rdf:type, ++?y) \x7d .")

theorem expand_wellFormed_pairing :
    let i : Instance := ⟨⟨"http://e/Pair"⟩,
      [.list [.blank ⟨"b_0_0"⟩, .iri ⟨"u:v"⟩, .none], .list [.literal (.plain "w")]], .nowhere⟩
    let st : Statement := ⟨.blank ⟨"b_0_0_0_i"⟩, .iri (.inNamespace Vocabulary.rdf "type"),
      .literal (.plain "w")⟩
    pairing.FromTexts ∧ pairing.expand none i .first = .ok [st] ∧ st.WellFormed := by
  intro i st
  have texts : pairing.FromTexts := .ofText _
  have done : pairing.expand none i .first = .ok [st] := by decide +kernel
  exact ⟨texts, done, (expand_wellFormed texts done st (List.mem_singleton.mpr rfl)).1⟩

end Library

end Stottr

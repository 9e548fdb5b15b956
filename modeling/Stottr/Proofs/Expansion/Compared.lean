import Stottr.Proofs.Expansion.Course
import Stottr.Proofs.Library.Growth

namespace Stottr

namespace Library

variable {lib grown : Library}

def Within.entry (within : lib.Within grown) (t : lib.Entry) : grown.Entry :=
  ⟨t.val, within t.val t.property⟩

theorem entry?_of_mem {t : Template} (held : t ∈ lib.items) :
    lib.entry? t.iri = some ⟨t, held⟩ := by
  have found : lib.get? t.iri = some t := lib.find?_of_mem t held
  unfold entry?
  split
  · rename_i u other
    cases found.symm.trans other
    rfl
  · rename_i missing
    cases found.symm.trans missing

theorem Within.entry?_of_entry? (within : lib.Within grown) {iri : Iri} {t : lib.Entry}
    (found : lib.entry? iri = some t) : grown.entry? iri = some (within.entry t) := by
  have filed := lib.iri_of_get? iri t.val (get?_of_entry found)
  rw [← filed]
  exact entry?_of_mem (within t.val t.property)

end Library

namespace Expansion

-- An answer that another one shares, unless it is an error of a certain kind.
inductive Unless {α : Type} (lost : ExpansionError → Prop) :
    Except ExpansionError α → Except ExpansionError α → Prop where
  | same (answer : Except ExpansionError α) : Unless lost answer answer
  | lost {e : ExpansionError} (gone : lost e) (other : Except ExpansionError α) :
    Unless lost (.error e) other

variable {lost : ExpansionError → Prop}

namespace Unless

variable {α β : Type}

theorem map {answer other : Except ExpansionError α} (alike : Unless lost answer other)
    (f : α → β) : Unless lost (answer.map f) (other.map f) := by
  cases alike with
  | same => exact .same _
  | lost gone => exact .lost gone _

theorem inOrder {step step' : α → Nat → Result}
    (each : ∀ a next, Unless lost (step a next) (step' a next)) (items : List α) (next : Nat) :
    Unless lost (Expansion.inOrder step items next) (Expansion.inOrder step' items next) := by
  induction items generalizing next with
  | nil => exact .same _
  | cons a rest ih =>
    have first := each a next
    unfold Expansion.inOrder
    generalize step a next = answer at first ⊢
    generalize step' a next = answer' at first ⊢
    cases first with
    | lost gone => exact .lost gone _
    | same =>
      cases answer with
      | error e => exact .same _
      | ok one =>
        have others := ih one.next
        dsimp only
        generalize Expansion.inOrder step rest one.next = later at others ⊢
        generalize Expansion.inOrder step' rest one.next = later' at others ⊢
        cases others with
        | same => exact .same _
        | lost gone => exact .lost gone _

end Unless

-- What the first of two expansions may lack: templates, and room for bodies inside one another.
structure Eases (lib grown : Library) (limit wider : Option Nat) (lost : ExpansionError → Prop) :
    Prop where
  within : lib.Within grown
  missing : ∀ iri span, lib.entry? iri = none →
    grown.entry? iri = none ∨ lost ⟨.unknownTemplate iri, span⟩
  deep : ∀ path iri span, tooDeep limit path = true →
    wider = limit ∨ lost ⟨.depthLimit (limit.getD 0) iri, span⟩
  above : ∀ path, tooDeep limit path = false → tooDeep wider path = false

variable {lib grown : Library} {limit wider : Option Nat}

theorem perform_unless (eases : Eases lib grown limit wider lost) {scope : Scope}
    {path : List Iri}
    (calls : ∀ span (target : lib.Entry) arguments next,
      Unless lost (call ⟨lib, scope, limit⟩ path false span target arguments next)
        (call ⟨grown, scope, wider⟩ path false span (eases.within.entry target) arguments next))
    (env : Environment) (number : Nat) (inner : Call) (next : Nat) :
    Unless lost (perform ⟨lib, scope, limit⟩ path env number inner next)
      (perform ⟨grown, scope, wider⟩ path env number inner next) := by
  unfold perform
  cases found : lib.entry? inner.template with
  | none =>
    rcases eases.missing inner.template inner.span found with neither | gone
    · rw [neither]
      exact .same _
    · exact .lost gone _
  | some callee =>
    rw [eases.within.entry?_of_entry? found]
    dsimp only [Library.Within.entry]
    cases rows inner callee.val (Argument.evaluate env fun label =>
        .ofCall label scope number) with
    | error e => exact .same _
    | ok rows => exact .inOrder (fun row next => calls inner.span callee row next) rows next

theorem call_unless (eases : Eases lib grown limit wider lost) (scope : Scope) (path : List Iri)
    (atTop : Bool) (span : Text.Span) (target : lib.Entry) (arguments : List Term) (next : Nat) :
    Unless lost (call ⟨lib, scope, limit⟩ path atTop span target arguments next)
      (call ⟨grown, scope, wider⟩ path atTop span (eases.within.entry target) arguments next) := by
  induction path using path_induction lib generalizing atTop span target arguments next with
  | step path ih =>
    have way := course ⟨lib, scope, limit⟩ path atTop span target arguments next
    have alike : ∀ {answer},
        Course ⟨grown, scope, wider⟩ path atTop span (eases.within.entry target) arguments next
          answer →
        Unless lost answer
          (call ⟨grown, scope, wider⟩ path atTop span (eases.within.entry target) arguments next) := by
      intro answer other
      rw [call_of_course _ other]
      exact .same answer
    generalize call ⟨lib, scope, limit⟩ path atTop span target arguments next = answer at way ⊢
    cases way with
    | unbound binding => exact alike (.unbound binding)
    | skipped binding checked absent inside => exact alike (.skipped binding checked absent inside)
    | misfit binding checked faulty => exact alike (.misfit binding checked faulty)
    | statement binding checked body => exact alike (.statement binding checked body)
    | direct binding checked body => exact alike (.direct binding checked body)
    | deep binding checked body below =>
      rcases eases.deep path target.val.iri span below with rfl | gone
      · exact alike (.deep binding checked body below)
      · exact .lost gone _
    | cyclic binding checked body above again =>
      exact alike (.cyclic binding checked body (eases.above path above) again)
    | @entered env calls binding checked body above fresh =>
      have other : Course ⟨grown, scope, wider⟩ path atTop span (eases.within.entry target)
          arguments next _ :=
        .entered binding checked body (eases.above path above) fresh
      rw [call_of_course _ other]
      exact .inOrder
        (perform_unless eases (ih target.val target.property fresh false) env next) calls (next + 1)

end Expansion

theorem Library.expand_unless {lib grown : Library} {limit wider : Option Nat}
    {lost : ExpansionError → Prop} (eases : Expansion.Eases lib grown limit wider lost)
    (i : Instance) (scope : Scope) :
    Expansion.Unless lost (lib.expand limit i scope) (grown.expand wider i scope) := by
  unfold expand
  split
  · rename_i unknown
    rcases eases.missing i.template i.span unknown with neither | gone
    · rw [neither]
      exact .same _
    · exact .lost gone _
  · rename_i target found
    rw [eases.within.entry?_of_entry? found]
    exact (Expansion.call_unless eases scope [] true i.span target _ 0).map _

end Stottr

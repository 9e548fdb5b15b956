import Stottr.Proofs.Expansion.Course

namespace Stottr.Expansion

-- What a list of steps comes to, with a part for each of them. A step is numbered from where the
-- one before it left off.
inductive Parts {α : Type} (step : α → Nat → Result) :
    List α → Nat → List Produced → Nat → Prop where
  | nil (next : Nat) : Parts step [] next [] next
  | cons {a : α} {rest : List α} {next last : Nat} {first : Produced} {later : List Produced}
    (taken : step a next = .ok first) (others : Parts step rest first.next later last) :
    Parts step (a :: rest) next (first :: later) last

def Concatenates {α : Type} (step : α → Nat → Result) (items : List α) (next : Nat)
    (r : Produced) : Prop :=
  ∃ parts, Parts step items next parts r.next ∧
    r.statements = parts.flatMap Produced.statements

theorem concatenates_of_inOrder {α : Type} {step : α → Nat → Result} {items : List α}
    {next : Nat} {r : Produced} (done : inOrder step items next = .ok r) :
    Concatenates step items next r := by
  induction items generalizing next r with
  | nil =>
    cases done
    exact ⟨[], .nil next, rfl⟩
  | cons a rest ih =>
    obtain ⟨first, later, taken, remainder, rfl⟩ := ok_of_inOrder_cons done
    obtain ⟨parts, others, written⟩ := ih remainder
    exact ⟨first :: parts, .cons taken others, by rw [List.flatMap_cons, ← written]⟩

theorem inOrder_of_steps {α : Type} {step step' : α → Nat → Result}
    (each : ∀ a next r, step a next = .ok r → step' a next = .ok r) {items : List α} {next : Nat}
    {r : Produced} (done : inOrder step items next = .ok r) :
    inOrder step' items next = .ok r := by
  induction items generalizing next r with
  | nil => exact done
  | cons a rest ih =>
    obtain ⟨first, later, taken, remainder, rfl⟩ := ok_of_inOrder_cons done
    simp only [inOrder, each a next first taken, ih remainder]

variable {s : Setting} {path path' : List Iri}

theorem calls_of_perform {env : Environment} {number : Nat} {inner : Call} {next : Nat}
    {r : Produced} (done : perform s path env number inner next = .ok r) :
    ∃ callee made, s.library.entry? inner.template = some callee ∧
      rows inner callee.val (Argument.evaluate env fun label => .ofCall label s.scope number) =
        .ok made ∧
      inOrder (call s path false inner.span callee) made next = .ok r := by
  unfold perform at done
  split at done
  · cases done
  · rename_i callee found
    split at done
    · cases done
    · rename_i made read
      exact ⟨callee, made, found, read, done⟩

theorem perform_of_calls {env : Environment} {number : Nat} {inner : Call} {next : Nat}
    {r : Produced}
    (calls : ∀ span target arguments next r,
      call s path false span target arguments next = .ok r →
        call s path' false span target arguments next = .ok r)
    (done : perform s path env number inner next = .ok r) :
    perform s path' env number inner next = .ok r := by
  obtain ⟨callee, made, found, read, done⟩ := calls_of_perform done
  simp only [perform, found, read]
  exact inOrder_of_steps (calls inner.span callee) done

theorem tooDeep_of_unlimited (unlimited : s.limit = none) (path : List Iri) :
    tooDeep s.limit path = false := by
  rw [unlimited]
  rfl

-- The induction is on the longer path. Both grow by the template that is entered, and what is not
-- on the longer is not on the shorter.
theorem call_of_subset (unlimited : s.limit = none) (fewer : path' ⊆ path) {atTop : Bool}
    {span : Text.Span} {target : s.library.Entry} {arguments : List Term} {next : Nat}
    {r : Produced} (done : call s path atTop span target arguments next = .ok r) :
    call s path' atTop span target arguments next = .ok r := by
  induction path using path_induction s.library generalizing
    path' atTop span target arguments next r with
  | step path ih =>
    have way := course s path atTop span target arguments next
    rw [done] at way
    apply call_of_course
    generalize result : (Except.ok r : Result) = answer at way
    cases way with
    | unbound | misfit | direct | deep | cyclic => cases result
    | skipped binding checked absent inside => exact .skipped binding checked absent inside
    | statement binding checked body => exact .statement binding checked body
    | entered binding checked body above fresh =>
      have apart : target.val.iri ∉ path' := fun inside => fresh (fewer inside)
      have grown : path' ++ [target.val.iri] ⊆ path ++ [target.val.iri] :=
        List.append_subset.mpr ⟨fun iri inside => List.mem_append_left _ (fewer inside),
          List.subset_append_right _ _⟩
      have below : ∀ span callee arguments next r,
          call s (path ++ [target.val.iri]) false span callee arguments next = .ok r →
            call s (path' ++ [target.val.iri]) false span callee arguments next = .ok r :=
        fun _ _ _ _ _ called => ih target.val target.property fresh grown called
      have same := inOrder_of_steps (fun _ _ _ => perform_of_calls below) result.symm
      rw [← result, ← same]
      exact .entered binding checked body (tooDeep_of_unlimited unlimited path') apart

theorem concatenates_of_call {atTop : Bool} {span : Text.Span} {target : s.library.Entry}
    {arguments : List Term} {next : Nat} {r : Produced} {env : Environment} {calls : List Call}
    (done : call s path atTop span target arguments next = .ok r)
    (binding : bound s target arguments span next = .ok env)
    (checked : target.val.checkValues env = .ok ()) (body : target.val.body = .calls calls) :
    Concatenates (perform s (path ++ [target.val.iri]) env next) calls (next + 1) r := by
  have way := course s path atTop span target arguments next
  rw [done] at way
  generalize result : (Except.ok r : Result) = answer at way
  cases way with
  | unbound | misfit | direct | deep | cyclic => cases result
  | skipped held misfit =>
    cases binding.symm.trans held
    cases checked.symm.trans misfit
  | statement _ _ other => cases body.symm.trans other
  | entered held _ other =>
    cases binding.symm.trans held
    cases body.symm.trans other
    exact concatenates_of_inOrder result.symm

end Stottr.Expansion

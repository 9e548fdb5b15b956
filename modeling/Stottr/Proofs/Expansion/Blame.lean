import Stottr.Proofs.Expansion.Course

namespace Stottr

def Library.Makes (lib : Library) (inner : Call) : Prop := ∃ t ∈ lib.items, inner ∈ t.calls

namespace Expansion

theorem error_of_inOrder {α : Type} {step : α → Nat → Result} {items : List α} {next : Nat}
    {e : ExpansionError} (failed : inOrder step items next = .error e) :
    ∃ a ∈ items, ∃ next, step a next = .error e := by
  induction items generalizing next with
  | nil => cases failed
  | cons a rest ih =>
    unfold inOrder at failed
    split at failed
    · rename_i e' first
      cases failed
      exact ⟨a, List.mem_cons_self, next, first⟩
    · split at failed
      · rename_i e' later
        cases failed
        obtain ⟨b, member, next, inner⟩ := ih later
        exact ⟨b, List.mem_cons_of_mem a member, next, inner⟩
      · cases failed

structure Unfit (span : Text.Span) (e : ExpansionError) : Prop where
  span : e.span = span
  concern : e.fault.concern = .arity ∨ e.fault.concern = .type

theorem slots?_unfit {target : Template} {span : Text.Span} {value : Argument → Term}
    {position : Nat} {arguments : List Argument} {e : ExpansionError}
    (failed : slots? target span value position arguments = .error e) : Unfit span e := by
  induction arguments generalizing position with
  | nil => cases failed
  | cons a rest ih =>
    unfold slots? at failed
    dsimp only at failed
    split at failed
    · split at failed
      · split at failed
        · cases failed
        · rename_i later
          cases failed
          exact ih later
      · cases failed
      · cases failed
        exact ⟨rfl, .inr rfl⟩
    · split at failed
      · cases failed
      · rename_i later
        cases failed
        exact ih later

theorem rows_unfit {inner : Call} {target : Template} {value : Argument → Term}
    {e : ExpansionError} (failed : rows inner target value = .error e) : Unfit inner.span e := by
  unfold rows at failed
  split at failed
  · cases failed
  · split at failed
    · rename_i unslotted
      cases failed
      exact slots?_unfit unslotted
    · cases failed
    · cases failed

variable {s : Setting}

theorem bound_unfit {target : s.library.Entry} {arguments : List Term} {span : Text.Span}
    {next : Nat} {e : ExpansionError} (failed : bound s target arguments span next = .error e) :
    Unfit span e := by
  unfold bound Template.bind at failed
  split at failed
  · cases failed
    exact ⟨rfl, .inl rfl⟩
  · cases failed

theorem body_span {path : List Iri}
    (called : ∀ span target arguments next e,
      call s path false span target arguments next = .error e →
      e.span = span ∨ ∃ inner, s.library.Makes inner ∧ e.span = inner.span)
    {target : s.library.Entry} {calls : List Call} (body : target.val.body = .calls calls)
    {env : Environment} {number next : Nat} {e : ExpansionError}
    (failed : inOrder (perform s path env number) calls next = .error e) :
    ∃ inner, s.library.Makes inner ∧ e.span = inner.span := by
  obtain ⟨inner, member, next, failed⟩ := error_of_inOrder failed
  have made : s.library.Makes inner := by
    refine ⟨target.val, target.property, ?_⟩
    rwa [Template.calls, body]
  unfold perform at failed
  split at failed
  · cases failed
    exact ⟨inner, made, rfl⟩
  · split at failed
    · rename_i unfilled
      cases failed
      exact ⟨inner, made, (rows_unfit unfilled).span⟩
    · obtain ⟨row, _, next, failed⟩ := error_of_inOrder failed
      rcases called _ _ _ _ _ failed with here | deeper
      · exact ⟨inner, made, here⟩
      · exact deeper

theorem call_span {path : List Iri} {atTop : Bool} {span : Text.Span} {target : s.library.Entry}
    {arguments : List Term} {next : Nat} {e : ExpansionError}
    (failed : call s path atTop span target arguments next = .error e) :
    e.span = span ∨ ∃ inner, s.library.Makes inner ∧ e.span = inner.span := by
  induction path using path_induction s.library generalizing
    atTop span target arguments next e with
  | step path ih =>
    have way := course s path atTop span target arguments next
    rw [failed] at way
    generalize result : (Except.error e : Result) = answer at way
    cases way with
    | skipped | statement => cases result
    | unbound binding =>
      cases result
      exact .inl (bound_unfit binding).span
    | misfit | direct | deep | cyclic =>
      cases result
      exact .inl rfl
    | @entered env calls binding checked body above fresh =>
      refine .inr (body_span ?_ body result.symm)
      intro span callee arguments next e failed
      exact ih target.val target.property fresh failed

end Expansion

-- Whether an instance gets as far as the body of its template.
def Library.Enters (lib : Library) (limit : Option Nat) (i : Instance) (scope : Scope) : Prop :=
  ∃ target env calls, lib.entry? i.template = some target ∧
    Expansion.bound ⟨lib, scope, limit⟩ target
      (i.arguments.map (Term.relabel fun label => .ofInstance label scope)) i.span 0 = .ok env ∧
    target.val.checkValues env = .ok () ∧ target.val.body = .calls calls ∧
    Expansion.tooDeep limit [] = false

theorem Library.expand_span {lib : Library} {limit : Option Nat} {i : Instance} {scope : Scope}
    {e : ExpansionError} (failed : lib.expand limit i scope = .error e) :
    (¬lib.Enters limit i scope → e.span = i.span) ∧
      (lib.Enters limit i scope → ∃ inner, lib.Makes inner ∧ e.span = inner.span) := by
  unfold expand at failed
  split at failed
  · rename_i unknown
    cases failed
    refine ⟨fun _ => rfl, ?_⟩
    rintro ⟨target, _, _, found, _⟩
    rw [unknown] at found
    cases found
  · rename_i target found
    change (lib.callOf limit i scope target).map Expansion.Produced.statements = _ at failed
    have called : lib.callOf limit i scope target = .error e := by
      cases called : lib.callOf limit i scope target with
      | error e' =>
        rw [called] at failed
        cases failed
        rfl
      | ok r =>
        rw [called] at failed
        cases failed
    unfold callOf at called
    constructor
    · intro outside
      have way := Expansion.course ⟨lib, scope, limit⟩ [] true i.span target
        (i.arguments.map (Term.relabel fun label => .ofInstance label scope)) 0
      rw [called] at way
      generalize result : (Except.error e : Expansion.Result) = answer at way
      cases way with
      | skipped | statement => cases result
      | unbound binding =>
        cases result
        exact (Expansion.bound_unfit binding).span
      | misfit | direct | deep | cyclic =>
        cases result
        rfl
      | @entered env calls binding checked body above fresh =>
        exact absurd ⟨target, env, calls, found, binding, checked, body, above⟩ outside
    · rintro ⟨target', env, calls, found', binding, checked, body, above⟩
      cases found.symm.trans found'
      rw [Expansion.call_of_course _ (.entered binding checked body above nofun)] at called
      exact Expansion.body_span (fun _ _ _ _ _ failed => Expansion.call_span failed) body called

end Stottr

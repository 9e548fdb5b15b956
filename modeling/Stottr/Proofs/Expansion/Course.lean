import Stottr.Expansion

namespace Stottr

theorem Library.get?_of_entry {lib : Library} {iri : Iri} {t : lib.Entry}
    (found : lib.entry? iri = some t) : lib.get? iri = some t.val := by
  unfold entry? at found
  split at found
  · rename_i u held
    cases found
    exact held
  · cases found

namespace Expansion

theorem path_induction (lib : Library) {P : List Iri → Prop}
    (step : ∀ path, (∀ t ∈ lib.items, t.iri ∉ path → P (path ++ [t.iri])) → P path)
    (path : List Iri) : P path := by
  apply step
  intro t member fresh
  have fewer := remaining_lt lib path t member (by simpa using fresh)
  exact path_induction lib step (path ++ [t.iri])
termination_by remaining lib path
decreasing_by exact fewer

theorem ok_of_inOrder_cons {α : Type} {step : α → Nat → Result} {a : α} {rest : List α}
    {next : Nat} {r : Produced} (done : inOrder step (a :: rest) next = .ok r) :
    ∃ first later, step a next = .ok first ∧ inOrder step rest first.next = .ok later ∧
      r = ⟨later.next, first.statements ++ later.statements⟩ := by
  unfold inOrder at done
  split at done
  · cases done
  · rename_i first taken
    split at done
    · cases done
    · rename_i later remainder
      cases done
      exact ⟨first, later, taken, remainder, rfl⟩

theorem inOrder_statements {α : Type} {step : α → Nat → Result} {P : Statement → Prop}
    (each : ∀ a next r, step a next = .ok r → ∀ st ∈ r.statements, P st)
    (items : List α) (next : Nat) (r : Produced) (done : inOrder step items next = .ok r) :
    ∀ st ∈ r.statements, P st := by
  induction items generalizing next r with
  | nil =>
    cases done
    intro st member
    cases member
  | cons a rest ih =>
    obtain ⟨first, later, taken, remainder, rfl⟩ := ok_of_inOrder_cons done
    intro st member
    rcases List.mem_append.mp member with early | late
    · exact each a next first taken st early
    · exact ih first.next later remainder st late

def tooDeep (limit : Option Nat) (path : List Iri) : Bool :=
  (limit.map fun limit => decide (limit ≤ path.length)).getD false

variable (s : Setting)

-- One call of a body: the callee is looked up, and then called once for every row.
def perform (path : List Iri) (env : Environment) (number : Nat) (inner : Call) (next : Nat) :
    Result :=
  match s.library.entry? inner.template with
  | none => .error ⟨.unknownTemplate inner.template, inner.span⟩
  | some callee =>
    match rows inner callee.val (Argument.evaluate env fun label =>
        .ofCall label s.scope number) with
    | .error e => .error e
    | .ok rows => inOrder (call s path false inner.span callee) rows next

def bound (target : s.library.Entry) (arguments : List Term) (span : Text.Span) (next : Nat) :
    Except ExpansionError Environment :=
  target.val.bind arguments span fun label => .ofCall label s.scope next

inductive Course (path : List Iri) (atTop : Bool) (span : Text.Span) (target : s.library.Entry)
    (arguments : List Term) (next : Nat) : Result → Prop where
  | unbound {e : ExpansionError} (binding : bound s target arguments span next = .error e) :
    Course path atTop span target arguments next (.error e)
  | skipped {env : Environment} {m : Template.Misfit}
    (binding : bound s target arguments span next = .ok env)
    (checked : target.val.checkValues env = .error m) (absent : m.reason = .noneNotAllowed)
    (inside : atTop = false) : Course path atTop span target arguments next (.ok ⟨next, []⟩)
  | misfit {env : Environment} {m : Template.Misfit}
    (binding : bound s target arguments span next = .ok env)
    (checked : target.val.checkValues env = .error m)
    (faulty : ¬(m.reason = .noneNotAllowed ∧ atTop = false)) :
    Course path atTop span target arguments next (.error (m.error target.val span))
  | statement {env : Environment} {pattern : Pattern}
    (binding : bound s target arguments span next = .ok env)
    (checked : target.val.checkValues env = .ok ()) (body : target.val.body = .statement pattern) :
    Course path atTop span target arguments next (.ok ⟨next, [pattern.statement env]⟩)
  | direct {env : Environment} (binding : bound s target arguments span next = .ok env)
    (checked : target.val.checkValues env = .ok ()) (body : target.val.body = .crossProduct) :
    Course path atTop span target arguments next
      (.error ⟨.mismatch target.val.iri none none .directCrossCall, span⟩)
  | deep {env : Environment} {calls : List Call}
    (binding : bound s target arguments span next = .ok env)
    (checked : target.val.checkValues env = .ok ()) (body : target.val.body = .calls calls)
    (below : tooDeep s.limit path = true) : Course path atTop span target arguments next
      (.error ⟨.depthLimit (s.limit.getD 0) target.val.iri, span⟩)
  | cyclic {env : Environment} {calls : List Call}
    (binding : bound s target arguments span next = .ok env)
    (checked : target.val.checkValues env = .ok ()) (body : target.val.body = .calls calls)
    (above : tooDeep s.limit path = false) (again : target.val.iri ∈ path) :
    Course path atTop span target arguments next
      (.error ⟨.cycle (path ++ [target.val.iri]), span⟩)
  | entered {env : Environment} {calls : List Call}
    (binding : bound s target arguments span next = .ok env)
    (checked : target.val.checkValues env = .ok ()) (body : target.val.body = .calls calls)
    (above : tooDeep s.limit path = false) (fresh : target.val.iri ∉ path) :
    Course path atTop span target arguments next
      (inOrder (perform s (path ++ [target.val.iri]) env next) calls (next + 1))

theorem course (path : List Iri) (atTop : Bool) (span : Text.Span) (target : s.library.Entry)
    (arguments : List Term) (next : Nat) :
    Course s path atTop span target arguments next
      (call s path atTop span target arguments next) := by
  rw [call]
  split
  · rename_i e binding
    exact .unbound binding
  · rename_i env binding
    split
    · rename_i m checked
      split
      · rename_i excused
        exact .skipped binding checked excused.1 (by simpa using excused.2)
      · rename_i faulty
        exact .misfit binding checked (by simpa using faulty)
    · rename_i checked
      split
      · rename_i pattern body
        exact .statement binding checked body
      · rename_i body
        exact .direct binding checked body
      · rename_i calls body
        split
        · rename_i below
          exact .deep binding checked body below
        · rename_i above
          have above : tooDeep s.limit path = false := by simpa [tooDeep] using above
          split
          · rename_i again
            exact .cyclic binding checked body above (by simpa using again)
          · rename_i fresh
            exact .entered binding checked body above (by simpa using fresh)

theorem call_of_course {path : List Iri} {atTop : Bool} {span : Text.Span}
    {target : s.library.Entry} {arguments : List Term} {next : Nat} {result : Result}
    (way : Course s path atTop span target arguments next result) :
    call s path atTop span target arguments next = result := by
  rw [call]
  cases way with
  | unbound binding =>
    unfold bound at binding
    simp only [binding]
  | skipped binding checked absent inside =>
    unfold bound at binding
    simp [binding, checked, absent, inside]
  | misfit binding checked faulty =>
    unfold bound at binding
    simp [binding, checked, faulty]
  | statement binding checked body =>
    unfold bound at binding
    simp only [binding, checked, body]
  | direct binding checked body =>
    unfold bound at binding
    simp only [binding, checked, body]
  | deep binding checked body below =>
    unfold bound at binding
    unfold tooDeep at below
    simp only [binding, checked, body, below, if_true]
  | cyclic binding checked body above again =>
    unfold bound at binding
    unfold tooDeep at above
    simp [binding, checked, body, above, again]
  | entered binding checked body above fresh =>
    unfold bound at binding
    unfold tooDeep at above
    simp [binding, checked, body, above, fresh]
    rfl

theorem env_of_bound {target : s.library.Entry} {arguments : List Term} {span : Text.Span}
    {next : Nat} {env : Environment} (binding : bound s target arguments span next = .ok env) :
    env = Template.fillAll (fun label => .ofCall label s.scope next) target.val.parameters
      arguments := by
  unfold bound Template.bind at binding
  split at binding
  · cases binding
  · cases binding
    rfl

theorem length_of_bound {target : s.library.Entry} {arguments : List Term} {span : Text.Span}
    {next : Nat} {env : Environment} (binding : bound s target arguments span next = .ok env) :
    env.length = target.val.parameters.length := by
  rw [env_of_bound s binding]
  exact Template.length_fillAll _ _ _

-- Nothing is written but by the statement templates of the library, and each of those writes only
-- what has passed the checks of its parameters.
theorem call_statements {P : Statement → Prop}
    (writes : ∀ (t : s.library.Entry) (pattern : Pattern) (env : Environment),
      t.val.body = .statement pattern → env.length = t.val.parameters.length →
      t.val.checkValues env = .ok () → P (pattern.statement env))
    (path : List Iri) (atTop : Bool) (span : Text.Span) (target : s.library.Entry)
    (arguments : List Term) (next : Nat) (r : Produced)
    (done : call s path atTop span target arguments next = .ok r) : ∀ st ∈ r.statements, P st := by
  induction path using path_induction s.library generalizing
    atTop span target arguments next r with
  | step path ih =>
    have way := course s path atTop span target arguments next
    rw [done] at way
    generalize result : (Except.ok r : Result) = answer at way
    cases way with
    | unbound | misfit | direct | deep | cyclic => cases result
    | skipped =>
      cases result
      intro st member
      cases member
    | @statement env pattern binding checked body =>
      cases result
      intro st member
      rw [List.mem_singleton.mp member]
      exact writes target pattern env body (length_of_bound s binding) checked
    | @entered env calls binding checked body above fresh =>
      refine inOrder_statements ?_ calls (next + 1) r result.symm
      intro inner next r performed
      unfold perform at performed
      split at performed
      · cases performed
      · split at performed
        · cases performed
        · rename_i rows _
          refine inOrder_statements ?_ rows next r performed
          intro row next r called
          exact ih target.val target.property fresh false _ _ row next r called

end Expansion

def Library.callOf (lib : Library) (limit : Option Nat) (i : Instance) (scope : Scope)
    (target : lib.Entry) : Expansion.Result :=
  Expansion.call ⟨lib, scope, limit⟩ [] true i.span target
    (i.arguments.map (Term.relabel fun label => .ofInstance label scope)) 0

theorem Library.callOf_of_expand {lib : Library} {limit : Option Nat} {i : Instance}
    {scope : Scope} {statements : List Statement}
    (done : lib.expand limit i scope = .ok statements) :
    ∃ target r, lib.entry? i.template = some target ∧ lib.callOf limit i scope target = .ok r ∧
      r.statements = statements := by
  unfold expand at done
  split at done
  · cases done
  · rename_i target found
    change (lib.callOf limit i scope target).map Expansion.Produced.statements = _ at done
    cases called : lib.callOf limit i scope target with
    | error e =>
      rw [called] at done
      cases done
    | ok r =>
      rw [called] at done
      cases done
      exact ⟨target, r, found, called, rfl⟩

end Stottr

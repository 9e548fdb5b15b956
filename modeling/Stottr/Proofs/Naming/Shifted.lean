import Stottr.Proofs.Expansion.InRange
import Stottr.Proofs.Expansion.Parts
import Stottr.Proofs.Naming.Earlier
import Stottr.Proofs.Naming.Rescoped

namespace Stottr

namespace BlankNode

-- The name of a node with a number of its scope that is not below a bound moved up. Any other name
-- stays as it is.
def shift (s : Scope) (bound count : Nat) (node : BlankNode) : BlankNode :=
  match cutLast node.label.toList with
  | none => node
  | some (front, mark) =>
    match cutLast front with
    | none => node
    | some (label, scope) =>
      let call := Nat.ofDigitChars 10 mark 0
      if scope = s.render.toList ∧ mark = (toString call).toList ∧ bound ≤ call then
        ofCall (String.ofList label) s (call + count)
      else node

theorem ofDigitChars_toString (n : Nat) : Nat.ofDigitChars 10 (toString n).toList 0 = n := by
  simp

theorem shift_ofCall (label : String) (s : Scope) (bound count call : Nat) :
    (ofCall label s call).shift s bound count =
      ofCall label s (if bound ≤ call then call + count else call) := by
  unfold shift
  rw [ofCall_eq_marked, toList_marked, cutLast_append _ (underscore_not_mem_toString call)]
  dsimp only
  rw [cutLast_append _ s.underscore_not_mem_render]
  dsimp only
  rw [ofDigitChars_toString]
  by_cases above : bound ≤ call
  · simp [above]
  · simp [above]
    rfl

theorem shift_ofInstance (label : String) (s : Scope) (bound count : Nat) :
    (ofInstance label s).shift s bound count = ofInstance label s := by
  unfold shift
  rw [ofInstance_eq_marked, toList_marked, cutLast_append _ (by decide)]
  dsimp only
  rw [cutLast_append _ s.underscore_not_mem_render]
  dsimp only
  have letter : "i".toList ≠ (toString (Nat.ofDigitChars 10 "i".toList 0)).toList := by
    decide
  exact if_neg fun fits => letter fits.2.1

theorem Earlier.shift {s : Scope} {next : Nat} {node : BlankNode} (earlier : node.Earlier s next)
    (count : Nat) : node.shift s next count = node := by
  rcases earlier with ⟨label, rfl⟩ | ⟨label, call, before, rfl⟩
  · exact shift_ofInstance label s next count
  · rw [shift_ofCall, if_neg (Nat.not_le_of_lt before)]

end BlankNode

namespace Naming

-- Who wrote the nodes that a call is given does not matter here, only their numbers: those of a
-- body stand for a position that no call below the one at hand has.
def numbering (next : Nat) (below : List Position) : Position → Nat
  | [(1, call)] => call
  | p => next + below.idxOf p

def lifted (number : Position → Nat) (bound count : Nat) (p : Position) : Nat :=
  if bound ≤ number p then number p + count else number p

theorem shift_name (scope : Scope) (number : Position → Nat) (bound count : Nat) (node : Origin) :
    (node.name scope number).shift scope bound count =
      node.name scope (lifted number bound count) := by
  cases node with
  | given label => exact BlankNode.shift_ofInstance label scope bound count
  | written call label => exact BlankNode.shift_ofCall label scope bound count _

section Numbering

variable {next : Nat} {below : List Position}

theorem numbering_of_below {p : Position} (here : [(0, 0)] <+: p) :
    numbering next below p = next + below.idxOf p := by
  obtain ⟨rest, rfl⟩ := here
  rfl

theorem numbers_numbering (distinct : below.Nodup) (under : ∀ p ∈ below, [(0, 0)] <+: p) :
    Numbers (numbering next below) next below := by
  apply numbers_of_getElem
  intro k bound
  rw [numbering_of_below (under _ (List.getElem_mem bound)), distinct.idxOf_getElem k bound]

theorem numbers_lifted {number : Position → Nat} {n bound : Nat} {ps : List Position}
    (numbers : Numbers number n ps) (above : bound ≤ n) (count : Nat) :
    Numbers (lifted number bound count) (n + count) ps := by
  induction ps generalizing n with
  | nil => exact trivial
  | cons p ps ih =>
    obtain ⟨first, others⟩ := numbers
    refine ⟨?_, ?_⟩
    · rw [lifted, first, if_pos above]
    · rw [Nat.add_right_comm]
      exact ih others (Nat.le_succ_of_le above)

end Numbering

theorem values_of_earlier {scope : Scope} {next : Nat} {ts : List Term}
    (earlier : ∀ t ∈ ts, t.Earlier scope next) :
    ∃ values : Values Origin, ∀ number : Position → Nat,
      (∀ call < next, number [(1, call)] = call) →
        values.render (Origin.name scope number) = ts := by
  have named : ∀ label : String, ∃ origin : Origin,
      BlankNode.Earlier scope next ⟨label⟩ → ∀ number : Position → Nat,
        (∀ call < next, number [(1, call)] = call) → origin.name scope number = ⟨label⟩ := by
    intro label
    by_cases made : BlankNode.Earlier scope next ⟨label⟩
    · rcases made with ⟨own, same⟩ | ⟨own, call, before, same⟩
      · exact ⟨.given own, fun _ _ _ => same.symm⟩
      · refine ⟨.written [(1, call)] own, fun _ number keeps => ?_⟩
        rw [same, Origin.name, keeps call before]
    · exact ⟨.given label, fun other => absurd other made⟩
  choose own names using named
  refine ⟨ts.map (Value.ofTerm own), fun number keeps => ?_⟩
  rw [Values.render, List.map_map]
  refine (List.map_congr_left ?_).trans (List.map_id ts)
  intro t member
  refine (Value.render_ofTerm _ own t).trans (t.relabel_self ?_)
  exact fun node inside => names node.label (earlier t member node inside) number keeps

variable {s : Expansion.Setting} {path : List Iri} {atTop : Bool} {span : Text.Span}
  {target : s.library.Entry} {arguments : List Term} {next : Nat} {r : Expansion.Produced}

-- One account of the call, read with the numbers from the next one on or from a later one.
theorem account_of_call (texts : s.library.FromTexts)
    (earlier : ∀ t ∈ arguments, t.Earlier s.scope next)
    (done : Expansion.call s path atTop span target arguments next = .ok r) :
    ∃ (values : Values Origin) (a : Account) (number : Position → Nat),
      a = call s.library s.limit path [(0, 0)] atTop span target values ∧
      Numbers number next a.numbered ∧
      values.render (Origin.name s.scope number) = arguments ∧
      a.render (Origin.name s.scope number) next = .ok r ∧
      ∀ count, Expansion.call s path atTop span target arguments (next + count) =
        a.render (Origin.name s.scope (lifted number next count)) (next + count) := by
  obtain ⟨values, rendered⟩ := values_of_earlier earlier
  have under := @numbered_below s.library s.limit path [(0, 0)] atTop span target values
  have before := @numbered_before s.library s.limit path [(0, 0)] atTop span target values
  have numbers := @numbers_numbering next _ (before.imp Position.Before.ne) under
  generalize account : call s.library s.limit path [(0, 0)] atTop span target values = a at numbers
  have here := rendered (numbering next a.numbered) fun _ _ => rfl
  refine ⟨values, a, numbering next a.numbered, account.symm, numbers, here, ?_, ?_⟩
  · have read := call_account texts path [(0, 0)] atTop span target values next (account ▸ numbers)
    rw [account, here, done] at read
    exact read.symm
  · intro count
    have there := rendered (lifted (numbering next a.numbered) next count)
      fun call before => if_neg (Nat.not_le_of_lt before)
    have read := call_account texts path [(0, 0)] atTop span target values (next + count)
      (account ▸ numbers_lifted numbers (Nat.le_refl next) count)
    rw [account, there] at read
    exact read

theorem call_shift (texts : s.library.FromTexts)
    (earlier : ∀ t ∈ arguments, t.Earlier s.scope next)
    (done : Expansion.call s path atTop span target arguments next = .ok r) (count : Nat) :
    Expansion.call s path atTop span target arguments (next + count) =
      .ok ⟨r.next + count, r.statements.map (.rename (.shift s.scope next count))⟩ := by
  obtain ⟨values, a, number, -, -, -, read, other⟩ := account_of_call texts earlier done
  rw [other count]
  unfold Account.render at read ⊢
  split at read
  · rename_i facts written
    cases read
    simp only [List.map_map, Function.comp_def, Fact.rename_render, shift_name, Nat.add_right_comm]
  · cases read

theorem next_le_of_call (texts : s.library.FromTexts)
    (earlier : ∀ t ∈ arguments, t.Earlier s.scope next)
    (done : Expansion.call s path atTop span target arguments next = .ok r) : next ≤ r.next := by
  obtain ⟨values, a, number, -, -, -, read, -⟩ := account_of_call texts earlier done
  unfold Account.render at read
  split at read
  · cases read
    exact Nat.le_add_right _ _
  · cases read

theorem number_of_numbers {number : Position → Nat} {n : Nat} {ps : List Position}
    (numbers : Numbers number n ps) :
    ∀ p ∈ ps, n ≤ number p ∧ number p < n + ps.length := by
  induction ps generalizing n with
  | nil => exact nofun
  | cons p ps ih =>
    obtain ⟨first, others⟩ := numbers
    intro q member
    rw [List.length_cons]
    rcases List.mem_cons.mp member with rfl | later
    · omega
    · have inside := ih others q later
      omega

theorem nodes_of_call (texts : s.library.FromTexts)
    (earlier : ∀ t ∈ arguments, t.Earlier s.scope next)
    (done : Expansion.call s path atTop span target arguments next = .ok r) :
    ∀ st ∈ r.statements, ∀ node ∈ st.nodes, (∃ t ∈ arguments, node ∈ t.nodes) ∨
      ∃ label call, next ≤ call ∧ call < r.next ∧ node = .ofCall label s.scope call := by
  obtain ⟨values, a, number, account, numbers, given, read, -⟩ := account_of_call texts earlier done
  let P : Origin → Prop := fun origin =>
    (∃ v ∈ values, origin ∈ v.nodes) ∨ ∃ label, ∃ p ∈ a.numbered, origin = .written p label
  have within := @facts_within s.library s.limit texts P path [(0, 0)] atTop span target values
    (fun v member origin inside => .inl ⟨v, member, inside⟩)
    (fun p entered label => .inr ⟨label, p, account ▸ entered, rfl⟩)
  rw [← account] at within
  unfold Account.render at read
  split at read
  · rename_i facts written
    cases read
    intro st member node inside
    obtain ⟨fact, listed, rfl⟩ := List.mem_map.mp member
    rw [Fact.nodes_render] at inside
    obtain ⟨origin, held, rfl⟩ := List.mem_map.mp inside
    have made : fact ∈ a.facts := by rwa [Account.facts, written]
    rcases Fact.nodes_within (within fact made) origin held with
      ⟨v, passed, there⟩ | ⟨label, p, entered, rfl⟩
    · refine .inl ⟨v.render (Origin.name s.scope number), ?_, ?_⟩
      · rw [← given]
        exact List.mem_map_of_mem passed
      · rw [Value.nodes_render]
        exact List.mem_map_of_mem there
    · obtain ⟨above, below⟩ := number_of_numbers numbers p entered
      exact .inr ⟨label, number p, above, below, rfl⟩
  · cases read

end Naming

namespace Expansion

variable {s : Setting} {m : Machine s.library} {atTop : Bool} {span : Text.Span}
  {target : s.library.Entry} {arguments : List Term} {rest : List (Task s.library)} {r : Produced}

theorem earlier_of_reaches {i : Instance} (reached : Reaches s (Machine.start s i) m)
    (tasks : m.tasks = .call atTop span target arguments :: rest) :
    ∀ t ∈ arguments, t.Earlier s.scope m.next := by
  have held := reaches_earlier reached
  rw [tasks, List.forall_mem_cons] at held
  exact held.1

theorem reaches_of_call (path : List Iri) (next : Nat) (out : List Statement)
    (done : call s path atTop span target arguments next = .ok r) :
    Reaches s ⟨path, next, out, .call atTop span target arguments :: rest⟩
      ⟨path, r.next, out ++ r.statements, rest⟩ := by
  have answers := answers_call path atTop span target arguments next out rest
  rwa [done] at answers

theorem concatenates_of_perform {path : List Iri} {env : Environment} {number : Nat} {inner : Call}
    {next : Nat} (done : perform s path env number inner next = .ok r) :
    ∃ callee made, s.library.entry? inner.template = some callee ∧
      rows inner callee.val (Argument.evaluate env fun label => .ofCall label s.scope number) =
        .ok made ∧
      Concatenates (call s path false inner.span callee) made next r := by
  obtain ⟨callee, made, found, read, called⟩ := calls_of_perform done
  exact ⟨callee, made, found, read, concatenates_of_inOrder called⟩

theorem shift_of_call (texts : s.library.FromTexts) {path : List Iri} {next : Nat}
    (earlier : ∀ t ∈ arguments, t.Earlier s.scope next)
    (done : call s path atTop span target arguments next = .ok r) :
    ∀ st ∈ r.statements, ∀ node ∈ st.nodes,
      ((∃ t ∈ arguments, node ∈ t.nodes) ∧ ∀ count, node.shift s.scope next count = node) ∨
      ∃ label own, next ≤ own ∧ own < r.next ∧ node = .ofCall label s.scope own ∧
        ∀ count, node.shift s.scope next count = .ofCall label s.scope (own + count) := by
  intro st member node there
  rcases Naming.nodes_of_call texts earlier done st member node there with
    ⟨t, passed, inside⟩ | ⟨label, own, above, below, rfl⟩
  · exact .inl ⟨⟨t, passed, inside⟩, (earlier t passed node inside).shift⟩
  · refine .inr ⟨label, own, above, below, rfl, fun count => ?_⟩
    rw [BlankNode.shift_ofCall, if_pos above]

-- A call that succeeds leaves the path as it was and writes behind what is there, its body part by
-- part. It does the same anywhere else: only the numbers of the bodies that it enters are others.
theorem calls_independent (texts : s.library.FromTexts) (unlimited : s.limit = none) {i : Instance}
    (reached : Reaches s (Machine.start s i) m)
    (tasks : m.tasks = .call atTop span target arguments :: rest)
    (done : call s m.path atTop span target arguments m.next = .ok r) :
    Reaches s m ⟨m.path, r.next, m.out ++ r.statements, rest⟩ ∧ m.next ≤ r.next ∧
    (∀ env calls, bound s target arguments span m.next = .ok env →
      target.val.checkValues env = .ok () → target.val.body = .calls calls →
      let inside := m.path ++ [target.val.iri]
      Concatenates (perform s inside env m.next) calls (m.next + 1) r ∧
      ∀ inner next part, perform s inside env m.next inner next = .ok part →
        ∃ callee made, s.library.entry? inner.template = some callee ∧
          rows inner callee.val (Argument.evaluate env fun label =>
            .ofCall label s.scope m.next) = .ok made ∧
          Concatenates (call s inside false inner.span callee) made next part) ∧
    (∀ st ∈ r.statements, ∀ node ∈ st.nodes,
      ((∃ t ∈ arguments, node ∈ t.nodes) ∧ ∀ count, node.shift s.scope m.next count = node) ∨
      ∃ label own, m.next ≤ own ∧ own < r.next ∧ node = .ofCall label s.scope own ∧
        ∀ count, node.shift s.scope m.next count = .ofCall label s.scope (own + count)) ∧
    ∀ path' ⊆ m.path, ∀ count out rest',
      let shifted := r.statements.map (.rename (.shift s.scope m.next count))
      call s path' atTop span target arguments (m.next + count) = .ok ⟨r.next + count, shifted⟩ ∧
      Reaches s ⟨path', m.next + count, out, .call atTop span target arguments :: rest'⟩
        ⟨path', r.next + count, out ++ shifted, rest'⟩ := by
  have earlier := earlier_of_reaches reached tasks
  refine ⟨?_, Naming.next_le_of_call texts earlier done, ?_, shift_of_call texts earlier done, ?_⟩
  · obtain ⟨path, next, out, pending⟩ := m
    cases tasks
    exact reaches_of_call path next out done
  · intro env calls binding checked body inside
    exact ⟨concatenates_of_call done binding checked body,
      fun inner next part performed => concatenates_of_perform performed⟩
  · intro path' fewer count out rest' shifted
    have moved := Naming.call_shift texts earlier (call_of_subset unlimited fewer done) count
    exact ⟨moved, reaches_of_call path' (m.next + count) out moved⟩

def Machine.called? (m : Machine s.library) : Option (List Iri × Nat × Result) :=
  match m.tasks with
  | .call atTop span target arguments :: _ =>
    some (m.path, m.next, call s m.path atTop span target arguments m.next)
  | _ => none

theorem Machine.tasks_of_called {path : List Iri} {next : Nat} {result : Result}
    (called : m.called? = some (path, next, result)) :
    ∃ atTop span target arguments rest, m.tasks = .call atTop span target arguments :: rest ∧
      m.path = path ∧ m.next = next ∧
      call s m.path atTop span target arguments m.next = result := by
  unfold called? at called
  split at called
  · rename_i tasks
    cases called
    exact ⟨_, _, _, _, _, tasks, rfl, rfl, rfl⟩
  · cases called

-- A default, filled in below another template, and then as if the call stood alone.
theorem calls_independent_nesting :
    let s : Setting := ⟨Library.nesting, .first, none⟩
    let written (name : String) : Statement :=
      ⟨.blank ⟨"b_0_i"⟩, .iri ⟨"http://e/p"⟩, .blank ⟨name⟩⟩
    ∃ m : Machine s.library, Reaches s (Machine.start s Library.nested) m ∧
      m.path = [⟨"http://e/Outer"⟩] ∧
      ∃ atTop span target arguments rest,
        m.tasks = .call atTop span target arguments :: rest ∧
        call s m.path atTop span target arguments 1 = .ok ⟨2, [written "b_0_1"]⟩ ∧
        call s [] atTop span target arguments 6 = .ok ⟨7, [written "b_0_6"]⟩ := by
  intro s written
  have computed : ((Machine.start s Library.nested).after? 4).bind Machine.called? =
      some ([⟨"http://e/Outer"⟩], 1, .ok ⟨2, [written "b_0_1"]⟩) := by decide +kernel
  obtain ⟨m, run, called⟩ := Option.bind_eq_some_iff.mp computed
  obtain ⟨atTop, span, target, arguments, rest, tasks, path, next, done⟩ :=
    Machine.tasks_of_called called
  have reached : Reaches s (Machine.start s Library.nested) m := reaches_of_after? run
  obtain ⟨-, -, -, -, elsewhere⟩ :=
    calls_independent (s := s) (.ofText _) rfl reached tasks done
  have moved := (elsewhere [] (List.nil_subset _) 5 [] []).1
  rw [next] at done moved
  refine ⟨m, reached, path, atTop, span, target, arguments, rest, tasks, done, ?_⟩
  have renamed : [written "b_0_1"].map (.rename (.shift s.scope 1 5)) = [written "b_0_6"] := by
    decide +kernel
  rw [renamed] at moved
  exact moved

end Expansion

end Stottr

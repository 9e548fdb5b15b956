import Stottr.Proofs.Naming.Labels
import Stottr.Proofs.Naming.Order

namespace Stottr.Naming

def Origin.name (scope : Scope) (number : Position → Nat) : Origin → BlankNode
  | .given label => .ofInstance label scope
  | .written call label => .ofCall label scope (number call)

def Numbers (number : Position → Nat) : Nat → List Position → Prop
  | _, [] => True
  | n, p :: ps => number p = n ∧ Numbers number (n + 1) ps

theorem numbers_append {number : Position → Nat} {n : Nat} {ps qs : List Position} :
    Numbers number n (ps ++ qs) ↔ Numbers number n ps ∧ Numbers number (n + ps.length) qs := by
  induction ps generalizing n with
  | nil => simp [Numbers]
  | cons p ps ih =>
    simp only [List.cons_append, Numbers, ih, List.length_cons, and_assoc]
    rw [Nat.add_right_comm, Nat.add_assoc]

theorem numbers_of_getElem {number : Position → Nat} {n : Nat} {ps : List Position}
    (each : ∀ k (bound : k < ps.length), number ps[k] = n + k) : Numbers number n ps := by
  induction ps generalizing n with
  | nil => exact trivial
  | cons p ps ih =>
    refine ⟨each 0 (by simp), ih ?_⟩
    intro k bound
    have next := each (k + 1) (by simpa using bound)
    simp only [List.getElem_cons_succ] at next
    omega

theorem numbers_idxOf {ps : List Position} (distinct : ps.Nodup) : Numbers (ps.idxOf ·) 0 ps := by
  apply numbers_of_getElem
  intro k bound
  simpa using distinct.idxOf_getElem k bound

def Account.render (name : Origin → BlankNode) (next : Nat) (a : Account) : Expansion.Result :=
  match a.outcome with
  | .ok facts => .ok ⟨next + a.numbered.length, facts.map (Fact.render name)⟩
  | .error e => .error (e.render name)

theorem render_entering (name : Origin → BlankNode) (here : Position) (inside : Account)
    (next : Nat) : (inside.entering here).render name next = inside.render name (next + 1) := by
  obtain ⟨numbered, outcome⟩ := inside
  cases outcome with
  | error e => rfl
  | ok facts =>
    simp only [Account.render, Account.entering, List.length_cons]
    rw [Nat.add_right_comm, Nat.add_assoc]

theorem inOrder_inTurn {α β : Type} {name : Origin → BlankNode} {number : Position → Nat}
    {step : Nat → α → Account} {make : β → Nat → Expansion.Result} (f : α → β)
    (each : ∀ k a next, Numbers number next (step k a).numbered →
      make (f a) next = (step k a).render name next)
    (items : List α) (k next : Nat)
    (numbers : Numbers number next (Account.inTurn step k items).numbered) :
    Expansion.inOrder make (items.map f) next =
      (Account.inTurn step k items).render name next := by
  induction items generalizing k next with
  | nil => rfl
  | cons a rest ih =>
    have one := each k a next
    simp only [List.map_cons, Expansion.inOrder]
    unfold Account.inTurn at numbers ⊢
    generalize step k a = first at one numbers ⊢
    obtain ⟨entered, outcome⟩ := first
    cases outcome with
    | error e =>
      rw [one numbers]
      rfl
    | ok facts =>
      obtain ⟨here, behind⟩ := numbers_append.mp numbers
      have others := ih (k + 1) _ behind
      rw [one here]
      simp only [Account.render, others, Account.andThen]
      cases (Account.inTurn step (k + 1) rest).outcome with
      | error e => rfl
      | ok facts' =>
        simp only [Except.map, List.map_append, List.length_append, Nat.add_assoc]

variable {s : Expansion.Setting} {number : Position → Nat}

section Binding

variable {here : Position} {span : Text.Span} {target : s.library.Entry}
  {arguments env : Values Origin}

theorem bound_eq_bind :
    Expansion.bound s target (arguments.render (Origin.name s.scope number)) span (number here) =
    (bind target.val arguments span (.written here)).map
      (Values.render (Origin.name s.scope number)) :=
  (render_bind (Origin.name s.scope number) target.val arguments span (.written here)).symm

-- The number of the call is in the names of the nodes in defaults, and nothing else depends on it.
theorem bound_verdict (next : Nat) :
    (Expansion.bound s target (arguments.render (Origin.name s.scope number)) span next).map
      target.val.verdict =
    (bind target.val arguments span (.written here)).map (verdict target.val) := by
  have alike : (Expansion.bound s target (arguments.render (Origin.name s.scope number)) span
      next).map target.val.verdict = (Expansion.bound s target
        (arguments.render (Origin.name s.scope number)) span (number here)).map
          target.val.verdict :=
    target.val.bind_verdict _ span _ _
  rw [alike, bound_eq_bind]
  cases bind target.val arguments span (.written here) with
  | error e => rfl
  | ok env => exact congrArg Except.ok (verdict_render _ target.val env)

theorem bound_of_number (binding : bind target.val arguments span (.written here) = .ok env) :
    Expansion.bound s target (arguments.render (Origin.name s.scope number)) span (number here) =
      .ok (env.render (Origin.name s.scope number)) := by
  rw [bound_eq_bind, binding]
  rfl

theorem bound_of_unbound {e : ExpansionError} (next : Nat)
    (binding : bind target.val arguments span (.written here) = .error e) :
    Expansion.bound s target (arguments.render (Origin.name s.scope number)) span next =
      .error e := by
  have alike := @bound_verdict s number here span target arguments next
  rw [binding] at alike
  exact error_of_map alike

theorem bound_of_fit (next : Nat)
    (binding : bind target.val arguments span (.written here) = .ok env)
    (checked : misfit? (target.val.parameters.zip env) = none) :
    ∃ held, Expansion.bound s target (arguments.render (Origin.name s.scope number)) span next =
      .ok held ∧ target.val.checkValues held = .ok () := by
  have alike := @bound_verdict s number here span target arguments next
  rw [binding] at alike
  obtain ⟨held, bound, fit⟩ := ok_of_map alike
  simp only [verdict, checked, Option.map_none] at fit
  exact ⟨held, bound, Template.checkValues_of_verdict fit⟩

theorem bound_of_misfit {m : Misfit Origin} (next : Nat)
    (binding : bind target.val arguments span (.written here) = .ok env)
    (checked : misfit? (target.val.parameters.zip env) = some m) :
    ∃ held found, Expansion.bound s target (arguments.render (Origin.name s.scope number)) span
        next = .ok held ∧
      target.val.checkValues held = .error found ∧ found.reason = m.reason := by
  have alike := @bound_verdict s number here span target arguments next
  rw [binding] at alike
  obtain ⟨held, bound, unfit⟩ := ok_of_map alike
  simp only [verdict, checked, Option.map_some] at unfit
  obtain ⟨found, misfit, _, reason⟩ := Template.misfit_of_verdict unfit
  exact ⟨held, found, bound, misfit, reason⟩

end Binding

theorem triple_statement (name : Origin → BlankNode) {here : Position} {span : Text.Span}
    {arguments env : Values Origin} {pattern : Pattern} (fresh : String → BlankNode)
    (body : Library.triple.body = .statement pattern)
    (binding : bind Library.triple arguments span (.written here) = .ok env) :
    Library.triple.bind (arguments.render name) span fresh = .ok (env.render name) ∧
      pattern.statement (env.render name) =
        (Fact.ofPattern pattern (evaluate env (.written here))).render name := by
  refine ⟨?_, ?_⟩
  · have named := render_bind name Library.triple arguments span (.written here)
    rw [binding] at named
    rw [← Template.bind_plain (by decide) (arguments.render name) span _ fresh]
    exact named.symm
  · cases body
    have each := fun index => render_evaluate name env (.written here) (.variable index)
    simp only [Fact.ofPattern, Fact.render, each]
    rfl

theorem perform_account {path : List Iri} {here : Position} {env : Values Origin}
    (calls : ∀ here atTop span target arguments next,
      Numbers number next (call s.library s.limit path here atTop span target arguments).numbered →
      Expansion.call s path atTop span target (arguments.render (Origin.name s.scope number)) next =
        (call s.library s.limit path here atTop span target arguments).render
          (Origin.name s.scope number) next)
    (k : Nat) (inner : Call) (next : Nat)
    (numbers : Numbers number next (perform s.library s.limit path here env k inner).numbered) :
    Expansion.perform s path (env.render (Origin.name s.scope number)) (number here) inner next =
      (perform s.library s.limit path here env k inner).render
        (Origin.name s.scope number) next := by
  unfold Expansion.perform
  unfold perform at numbers ⊢
  cases found : s.library.entry? inner.template with
  | none => rfl
  | some callee =>
    have named := render_rows (Origin.name s.scope number) inner callee.val env (.written here)
    simp only [found] at numbers ⊢
    simp only [Origin.name] at named
    rw [← named]
    cases made : rows inner callee.val (evaluate env (.written here)) with
    | error e => rfl
    | ok rows =>
      simp only [made] at numbers
      refine inOrder_inTurn (Values.render (Origin.name s.scope number)) ?_ rows 0 next numbers
      intro j row next counted
      exact calls _ _ _ _ row next counted

-- The induction is on the path. Where a call has a number of its own that number comes next, and
-- where it has none its names do not matter.
theorem call_account (texts : s.library.FromTexts) (path : List Iri) (here : Position)
    (atTop : Bool) (span : Text.Span) (target : s.library.Entry) (arguments : Values Origin)
    (next : Nat)
    (numbers : Numbers number next
      (call s.library s.limit path here atTop span target arguments).numbered) :
    Expansion.call s path atTop span target (arguments.render (Origin.name s.scope number)) next =
      (call s.library s.limit path here atTop span target arguments).render
        (Origin.name s.scope number) next := by
  induction path using Expansion.path_induction s.library generalizing
    here atTop span target arguments next with
  | step path ih =>
    have way := course s.library s.limit path here atTop span target arguments
    generalize call s.library s.limit path here atTop span target arguments = account
      at way numbers ⊢
    apply Expansion.call_of_course
    cases way with
    | unbound binding => exact .unbound (bound_of_unbound next binding)
    | skipped binding checked excused =>
      obtain ⟨held, found, bound, misfit, reason⟩ := bound_of_misfit next binding checked
      exact .skipped bound misfit (reason.trans excused.1) excused.2
    | @unfit env m binding checked faulty =>
      obtain ⟨rfl, _⟩ := numbers
      have misfit := checkValues_of_misfit (Origin.name s.scope number) checked
      exact .misfit (bound_of_number binding) misfit faulty
    | @statement env pattern binding checked body =>
      have same := texts.triple_of_statement target.property body
      rw [same] at binding body
      obtain ⟨bound, written⟩ := triple_statement (Origin.name s.scope number)
        (fun label => .ofCall label s.scope next) body binding
      rw [← same] at bound body
      have passed := checkValues_of_fit (Origin.name s.scope number) checked
      have answer : Expansion.Course s path atTop span target _ next _ :=
        .statement bound passed body
      rw [written] at answer
      exact answer
    | direct binding checked body =>
      obtain ⟨held, bound, passed⟩ := bound_of_fit next binding checked
      exact .direct bound passed body
    | deep binding checked body below =>
      obtain ⟨held, bound, passed⟩ := bound_of_fit next binding checked
      exact .deep bound passed body below
    | cyclic binding checked body above again =>
      obtain ⟨held, bound, passed⟩ := bound_of_fit next binding checked
      exact .cyclic bound passed body above again
    | @entered env calls binding checked body above fresh =>
      obtain ⟨rfl, inside⟩ := numbers
      have passed := checkValues_of_fit (Origin.name s.scope number) checked
      have answer : Expansion.Course s path atTop span target _ (number here) _ :=
        .entered (bound_of_number binding) passed body above fresh
      rw [render_entering, ← inOrder_inTurn id ?_ calls 0 _ inside]
      · rw [List.map_id]
        exact answer
      · exact perform_account (ih target.val target.property fresh)

def Origin.In (entered : List Position) : Origin → Prop
  | .given _ => True
  | .written call _ => call ∈ entered

theorem same_getElem_map {α β : Type} {f : α → β} {items : List α}
    (apart : ∀ {a b}, a ∈ items → b ∈ items → (f a = f b ↔ a = b)) (j k : Nat) :
    (items.map f)[j]? = (items.map f)[k]? ↔ items[j]? = items[k]? := by
  rw [List.getElem?_map, List.getElem?_map]
  cases left : items[j]? with
  | none => cases items[k]? <;> simp
  | some a =>
    cases right : items[k]? with
    | none => simp
    | some b =>
      simpa using apart (List.mem_of_getElem? left) (List.mem_of_getElem? right)

theorem name_inj {scope : Scope} {entered : List Position} {a b : Origin} (held : a.In entered) :
    a.name scope (entered.idxOf ·) = b.name scope (entered.idxOf ·) ↔ a = b := by
  refine ⟨?_, congrArg _⟩
  intro same
  cases a with
  | given label =>
    cases b with
    | given label' => rw [(BlankNode.ofInstance_inj same).1]
    | written call' label' => exact absurd same.symm (BlankNode.ofCall_ne_ofInstance _ _ _ _ _)
  | written call label =>
    cases b with
    | given label' => exact absurd same (BlankNode.ofCall_ne_ofInstance _ _ _ _ _)
    | written call' label' =>
      obtain ⟨rfl, _, number⟩ := BlankNode.ofCall_inj same
      rw [(List.idxOf_inj held).mp number]

theorem carries_name (scope : Scope) (number : Position → Nat) (node : Origin) :
    (node.name scope number).Carries scope := by
  cases node with
  | given label => exact BlankNode.carries_ofInstance label scope
  | written call label => exact BlankNode.carries_ofCall label scope _

theorem Fact.nodes_render (name : Origin → BlankNode) (fact : Fact Origin) :
    (fact.render name).nodes = fact.nodes.map name := by
  simp only [Statement.nodes, render, nodes, Value.nodes_render, List.map_append]

theorem Fact.nodes_within {P : Origin → Prop} {fact : Fact Origin}
    (each : ∀ v ∈ fact.values, v.Within P) : ∀ node ∈ fact.nodes, P node := by
  intro node member
  simp only [nodes, List.mem_append] at member
  rcases member with (subject | predicate) | object
  · exact each _ (by simp [values]) node subject
  · exact each _ (by simp [values]) node predicate
  · exact each _ (by simp [values]) node object

namespace Account

def statements (name : Origin → BlankNode) (a : Account) :
    Except ExpansionError (List Statement) :=
  match a.outcome with
  | .ok facts => .ok (facts.map (Fact.render name))
  | .error e => .error (e.render name)

theorem statements_of_render (name : Origin → BlankNode) (next : Nat) (a : Account) :
    (a.render name next).map Expansion.Produced.statements = a.statements name := by
  unfold render statements
  cases a.outcome <;> rfl

theorem nodes_of_statements {name : Origin → BlankNode} {a : Account}
    {statements : List Statement} (named : a.statements name = .ok statements) :
    statements.flatMap Statement.nodes = a.nodes.map name := by
  obtain ⟨numbered, outcome⟩ := a
  cases outcome with
  | error e => cases named
  | ok facts =>
    cases named
    simp only [nodes, Account.facts, List.flatMap_map, Fact.nodes_render, List.map_flatMap]

end Account

end Stottr.Naming

namespace Stottr.Library

open Naming

variable {lib : Library}

theorem account_before (limit : Option Nat) (i : Instance) :
    (lib.account limit i).numbered.Pairwise Position.Before := by
  unfold account
  split
  · exact .nil
  · exact numbered_before _ _ _ _ _ _

theorem account_nodes (texts : lib.FromTexts) (limit : Option Nat) (i : Instance) :
    ∀ node ∈ (lib.account limit i).nodes, node.In (lib.account limit i).numbered := by
  unfold account
  split
  · intro node member
    cases member
  · rename_i target found
    intro node member
    obtain ⟨fact, listed, inside⟩ := List.mem_flatMap.mp member
    refine Fact.nodes_within (facts_within texts _ _ _ _ _ _ ?_ ?_ fact listed) node inside
    · intro v passed
      obtain ⟨t, _, rfl⟩ := List.mem_map.mp passed
      exact Value.within_ofTerm (fun _ => trivial) t
    · intro p entered label
      exact entered

theorem callOf_account (texts : lib.FromTexts) (limit : Option Nat) (i : Instance) (scope : Scope)
    {target : lib.Entry} (found : lib.entry? i.template = some target) :
    let a := lib.account limit i
    lib.callOf limit i scope target = a.render (Origin.name scope (a.numbered.idxOf ·)) 0 := by
  intro a
  have distinct : a.numbered.Nodup := (account_before limit i).imp Position.Before.ne
  have known : a = call lib limit [] [] true i.span target
      (i.arguments.map (Value.ofTerm .given)) := by
    simp only [a, account, found]
  have counted := numbers_idxOf distinct
  have named := @call_account ⟨lib, scope, limit⟩ (a.numbered.idxOf ·) texts [] [] true i.span
    target (i.arguments.map (Value.ofTerm .given)) 0 (known ▸ counted)
  simp only [← known] at named
  rw [← named]
  unfold callOf
  simp only [Values.render, List.map_map, Function.comp_def, Value.render_ofTerm]
  rfl

theorem expand_account (texts : lib.FromTexts) (limit : Option Nat) (i : Instance) (scope : Scope) :
    let a := lib.account limit i
    lib.expand limit i scope = a.statements (Origin.name scope (a.numbered.idxOf ·)) := by
  intro a
  unfold expand
  cases found : lib.entry? i.template with
  | none => simp only [a, account, found, Account.fault, Account.statements, Failure.render]
  | some target =>
    rw [← Account.statements_of_render _ 0, ← callOf_account texts limit i scope found]
    rfl

-- The names are faithful: as a list, the nodes of the output are those of the ideal expansion
-- under names that keep them apart.
theorem expand_faithful (texts : lib.FromTexts) (limit : Option Nat) (i : Instance)
    (scope : Scope) :
    let a := lib.account limit i
    let name := Origin.name scope (a.numbered.idxOf ·)
    lib.expand limit i scope = a.statements name ∧
    a.numbered.Pairwise Position.Before ∧
    (∀ target r, lib.entry? i.template = some target → lib.callOf limit i scope target = .ok r →
      r.next = a.numbered.length) ∧
    ∀ statements, lib.expand limit i scope = .ok statements →
      let written := statements.flatMap Statement.nodes
      written = a.nodes.map name ∧
      ∀ j k : Nat, written[j]? = written[k]? ↔ a.nodes[j]? = a.nodes[k]? := by
  intro a name
  have same : lib.expand limit i scope = a.statements name := expand_account texts limit i scope
  refine ⟨same, account_before limit i, ?_, ?_⟩
  · intro target r found called
    rw [callOf_account texts limit i scope found] at called
    unfold Account.render at called
    split at called
    · cases called
      simp [a]
    · cases called
  · intro statements done written
    have nodes : written = a.nodes.map name := Account.nodes_of_statements (same ▸ done)
    refine ⟨nodes, ?_⟩
    rw [nodes]
    exact same_getElem_map fun held _ => name_inj (account_nodes texts limit i _ held)

def nesting : Library :=
  ofText ("@prefix ex: <http://e/> . ex:Inner[ ?x, ?y = _:b ] :: " ++
    "\x7b ottr:Triple(?x, ex:p, ?y) \x7d . ex:Outer[ List<ottr:IRI> ?l, ?z ] :: " ++
    "\x7b cross | ex:Inner(++?l), ottr:Triple(_:b, ex:p, ?z) \x7d .")

def nested : Instance :=
  ⟨⟨"http://e/Outer"⟩, [.list [.blank ⟨"b"⟩, .none, .iri ⟨"u:v"⟩], .blank ⟨"b"⟩], .nowhere⟩

-- The call for the absent member is left out, and has no number.
theorem expand_faithful_nesting :
    nesting.FromTexts ∧ (nesting.account none nested).numbered = [[], [(0, 0)], [(0, 2)]] ∧
      (nesting.account none nested).nodes = [.given "b", .written [(0, 0)] "b",
        .written [(0, 2)] "b", .written [] "b", .given "b"] ∧
      ∃ statements, nesting.expand none nested .first = .ok statements ∧
        statements.flatMap Statement.nodes =
          [⟨"b_0_i"⟩, ⟨"b_0_1"⟩, ⟨"b_0_2"⟩, ⟨"b_0_0"⟩, ⟨"b_0_i"⟩] := by
  have texts : nesting.FromTexts := .ofText _
  have computed : (nesting.account none nested).numbered = [[], [(0, 0)], [(0, 2)]] ∧
      (nesting.account none nested).nodes = [.given "b", .written [(0, 0)] "b",
        .written [(0, 2)] "b", .written [] "b", .given "b"] ∧
      (nesting.expand none nested .first).isOk = true := by decide +kernel
  obtain ⟨entered, nodes, succeeds⟩ := computed
  obtain ⟨statements, done⟩ := ok_of_isOk succeeds
  obtain ⟨_, _, _, faithful⟩ := expand_faithful texts none nested .first
  refine ⟨texts, entered, nodes, statements, done, ?_⟩
  have named := (faithful statements done).1
  rw [named, nodes, entered]
  decide +kernel

end Stottr.Library

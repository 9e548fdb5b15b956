import Stottr.Proofs.Expansion.InRange
import Stottr.Proofs.Library.Registration
import Stottr.Proofs.Naming.Earlier
import Stottr.Proofs.Naming.Labels

namespace Stottr

namespace Term

mutual

theorem nodes_relabel (fresh : String → BlankNode) (t : Term) :
    (t.relabel fresh).nodes = t.nodes.map fun node => fresh node.label := by
  cases t with
  | iri | blank | literal | none => rfl
  | list items => simp only [relabel, nodes, nodesAll_relabelAll]

theorem nodesAll_relabelAll (fresh : String → BlankNode) (ts : List Term) :
    nodesAll (relabelAll fresh ts) = (nodesAll ts).map fun node => fresh node.label := by
  cases ts with
  | nil => rfl
  | cons t ts =>
    simp only [relabelAll, nodesAll, nodes_relabel, nodesAll_relabelAll, List.map_append]

end

theorem mem_nodes_relabel {fresh : String → BlankNode} {t : Term} {node : BlankNode} :
    node ∈ (t.relabel fresh).nodes ↔ ∃ label, ⟨label⟩ ∈ t.nodes ∧ node = fresh label := by
  rw [nodes_relabel, List.mem_map]
  constructor
  · rintro ⟨written, inside, rfl⟩
    exact ⟨written.label, inside, rfl⟩
  · rintro ⟨label, inside, rfl⟩
    exact ⟨⟨label⟩, inside, rfl⟩

end Term

namespace Argument

mutual

theorem evaluate_nil (fresh : String → BlankNode) (a : Argument) :
    a.evaluate [] fresh = (a.evaluate [] BlankNode.mk).relabel fresh := by
  match a with
  | .concrete value =>
    have same : value.relabel BlankNode.mk = value := value.relabel_self fun _ _ => rfl
    rw [evaluate, evaluate, same]
  | .variable index => rfl
  | .list items => simp only [evaluate, Term.relabel, evaluateAll_nil fresh items]
  | .expand inner => exact evaluate_nil fresh inner

theorem evaluateAll_nil (fresh : String → BlankNode) (items : List Argument) :
    evaluateAll [] fresh items = Term.relabelAll fresh (evaluateAll [] BlankNode.mk items) := by
  cases items with
  | nil => rfl
  | cons a as =>
    simp only [evaluateAll, Term.relabelAll]
    rw [evaluate_nil fresh a, evaluateAll_nil fresh as]

end

end Argument

theorem Template.getElem?_fillAll (fresh : String → BlankNode) (ps : List Parameter)
    (given : List Term) (k : Nat) :
    (fillAll fresh ps given)[k]? = ps[k]?.map fun p => p.fill fresh given[k]? := by
  induction ps generalizing given k with
  | nil => rfl
  | cons p ps ih =>
    cases k with
    | zero => simp [fillAll, List.head?_eq_getElem?]
    | succ k => simp [fillAll, ih]

theorem Parameter.fill_default {p : Parameter} {value : Term} (held : p.default = some value)
    (fresh : String → BlankNode) {given : Option Term} (absent : given.getD .none = .none) :
    p.fill fresh given = value.relabel fresh := by
  cases given with
  | none => simp [fill, held]
  | some passed =>
    cases absent
    simp [fill, held]

namespace Expansion

variable (s : Setting)

-- The defaults that the call at hand is completed with, each with the value that its parameter is
-- bound to.
def defaults (m : Machine s.library) : List (Term × Term) :=
  match m.tasks with
  | .call _ span target arguments :: _ =>
    match bound s target arguments span m.next with
    | .error _ => []
    | .ok env => target.val.parameters.zipIdx.filterMap fun (p, k) =>
      if (arguments[k]?.getD .none).isNone then
        p.default.map fun value => (value, env.getD k .none)
      else none
  | _ => []

def entered? (m : Machine s.library) : Option (Nat × List Call) :=
  match advance s m with
  | .running later =>
    match later.tasks with
    | .body _ number calls :: _ =>
      if m.path.length < later.path.length then some (number, calls) else none
    | _ => none
  | _ => none

def DefaultNode (m : Machine s.library) (node : BlankNode) : Prop :=
  ∃ filled ∈ defaults s m, node ∈ filled.2.nodes

def DefaultLabel (m : Machine s.library) (label : String) : Prop :=
  ∃ filled ∈ defaults s m, ⟨label⟩ ∈ filled.1.nodes

-- What the arguments of the calls in the body that is entered hold, apart from their variables.
def BodyNode (m : Machine s.library) (node : BlankNode) : Prop :=
  ∃ body ∈ entered? s m, ∃ inner ∈ body.2, ∃ a ∈ inner.arguments,
    node ∈ (a.evaluate [] fun label => .ofCall label s.scope body.1).nodes

def BodyLabel (m : Machine s.library) (label : String) : Prop :=
  ∃ body ∈ entered? s m, ∃ inner ∈ body.2, ∃ a ∈ inner.arguments,
    ⟨label⟩ ∈ (a.evaluate [] BlankNode.mk).nodes

abbrev Before : Machine s.library → Machine s.library → Prop := Relation.TransGen (Moves s)

def Unentered (earlier later : Machine s.library) : Prop :=
  ∀ m, Reaches s earlier m → Before s m later → entered? s m = none

variable {s} {m m' m₁ m₂ : Machine s.library}

theorem moves_unique : Relator.RightUnique (Moves s) := by
  intro m one other moved moved'
  exact Progress.running.inj (moved.symm.trans moved')

theorem entered?_of_running (moved : Moves s m m') : entered? s m =
    match m'.tasks with
    | .body _ number calls :: _ =>
      if m.path.length < m'.path.length then some (number, calls) else none
    | _ => none := by
  have ran : advance s m = .running m' := moved
  simp only [entered?, ran]

theorem entered?_of_kept (moved : Moves s m m') (kept : m'.path.length ≤ m.path.length) :
    entered? s m = none := by
  rw [entered?_of_running moved]
  split
  · exact if_neg (Nat.not_lt_of_le kept)
  · rfl

-- A step enters a body with the next number, which is used up, or leaves that number as it is.
theorem next_of_moves (moved : Moves s m m') :
    (entered? s m = none ∧ m'.next = m.next) ∨
      ∃ calls, entered? s m = some (m.next, calls) ∧ m'.next = m.next + 1 := by
  cases step_of_moves moved with
  | top | skipped | statement | bodyDone | body | rowsDone | row =>
    exact .inl ⟨entered?_of_kept moved (Nat.le_refl _), rfl⟩
  | leave =>
    have kept : m.path.dropLast.length ≤ m.path.length := (List.dropLast_sublist _).length_le
    exact .inl ⟨entered?_of_kept moved kept, rfl⟩
  | @entered _ _ _ _ _ _ calls =>
    refine .inr ⟨calls, ?_, rfl⟩
    rw [entered?_of_running moved]
    simp

theorem number_of_entered {body : Nat × List Call} (enters : entered? s m = some body) :
    body.1 = m.next := by
  cases ran : advance s m with
  | finished | failed => simp [entered?, ran] at enters
  | running m' =>
    rcases next_of_moves ran with ⟨never, -⟩ | ⟨calls, same, -⟩
    · rw [never] at enters
      cases enters
    · rw [same] at enters
      cases enters
      rfl

theorem next_le_of_reaches (path : Reaches s m₁ m₂) : m₁.next ≤ m₂.next := by
  induction path with
  | refl => exact Nat.le_refl _
  | tail _ moved ih => rcases next_of_moves moved with ⟨-, same⟩ | ⟨-, -, grown⟩ <;> omega

theorem next_lt_of_before {body : Nat × List Call} (enters : entered? s m₁ = some body)
    (before : Before s m₁ m₂) : m₁.next < m₂.next := by
  obtain ⟨m, moved, path⟩ := Relation.TransGen.head'_iff.mp before
  have onwards := next_le_of_reaches path
  rcases next_of_moves moved with ⟨never, -⟩ | ⟨-, -, grown⟩
  · rw [never] at enters
    cases enters
  · omega

theorem unentered_iff (path : Reaches s m₁ m₂) : Unentered s m₁ m₂ ↔ m₁.next = m₂.next := by
  constructor
  · intro never
    induction path using Relation.ReflTransGen.head_induction_on with
    | refl => rfl
    | head moved path ih =>
      have first := never _ .refl (.head' moved path)
      have others := ih fun m reached before => never m (.head moved reached) before
      rcases next_of_moves moved with ⟨-, same⟩ | ⟨calls, enters, -⟩
      · exact same.symm.trans others
      · rw [first] at enters
        cases enters
  · intro same m reached before
    cases enters : entered? s m with
    | none => rfl
    | some body =>
      have upto := next_le_of_reaches reached
      have beyond := next_lt_of_before enters before
      omega

theorem before_of_reaches (path : Reaches s m₁ m₂) (distinct : m₁ ≠ m₂) : Before s m₁ m₂ :=
  (Relation.reflTransGen_iff_eq_or_transGen.mp path).resolve_left distinct.symm

theorem mem_defaults {filled : Term × Term} (member : filled ∈ defaults s m) :
    filled.2 = filled.1.relabel fun label => .ofCall label s.scope m.next := by
  unfold defaults at member
  split at member
  · rename_i span target arguments _ _
    split at member
    · cases member
    · rename_i env binding
      obtain ⟨⟨p, k⟩, listed, chosen⟩ := List.mem_filterMap.mp member
      dsimp only at chosen
      split at chosen
      · rename_i left
        obtain ⟨value, held, rfl⟩ := Option.map_eq_some_iff.mp chosen
        have parameter : target.val.parameters[k]? = some p := by
          simpa using List.mk_mem_zipIdx_iff_getElem?.mp listed
        have absent : arguments[k]?.getD .none = .none := by
          cases held : arguments[k]?.getD .none with
          | none => rfl
          | iri | blank | literal | list => simp [held, Term.isNone] at left
        rw [env_of_bound s binding, List.getD_eq_getElem?_getD, Template.getElem?_fillAll,
          parameter]
        exact Parameter.fill_default held _ absent
      · cases chosen
  · cases member

theorem defaultNode_iff {node : BlankNode} : DefaultNode s m node ↔
    ∃ label, DefaultLabel s m label ∧ node = .ofCall label s.scope m.next := by
  constructor
  · rintro ⟨filled, member, inside⟩
    rw [mem_defaults member] at inside
    obtain ⟨label, written, same⟩ := Term.mem_nodes_relabel.mp inside
    exact ⟨label, ⟨filled, member, written⟩, same⟩
  · rintro ⟨label, ⟨filled, member, written⟩, same⟩
    refine ⟨filled, member, ?_⟩
    rw [mem_defaults member]
    exact Term.mem_nodes_relabel.mpr ⟨label, written, same⟩

theorem bodyNode_iff {node : BlankNode} : BodyNode s m node ↔
    ∃ label, BodyLabel s m label ∧ node = .ofCall label s.scope m.next := by
  constructor
  · rintro ⟨body, enters, inner, member, a, listed, inside⟩
    rw [Argument.evaluate_nil] at inside
    obtain ⟨label, written, same⟩ := Term.mem_nodes_relabel.mp inside
    rw [number_of_entered enters] at same
    exact ⟨label, ⟨body, enters, inner, member, a, listed, written⟩, same⟩
  · rintro ⟨label, ⟨body, enters, inner, member, a, listed, written⟩, same⟩
    refine ⟨body, enters, inner, member, a, listed, ?_⟩
    rw [Argument.evaluate_nil, number_of_entered enters]
    exact Term.mem_nodes_relabel.mpr ⟨label, written, same⟩

theorem shared_iff {P Q : String → Prop} {scope : Scope} {number number' : Nat} :
    (∃ node, (∃ label, P label ∧ node = BlankNode.ofCall label scope number) ∧
      ∃ label, Q label ∧ node = BlankNode.ofCall label scope number') ↔
    number = number' ∧ ∃ label, P label ∧ Q label := by
  constructor
  · rintro ⟨_, ⟨label, held, rfl⟩, label', held', same⟩
    obtain ⟨rfl, -, numbers⟩ := BlankNode.ofCall_inj same
    exact ⟨numbers, label, held, held'⟩
  · rintro ⟨rfl, label, held, held'⟩
    exact ⟨_, ⟨label, held, rfl⟩, label, held', rfl⟩

-- Of two moments of an expansion one comes before the other. The defaults of two calls share a node
-- exactly if they share a label and no body is entered from the first call up to the second. With
-- that, a default also shares a node with the body that is entered next, but never with a body that
-- was entered before.
theorem defaults_shared_iff {i : Instance} (first : Reaches s (Machine.start s i) m₁)
    (second : Reaches s (Machine.start s i) m₂) (distinct : m₁ ≠ m₂) :
    (Before s m₁ m₂ ∨ Before s m₂ m₁) ∧ (Before s m₁ m₂ →
      ((∃ node, DefaultNode s m₁ node ∧ DefaultNode s m₂ node) ↔
        Unentered s m₁ m₂ ∧ ∃ label, DefaultLabel s m₁ label ∧ DefaultLabel s m₂ label) ∧
      ((∃ node, DefaultNode s m₁ node ∧ BodyNode s m₂ node) ↔
        Unentered s m₁ m₂ ∧ ∃ label, DefaultLabel s m₁ label ∧ BodyLabel s m₂ label) ∧
      ¬∃ node, BodyNode s m₁ node ∧ DefaultNode s m₂ node) := by
  refine ⟨?_, fun before => ?_⟩
  · rcases Relation.ReflTransGen.total_of_right_unique moves_unique first second with path | path
    · exact .inl (before_of_reaches path distinct)
    · exact .inr (before_of_reaches path distinct.symm)
  · simp only [unentered_iff before.to_reflTransGen, defaultNode_iff, bodyNode_iff]
    refine ⟨shared_iff, shared_iff, ?_⟩
    intro shared
    obtain ⟨same, label, ⟨body, enters, -⟩, -⟩ := shared_iff.mp shared
    have beyond := next_lt_of_before enters before
    omega

def sharing : List Library.Operation :=
  let subject : Parameter := ⟨"x", 0, .resource, false, false, none, .nowhere⟩
  let object : Parameter := ⟨"y", 1, .resource, false, false, some (.blank ⟨"d"⟩), .nowhere⟩
  let pattern : Pattern := ⟨.variable 0, .concrete (.iri ⟨"http://e/p"⟩), .variable 1⟩
  [.register ⟨⟨"http://e/D"⟩, [subject, object], .statement pattern, .nowhere⟩,
    .load .standard ("@prefix ex: <http://e/> .\n" ++
      "ex:Twice[ ?x ] :: \x7b ex:D(?x), ex:D(?x) \x7d .")]

def twice : Instance := ⟨⟨"http://e/Twice"⟩, [.iri ⟨"http://e/a"⟩], .nowhere⟩

def sharingSetting : Setting := ⟨Library.base.after sharing, .first, none⟩

theorem twice_moments : ∃ m₁ m₂, Reaches sharingSetting (Machine.start sharingSetting twice) m₁ ∧
    Reaches sharingSetting m₁ m₂ ∧ m₁ ≠ m₂ ∧
    defaults sharingSetting m₁ = [(.blank ⟨"d"⟩, .blank ⟨"d_0_1"⟩)] ∧
    defaults sharingSetting m₂ = [(.blank ⟨"d"⟩, .blank ⟨"d_0_1"⟩)] := by
  have computed : ((Machine.start sharingSetting twice).after? 4).bind (fun m₁ =>
      (m₁.after? 4).map fun m₂ => (m₁.out.length, defaults sharingSetting m₁, m₂.out.length,
        defaults sharingSetting m₂)) =
      some (0, [(.blank ⟨"d"⟩, .blank ⟨"d_0_1"⟩)], 1, [(.blank ⟨"d"⟩, .blank ⟨"d_0_1"⟩)]) := by
    decide +kernel
  obtain ⟨m₁, first, computed⟩ := Option.bind_eq_some_iff.mp computed
  obtain ⟨m₂, second, computed⟩ := Option.map_eq_some_iff.mp computed
  simp only [Prod.mk.injEq] at computed
  obtain ⟨before, filled, after, filled'⟩ := computed
  refine ⟨m₁, m₂, reaches_of_after? first, reaches_of_after? second, ?_, filled, filled'⟩
  rintro rfl
  rw [before] at after
  cases after

theorem defaults_shared_iff_twice :
    let s := sharingSetting
    let made : Statement := ⟨.iri ⟨"http://e/a"⟩, .iri ⟨"http://e/p"⟩, .blank ⟨"d_0_1"⟩⟩
    s.library.expand none twice .first = .ok [made, made] ∧
    ∃ m₁ m₂, Reaches s (Machine.start s twice) m₁ ∧ Reaches s (Machine.start s twice) m₂ ∧
      m₁ ≠ m₂ ∧ Before s m₁ m₂ ∧ DefaultNode s m₁ ⟨"d_0_1"⟩ ∧ DefaultNode s m₂ ⟨"d_0_1"⟩ ∧
      Unentered s m₁ m₂ := by
  intro s made
  have written : s.library.expand none twice .first = .ok [made, made] := by decide +kernel
  obtain ⟨m₁, m₂, first, path, distinct, filled, filled'⟩ := twice_moments
  have second := first.trans path
  have before := before_of_reaches path distinct
  have node : DefaultNode s m₁ ⟨"d_0_1"⟩ := ⟨_, filled ▸ List.mem_cons_self, List.mem_cons_self⟩
  have node' : DefaultNode s m₂ ⟨"d_0_1"⟩ := ⟨_, filled' ▸ List.mem_cons_self, List.mem_cons_self⟩
  have shared := ((defaults_shared_iff first second distinct).2 before).1.mp ⟨_, node, node'⟩
  exact ⟨written, m₁, m₂, first, second, distinct, before, node, node', shared.1⟩

-- Two calls that fill a parameter from a default need not bind it to different nodes.
theorem not_defaults_fresh :
    ¬∀ (history : List Library.Operation) (scope : Scope) (limit : Option Nat) (i : Instance),
      let s : Setting := ⟨Library.base.after history, scope, limit⟩
      ∀ m₁ m₂, Reaches s (Machine.start s i) m₁ → Reaches s (Machine.start s i) m₂ → m₁ ≠ m₂ →
        ∀ node, DefaultNode s m₁ node → ¬DefaultNode s m₂ node := by
  intro fresh
  obtain ⟨m₁, m₂, first, path, distinct, filled, filled'⟩ := twice_moments
  refine fresh sharing .first none twice m₁ m₂ first (first.trans path) distinct ⟨"d_0_1"⟩ ?_ ?_
  · exact ⟨_, filled ▸ List.mem_cons_self, List.mem_cons_self⟩
  · exact ⟨_, filled' ▸ List.mem_cons_self, List.mem_cons_self⟩

end Expansion

end Stottr

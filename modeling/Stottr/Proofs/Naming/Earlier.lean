import Stottr.Proofs.Expansion.Machine
import Stottr.Proofs.Library.Sources
import Stottr.Proofs.Naming.Rows

namespace Stottr

namespace Term

def Within (P : BlankNode → Prop) (t : Term) : Prop := ∀ node ∈ t.nodes, P node

mutual

theorem relabel_self {fresh : String → BlankNode} (t : Term)
    (same : t.Within fun node => fresh node.label = node) : t.relabel fresh = t := by
  cases t with
  | iri | literal | none => rfl
  | blank node => exact congrArg Term.blank (same node (by simp [nodes]))
  | list items => exact congrArg Term.list (relabelAll_self items same)

theorem relabelAll_self {fresh : String → BlankNode} (ts : List Term)
    (same : ∀ node ∈ nodesAll ts, fresh node.label = node) : relabelAll fresh ts = ts := by
  cases ts with
  | nil => rfl
  | cons t ts =>
    have head := relabel_self t fun node inside => same node (List.mem_append_left _ inside)
    have tail := relabelAll_self ts fun node inside => same node (List.mem_append_right _ inside)
    rw [relabelAll, head, tail]

end

end Term

namespace Naming

def ofTerms (ts : List Term) : Values BlankNode := ts.map (Value.ofTerm BlankNode.mk)

variable {P : BlankNode → Prop}

theorem render_ofTerms (ts : List Term) : (ofTerms ts).render id = ts := by
  unfold ofTerms Values.render
  rw [List.map_map]
  refine (List.map_congr_left ?_).trans (List.map_id ts)
  intro t _
  refine (Value.render_ofTerm id BlankNode.mk t).trans (t.relabel_self ?_)
  exact fun _ _ => rfl

theorem within_render {vs : Values BlankNode} :
    (∀ t ∈ vs.render id, t.Within P) ↔ ∀ v ∈ vs, v.Within P := by
  simp only [Values.render, List.forall_mem_map, Term.Within, Value.nodes_render, List.map_id,
    Value.Within]

theorem within_ofTerms {ts : List Term} (each : ∀ t ∈ ts, t.Within P) :
    ∀ v ∈ ofTerms ts, v.Within P := by
  rw [← within_render, render_ofTerms]
  exact each

end Naming

theorem Template.bind_within {P : BlankNode → Prop} {t : Template} {given : List Term}
    {span : Text.Span} {fresh : String → BlankNode} {env : Environment}
    (binding : t.bind given span fresh = .ok env) (passed : ∀ u ∈ given, u.Within P)
    (written : ∀ label, P (fresh label)) : ∀ u ∈ env, u.Within P := by
  have same := Naming.render_bind id t (Naming.ofTerms given) span fresh
  rw [Naming.render_ofTerms] at same
  obtain ⟨values, bound, rfl⟩ := ok_of_map (same.trans binding)
  exact Naming.within_render.mpr
    (Naming.within_bind (fun _ _ _ => written) bound (Naming.within_ofTerms passed))

theorem Expansion.rows_within {P : BlankNode → Prop} {inner : Call} {target : Template}
    {env : Environment} {fresh : String → BlankNode} {made : List (List Term)}
    (read : rows inner target (Argument.evaluate env fresh) = .ok made)
    (passed : ∀ u ∈ env, u.Within P) (written : ∀ label, P (fresh label)) :
    ∀ row ∈ made, ∀ u ∈ row, u.Within P := by
  have same := Naming.render_rows id inner target (Naming.ofTerms env) fresh
  rw [Naming.render_ofTerms] at same
  have read := same.trans read
  cases found : Naming.rows inner target (Naming.evaluate (Naming.ofTerms env) fresh) with
  | error e =>
    rw [found] at read
    cases read
  | ok rows =>
    rw [found] at read
    cases read
    have within := Naming.within_rows
      (Naming.within_evaluate (Naming.within_ofTerms passed) written) found
    intro row member
    obtain ⟨values, chosen, rfl⟩ := List.mem_map.mp member
    exact Naming.within_render.mpr (within values chosen)

-- The node is of the instance itself, or of a body with a smaller number.
def BlankNode.Earlier (scope : Scope) (next : Nat) (node : BlankNode) : Prop :=
  (∃ label, node = .ofInstance label scope) ∨
    ∃ label call, call < next ∧ node = .ofCall label scope call

theorem BlankNode.Earlier.mono {scope : Scope} {next later : Nat} {node : BlankNode}
    (earlier : node.Earlier scope next) (grown : next ≤ later) : node.Earlier scope later := by
  rcases earlier with given | ⟨label, call, before, same⟩
  · exact .inl given
  · exact .inr ⟨label, call, Nat.lt_of_lt_of_le before grown, same⟩

def Term.Earlier (scope : Scope) (next : Nat) (t : Term) : Prop :=
  t.Within fun node => node.Earlier scope next

theorem Term.Earlier.mono {scope : Scope} {next later : Nat} {t : Term}
    (earlier : t.Earlier scope next) (grown : next ≤ later) : t.Earlier scope later :=
  fun node inside => (earlier node inside).mono grown

mutual

theorem Term.earlier_relabel (scope : Scope) (next : Nat) (t : Term) :
    (t.relabel fun label => .ofInstance label scope).Earlier scope next := by
  cases t with
  | iri | literal | none => exact nofun
  | blank node =>
    intro named inside
    rw [List.mem_singleton.mp inside]
    exact .inl ⟨node.label, rfl⟩
  | list items => exact earlier_relabelAll scope next items

theorem Term.earlier_relabelAll (scope : Scope) (next : Nat) (ts : List Term) :
    ∀ node ∈ nodesAll (relabelAll (fun label => .ofInstance label scope) ts),
      node.Earlier scope next := by
  cases ts with
  | nil => exact nofun
  | cons t ts =>
    intro node inside
    rcases List.mem_append.mp inside with head | tail
    · exact earlier_relabel scope next t node head
    · exact earlier_relabelAll scope next ts node tail

end

namespace Expansion

def Task.Earlier {lib : Library} (scope : Scope) (next : Nat) : Task lib → Prop
  | .call _ _ _ arguments => ∀ t ∈ arguments, t.Earlier scope next
  | .body env number _ => number < next ∧ ∀ t ∈ env, t.Earlier scope next
  | .rows _ _ made => ∀ row ∈ made, ∀ t ∈ row, t.Earlier scope next
  | .top _ => True
  | .leave _ => True

theorem Task.Earlier.mono {lib : Library} {scope : Scope} {next later : Nat} {task : Task lib}
    (earlier : task.Earlier scope next) (grown : next ≤ later) : task.Earlier scope later := by
  cases task with
  | top | leave => trivial
  | call => exact fun t member => Term.Earlier.mono (earlier t member) grown
  | body =>
    obtain ⟨before, held⟩ := earlier
    exact ⟨Nat.lt_of_lt_of_le before grown, fun t member => (held t member).mono grown⟩
  | rows => exact fun row chosen t member => Term.Earlier.mono (earlier row chosen t member) grown

variable {s : Setting}

theorem moves_earlier {m later : Machine s.library}
    (held : ∀ task ∈ m.tasks, task.Earlier s.scope m.next) (moved : Moves s m later) :
    ∀ task ∈ later.tasks, task.Earlier s.scope later.next := by
  cases step_of_moves moved with
  | top tasks =>
    rw [tasks, List.forall_mem_cons] at held
    refine List.forall_mem_cons.mpr ⟨?_, held.2⟩
    intro t member
    obtain ⟨written, _, rfl⟩ := List.mem_map.mp member
    exact written.earlier_relabel s.scope m.next
  | skipped tasks | statement tasks | bodyDone tasks | rowsDone tasks | leave tasks =>
    rw [tasks, List.forall_mem_cons] at held
    exact held.2
  | entered tasks binding =>
    rw [tasks, List.forall_mem_cons] at held
    obtain ⟨passed, others⟩ := held
    have grown := Nat.le_succ m.next
    refine List.forall_mem_cons.mpr ⟨⟨Nat.lt_succ_self _, ?_⟩,
      List.forall_mem_cons.mpr ⟨trivial, fun task member => (others task member).mono grown⟩⟩
    refine Template.bind_within binding (fun t member => (passed t member).mono grown) ?_
    exact fun label => .inr ⟨label, m.next, Nat.lt_succ_self _, rfl⟩
  | body tasks found read =>
    rw [tasks, List.forall_mem_cons] at held
    obtain ⟨⟨before, passed⟩, others⟩ := held
    refine List.forall_mem_cons.mpr ⟨?_, List.forall_mem_cons.mpr ⟨⟨before, passed⟩, others⟩⟩
    exact rows_within read passed fun label => .inr ⟨label, _, before, rfl⟩
  | row tasks =>
    rw [tasks, List.forall_mem_cons] at held
    obtain ⟨made, others⟩ := held
    obtain ⟨row, behind⟩ := List.forall_mem_cons.mp made
    exact List.forall_mem_cons.mpr ⟨row, List.forall_mem_cons.mpr ⟨behind, others⟩⟩

theorem reaches_earlier {i : Instance} {m : Machine s.library}
    (path : Reaches s (Machine.start s i) m) :
    ∀ task ∈ m.tasks, task.Earlier s.scope m.next := by
  induction path with
  | refl => exact List.forall_mem_singleton.mpr trivial
  | tail _ moved ih => exact moves_earlier ih moved

end Expansion

end Stottr

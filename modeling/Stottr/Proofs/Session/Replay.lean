import Stottr.Proofs.Naming.Rescoped
import Stottr.Proofs.Session.Scopes

namespace Stottr

namespace Session

theorem take_eq_jobs (s : Session) (r : Run) :
    s.take r r.waiting.length =
      ((jobsFrom r.index s.next r.waiting).map s.perform, s.skipScopes r.waiting.length) := by
  obtain ⟨index, waiting⟩ := r
  induction waiting generalizing index s with
  | nil => rfl
  | cons i rest ih =>
    simp only [List.length_cons, take, advance, ih, jobsFrom, List.map_cons]
    rfl

theorem execute_eq_parallel (s : Session) (b : Batch) : s.execute b = s.executeParallel b :=
  s.take_eq_jobs b.run

theorem executeAll_eq_parallel (s : Session) (b : Batch) :
    s.executeAll b = s.executeParallel b := by
  unfold executeAll
  split
  · rfl
  · exact s.execute_eq_parallel b

def executions : List (Session → Batch → List Outcome × Session) :=
  [executeAll, execute, executeParallel]

theorem eq_parallel_of_mem {how : Session → Batch → List Outcome × Session}
    (member : how ∈ executions) : how = executeParallel := by
  funext s b
  simp only [executions, List.mem_cons, List.not_mem_nil, or_false] at member
  rcases member with rfl | rfl | rfl
  · exact s.executeAll_eq_parallel b
  · exact s.execute_eq_parallel b
  · rfl

-- The sessions differ in nothing but the scope that comes next.
def SameApart (s later : Session) : Prop := later = { s with next := later.next }

theorem SameApart.trans {s middle later : Session} (one : s.SameApart middle)
    (other : middle.SameApart later) : s.SameApart later := by
  unfold SameApart at *
  rw [other, one]

end Session

structure Outcome.Renames (o o' : Outcome) : Prop where
  index : o'.job.index = o.job.index
  target : o'.job.target = o.job.target
  result : o'.result = renamed (BlankNode.rescope o.job.scope o'.job.scope) o.result

namespace Session

theorem perform_renames {s later : Session} (texts : s.library.FromTexts)
    (same : s.SameApart later) {job job' : Job} (index : job'.index = job.index)
    (target : job'.target = job.target) : (s.perform job).Renames (later.perform job') := by
  refine ⟨index, target, ?_⟩
  rw [same]
  simp only [perform, target]
  exact Library.expand_rescope texts s.limit job.target job.scope job'.scope

theorem jobs_renames {s later : Session} (texts : s.library.FromTexts)
    (same : s.SameApart later) (index : Nat) (scope scope' : Scope) (instances : List Instance) :
    List.Forall₂ Outcome.Renames ((jobsFrom index scope instances).map s.perform)
      ((jobsFrom index scope' instances).map later.perform) := by
  induction instances generalizing index scope scope' with
  | nil => exact .nil
  | cons i rest ih => exact .cons (perform_renames texts same rfl rfl) (ih _ _ _)

theorem instantiate_of_sameApart {s later : Session} (same : s.SameApart later)
    (text source : String) : later.instantiate text source = s.instantiate text source := by
  rw [same]
  rfl

end Session

namespace Action

def isLoad : Action → Bool
  | .load _ _ => true
  | _ => false

end Action

namespace Life

theorem step_sameApart {life : Life} {action : Action} (reading : action.isLoad = false) :
    life.session.SameApart (life.step action).session := by
  cases action with
  | load text source => cases reading
  | instantiate text source =>
    simp only [step]
    split <;> rfl
  | execute batch =>
    simp only [step]
    split <;> rfl
  | advance run =>
    simp only [step]
    split
    · rfl
    · split
      · rfl
      · rename_i advanced
        unfold Session.advance at advanced
        split at advanced
        · cases advanced
        · cases advanced
          rfl
  | drop run => rfl
  | run batch =>
    simp only [step, Session.executeAll_eq_parallel]
    split <;> rfl
  | parallel batch =>
    simp only [step]
    split <;> rfl

theorem steps_sameApart {life : Life} {actions : List Action}
    (reading : ∀ a ∈ actions, a.isLoad = false) :
    life.session.SameApart (actions.foldl step life).session := by
  induction actions generalizing life with
  | nil => rfl
  | cons action rest ih =>
    obtain ⟨first, others⟩ := List.forall_mem_cons.mp reading
    exact (step_sameApart first).trans (ih others)

-- The scope is only a name: every node has it in its name, an expansion in another scope gives the
-- same with the other scope in its place, and so does a second execution of the same text.
theorem scopes_renamed :
    (∀ lib : Library, lib.FromTexts → ∀ limit i s t,
      (∀ node ∈ nodesOf (lib.expand limit i s), node.Carries s) ∧
      lib.expand limit i t = renamed (BlankNode.rescope s t) (lib.expand limit i s)) ∧
    ∀ settings actions text source batch,
      let life := after settings actions
      life.session.instantiate text source = .ok batch →
      ∀ how ∈ Session.executions, ∀ how' ∈ Session.executions, ∀ others : List Action,
        (∀ a ∈ others, a.isLoad = false) →
        let first := how life.session batch
        let again := (others.foldl step (life.produce first.1 first.2)).session
        again.instantiate text source = .ok batch ∧
        List.Forall₂ Outcome.Renames first.1 (how' again batch).1 := by
  refine ⟨?_, ?_⟩
  · intro lib texts limit i s t
    exact ⟨lib.expand_carries texts limit i s, lib.expand_rescope texts limit i s t⟩
  · intro settings actions text source batch life read how way how' way' others reading first again
    have texts : life.session.library.FromTexts := (after_sound settings actions).texts
    have same : life.session.SameApart again := by
      refine Session.SameApart.trans ?_ (steps_sameApart reading)
      simp only [first, Session.eq_parallel_of_mem way]
      rfl
    refine ⟨(Session.instantiate_of_sameApart same text source).trans read, ?_⟩
    simp only [first, Session.eq_parallel_of_mem way, Session.eq_parallel_of_mem way']
    exact Session.jobs_renames texts same 0 _ _ batch.instances

-- A label that looks like a name, and an instance that fails with a list of nodes.
def twice : String := "<http://e/A>(_:b_0_i) . <http://e/A>((_:b)) ."

def lists : Action :=
  .load ("@prefix ex: <http://e/> . " ++
    "ex:A[ ?x ] :: \x7b ottr:Triple(_:b, rdf:value, ?x) \x7d .") "lib.stottr"

theorem scopes_renamed_twice :
    let life := after ⟨Keyed.empty, false, none, false⟩ [lists]
    let others : List Action := [.instantiate twice "other.stottr", .execute 0, .advance 0]
    let i : Instance := ⟨⟨"http://e/A"⟩, [.blank ⟨"b"⟩], .nowhere⟩
    nodesOf (life.session.library.expand none i .first) = [⟨"b_0_0"⟩, ⟨"b_0_i"⟩] ∧
    (∀ node ∈ nodesOf (life.session.library.expand none i .first), node.Carries .first) ∧
    ∃ batch, life.session.instantiate twice "inst.stottr" = .ok batch ∧
      let first := life.session.executeAll batch
      let again := ((others.foldl step (life.produce first.1 first.2)).session.execute batch).1
      first.1.map (fun o => nodesOf o.result) = [[⟨"b_0_0"⟩, ⟨"b_0_i_0_i"⟩], [⟨"b_1_i"⟩]] ∧
      again.map (fun o => nodesOf o.result) = [[⟨"b_3_0"⟩, ⟨"b_0_i_3_i"⟩], [⟨"b_4_i"⟩]] ∧
      List.Forall₂ Outcome.Renames first.1 again := by
  intro life others i
  have computed : (life.session.instantiate twice "inst.stottr").map (fun batch =>
      let first := life.session.executeAll batch
      let again := ((others.foldl step (life.produce first.1 first.2)).session.execute batch).1
      (first.1.map (fun o => nodesOf o.result), again.map (fun o => nodesOf o.result))) =
      .ok ([[⟨"b_0_0"⟩, ⟨"b_0_i_0_i"⟩], [⟨"b_1_i"⟩]],
        [[⟨"b_3_0"⟩, ⟨"b_0_i_3_i"⟩], [⟨"b_4_i"⟩]]) := by decide +kernel
  obtain ⟨batch, read, nodes⟩ := ok_of_map computed
  injection nodes with one other
  obtain ⟨named, replayed⟩ := scopes_renamed
  have texts : life.session.library.FromTexts := (after_sound _ [lists]).texts
  refine ⟨by decide +kernel, (named _ texts none i .first .first).1, batch, read, one, other, ?_⟩
  exact (replayed _ [lists] twice _ batch read Session.executeAll (by simp [Session.executions])
    Session.execute (by simp [Session.executions]) others (by decide)).2

end Life

end Stottr

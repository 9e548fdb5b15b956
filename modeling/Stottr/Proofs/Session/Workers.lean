import Mathlib.Logic.Function.Iterate
import Stottr.Proofs.Expansion.Machine
import Stottr.Proofs.Session.Replay

namespace Stottr.Session

variable (s : Session)

def setting (scope : Scope) : Expansion.Setting := ⟨s.library, scope, s.limit⟩

inductive Stage where
  | waiting
  | busy (m : Expansion.Machine s.library)
  | done (result : Except ExpansionError (List Statement))

structure Worker where
  job : Job
  stage : Stage s

-- The workers in the order of their jobs, beside the scope that the session would give out next.
structure Pool where
  next : Scope
  workers : List (Worker s)

variable {s}

namespace Worker

def idle (job : Job) : Worker s := ⟨job, .waiting⟩

def finished (job : Job) : Worker s := ⟨job, .done (s.perform job).result⟩

-- One step of the expansion. A job that is done is not begun again.
def move (w : Worker s) : Worker s :=
  let setting := s.setting w.job.scope
  match w.stage with
  | .waiting => { w with stage := .busy (.start setting w.job.target) }
  | .busy m =>
    match Expansion.advance setting m with
    | .running later => { w with stage := .busy later }
    | .finished => { w with stage := .done (.ok m.out) }
    | .failed e => { w with stage := .done (.error e) }
  | .done _ => w

def outcome? (w : Worker s) : Option Outcome :=
  match w.stage with
  | .done result => some ⟨w.job, result⟩
  | _ => none

end Worker

namespace Pool

def move (pool : Pool s) (position : Nat) : Pool s :=
  { pool with workers := pool.workers.modify position Worker.move }

def after (pool : Pool s) (schedule : List Nat) : Pool s := schedule.foldl move pool

def collect (pool : Pool s) : Option (List Outcome) :=
  if pool.workers.all fun w => w.outcome?.isSome then some (pool.workers.filterMap Worker.outcome?)
  else none

end Pool

variable (s) in
-- The scopes are drawn in the order of the batch before any worker begins.
def employ (b : Batch) : Pool s :=
  ⟨(s.skipScopes b.instances.length).next, (s.jobs b).map .idle⟩

namespace Worker

theorem move_finished (job : Job) (count : Nat) :
    move^[count] (finished job : Worker s) = finished job :=
  Function.iterate_fixed rfl count

theorem exists_moves {job : Job} {m last : Expansion.Machine s.library}
    (path : Expansion.Reaches (s.setting job.scope) m last) :
    ∃ count, move^[count] (⟨job, .busy m⟩ : Worker s) = ⟨job, .busy last⟩ := by
  induction path with
  | refl => exact ⟨0, rfl⟩
  | @tail middle last _ moved ih =>
    obtain ⟨count, reached⟩ := ih
    refine ⟨count + 1, ?_⟩
    have advanced : Expansion.advance (s.setting job.scope) middle = .running last := moved
    rw [Function.iterate_succ_apply', reached]
    simp only [move, advanced]

theorem exists_finish (job : Job) :
    ∃ count, move^[count] (idle job : Worker s) = finished job := by
  have ends := Expansion.start_ends (s := s.setting job.scope) job.target
  have expanded : s.library.expand s.limit job.target job.scope = (s.perform job).result := rfl
  have begins : move (idle job : Worker s) =
      ⟨job, .busy (.start (s.setting job.scope) job.target)⟩ := rfl
  simp only [setting] at ends
  rw [expanded] at ends
  cases result : (s.perform job).result with
  | ok statements =>
    rw [result] at ends
    obtain ⟨next, path⟩ := ends
    obtain ⟨count, reached⟩ := exists_moves path
    refine ⟨count + 2, ?_⟩
    rw [Function.iterate_succ_apply', Function.iterate_succ_apply, begins, finished, result]
    exact (congrArg move reached).trans rfl
  | error e =>
    rw [result] at ends
    obtain ⟨last, path, failed⟩ := ends
    obtain ⟨count, reached⟩ := exists_moves path
    refine ⟨count + 2, ?_⟩
    rw [Function.iterate_succ_apply', Function.iterate_succ_apply, begins, finished, result]
    refine (congrArg move reached).trans ?_
    have advanced : Expansion.advance (s.setting job.scope) last = .failed e := failed
    simp only [move, advanced]

theorem finished_of_outcome {job : Job} {count : Nat}
    (done : ((move^[count] (idle job : Worker s)).outcome?).isSome = true) :
    move^[count] (idle job : Worker s) = finished job := by
  obtain ⟨enough, reached⟩ := exists_finish (s := s) job
  have fixed : move (move^[count] (idle job : Worker s)) = move^[count] (idle job) := by
    generalize move^[count] (idle job : Worker s) = w at done ⊢
    obtain ⟨job, stage⟩ := w
    cases stage with
    | waiting | busy => cases done
    | done result => rfl
  calc move^[count] (idle job : Worker s)
      = move^[enough] (move^[count] (idle job)) := (Function.iterate_fixed fixed enough).symm
    _ = move^[count] (move^[enough] (idle job)) :=
        Function.Commute.iterate_iterate_self move enough count _
    _ = finished job := by rw [reached, move_finished]

theorem exists_enough (jobs : List Job) : ∃ enough, ∀ job ∈ jobs, ∀ count, enough ≤ count →
    move^[count] (idle job : Worker s) = finished job := by
  induction jobs with
  | nil => exact ⟨0, nofun⟩
  | cons first rest ih =>
    obtain ⟨own, reached⟩ := exists_finish (s := s) first
    obtain ⟨others, rest⟩ := ih
    refine ⟨max own others, ?_⟩
    intro job member count large
    rcases List.mem_cons.mp member with rfl | later
    · obtain ⟨more, rfl⟩ := Nat.exists_eq_add_of_le (Nat.le_trans (Nat.le_max_left _ _) large)
      rw [Nat.add_comm, Function.iterate_add_apply, reached, move_finished]
    · exact rest job later count (Nat.le_trans (Nat.le_max_right _ _) large)

end Worker

namespace Pool

theorem after_next (pool : Pool s) (schedule : List Nat) : (pool.after schedule).next = pool.next := by
  induction schedule generalizing pool with
  | nil => rfl
  | cons position rest ih => exact ih (pool.move position)

theorem after_workers (pool : Pool s) (schedule : List Nat) (k : Nat) :
    (pool.after schedule).workers[k]? =
      pool.workers[k]?.map (Worker.move^[schedule.count k]) := by
  induction schedule generalizing pool with
  | nil => simp [after]
  | cons position rest ih =>
    refine (ih (pool.move position)).trans ?_
    by_cases same : position = k
    · subst same
      simp [move, Function.comp_def]
    · simp [move, same]

theorem collect_finished {pool : Pool s} {jobs : List Job}
    (finished : pool.workers = jobs.map .finished) : pool.collect = some (jobs.map s.perform) := by
  have outcome : ∀ job, (Worker.finished job : Worker s).outcome? = some (s.perform job) :=
    fun _ => rfl
  simp [collect, finished, List.filterMap_map, Function.comp_def, outcome]

theorem workers_of_moved {workers : List (Worker s)} {jobs : List Job} {schedule : List Nat}
    (moved : ∀ k, workers[k]? =
      ((jobs.map .idle)[k]?).map (Worker.move (s := s)^[schedule.count k]))
    (each : ∀ k job, jobs[k]? = some job →
      Worker.move^[schedule.count k] (.idle job : Worker s) = .finished job) :
    workers = jobs.map .finished := by
  refine List.ext_getElem? fun k => ?_
  rw [moved, List.getElem?_map, List.getElem?_map]
  cases here : jobs[k]? with
  | none => rfl
  | some job => exact congrArg some (each k job here)

theorem outcomes_of_collect {jobs : List Job} {next : Scope} {schedule : List Nat}
    {outcomes : List Outcome}
    (collected : ((⟨next, jobs.map .idle⟩ : Pool s).after schedule).collect = some outcomes) :
    outcomes = jobs.map s.perform := by
  have moved := after_workers (⟨next, jobs.map .idle⟩ : Pool s) schedule
  have all : ∀ w ∈ ((⟨next, jobs.map .idle⟩ : Pool s).after schedule).workers,
      w.outcome?.isSome = true := by
    unfold collect at collected
    split at collected
    · rename_i every
      exact List.all_eq_true.mp every
    · cases collected
  have finished := workers_of_moved moved ?_
  · rw [collect_finished finished] at collected
    exact (Option.some.inj collected).symm
  · intro k job here
    refine Worker.finished_of_outcome (all _ (List.mem_of_getElem? (i := k) ?_))
    rw [moved, List.getElem?_map, here]
    rfl

theorem collect_of_enough (jobs : List Job) (next : Scope) : ∃ enough, ∀ schedule : List Nat,
    (∀ k < jobs.length, enough ≤ schedule.count k) →
    ((⟨next, jobs.map .idle⟩ : Pool s).after schedule).collect = some (jobs.map s.perform) := by
  obtain ⟨enough, settles⟩ := Worker.exists_enough (s := s) jobs
  refine ⟨enough, fun schedule fair => collect_finished (workers_of_moved
    (after_workers _ schedule) fun k job here => ?_)⟩
  obtain ⟨inside, rfl⟩ := List.getElem?_eq_some_iff.mp here
  exact settles _ (List.getElem_mem inside) _ (fair k inside)

end Pool

theorem getElem?_jobsFrom (index : Nat) (scope : Scope) (instances : List Instance) (k : Nat) :
    (jobsFrom index scope instances)[k]? =
      instances[k]?.map fun i => ⟨index + k, i, scope.skip k⟩ := by
  induction instances generalizing index scope k with
  | nil => rfl
  | cons i rest ih =>
    cases k with
    | zero => rfl
    | succ k =>
      simp only [jobsFrom, List.getElem?_cons_succ, ih, Nat.add_assoc, Nat.add_comm 1]
      rfl

-- Driven for some items only, a run has come to the first of its outcomes and drawn their scopes.
theorem take_eq_take (s : Session) (r : Run) (count : Nat) :
    s.take r count = (((jobsFrom r.index s.next r.waiting).map s.perform).take count,
      s.skipScopes (min count r.waiting.length)) := by
  obtain ⟨index, waiting⟩ := r
  induction count generalizing index waiting s with
  | zero => simp [take, skipScopes, Scope.skip]
  | succ count ih =>
    cases waiting with
    | nil => simp [take, advance, jobsFrom, skipScopes, Scope.skip]
    | cons i rest =>
      simp only [take, advance, ih, jobsFrom, List.map_cons, List.take_succ_cons, List.length_cons,
        Nat.add_min_add_right]
      rfl

-- The outcomes of a batch are the same one after the other, all together, and by workers that take
-- their steps in any order; every order in which each worker is given enough steps comes to them.
theorem outcomes_of_any_order (s : Session) (b : Batch) :
    (∀ schedule, ((s.employ b).after schedule).next = (s.execute b).2.next ∧
      ∀ outcomes, ((s.employ b).after schedule).collect = some outcomes →
        outcomes = (s.execute b).1) ∧
    (∃ enough, ∀ schedule : List Nat, (∀ k < b.instances.length, enough ≤ schedule.count k) →
      ((s.employ b).after schedule).collect = some (s.execute b).1) ∧
    s.executeParallel b = s.execute b ∧ s.executeAll b = s.execute b ∧
    (∀ k, (s.execute b).1[k]? = b.instances[k]?.map fun i => s.perform ⟨k, i, s.next.skip k⟩) ∧
    (∀ count, s.take b.run count =
      ((s.execute b).1.take count, s.skipScopes (min count b.instances.length))) ∧
    (s.execute b).2 = s.skipScopes b.instances.length ∧
    ∀ count, (s.skipScopes count).next.number = s.next.number + UInt64.ofNat count := by
  have all := s.execute_eq_parallel b
  have outcomes : (s.execute b).1 = (s.jobs b).map s.perform := congrArg Prod.fst all
  have later : (s.execute b).2 = s.skipScopes b.instances.length := congrArg Prod.snd all
  have length : (s.jobs b).length = b.instances.length := by
    simpa [jobs] using congrArg List.length (scopes_jobsFrom 0 s.next b.instances)
  refine ⟨?_, ?_, all.symm, (s.executeAll_eq_parallel b).trans all.symm, ?_, ?_, later, ?_⟩
  · intro schedule
    refine ⟨(Pool.after_next _ schedule).trans (congrArg Session.next later).symm, ?_⟩
    intro made collected
    rw [outcomes]
    exact Pool.outcomes_of_collect collected
  · rw [outcomes, ← length]
    exact Pool.collect_of_enough (s.jobs b) _
  · intro k
    rw [outcomes, List.getElem?_map, jobs, getElem?_jobsFrom, Option.map_map, Nat.zero_add]
    rfl
  · intro count
    rw [outcomes]
    exact s.take_eq_take b.run count
  · exact s.next.number_skip

-- The last of three instances fails before the others begin, and the second is done before the
-- first, with a step of the one after a step of the other. One worker at a time, from the last on,
-- comes to the same.
theorem outcomes_of_any_order_overtaking :
    let s := (start ⟨Keyed.empty, false, none, false⟩).load ("@prefix ex: <http://e/> . " ++
      "ex:A[ ?x ] :: \x7b ottr:Triple(_:b, rdf:value, ?x), ottr:Triple(?x, rdf:value, _:b) \x7d .")
      "lib.stottr"
    let i : Instance := ⟨⟨"http://e/A"⟩, [.blank ⟨"b"⟩], .nowhere⟩
    let b : Batch := ⟨"inst.stottr", [i, i, ⟨⟨"http://e/B"⟩, [], .nowhere⟩]⟩
    let pool := (s.employ b).after ([2, 2, 1] ++ (List.range 27).map (· % 2))
    ∃ outcomes, pool.collect = some outcomes ∧ outcomes = (s.execute b).1 ∧
      outcomes.map Outcome.nodes = [[⟨"b_0_0"⟩, ⟨"b_0_i"⟩, ⟨"b_0_i"⟩, ⟨"b_0_0"⟩],
        [⟨"b_1_0"⟩, ⟨"b_1_i"⟩, ⟨"b_1_i"⟩, ⟨"b_1_0"⟩], []] ∧ pool.next.number = 3 ∧
      ∃ enough, ((s.employ b).after (List.replicate enough 2 ++ List.replicate enough 0 ++
        List.replicate enough 1)).collect = some outcomes := by
  intro s i b pool
  have computed : pool.collect.map (List.map Outcome.nodes) =
      some [[⟨"b_0_0"⟩, ⟨"b_0_i"⟩, ⟨"b_0_i"⟩, ⟨"b_0_0"⟩],
        [⟨"b_1_0"⟩, ⟨"b_1_i"⟩, ⟨"b_1_i"⟩, ⟨"b_1_0"⟩], []] := by decide +kernel
  obtain ⟨outcomes, collected, nodes⟩ := Option.map_eq_some_iff.mp computed
  obtain ⟨next, same⟩ := (outcomes_of_any_order s b).1 ([2, 2, 1] ++ (List.range 27).map (· % 2))
  obtain ⟨enough, fair⟩ := (outcomes_of_any_order s b).2.1
  refine ⟨outcomes, collected, same outcomes collected, nodes, ?_, enough, ?_⟩
  · exact (congrArg Scope.number next).trans (by decide +kernel)
  · rw [same outcomes collected]
    refine fair _ fun k inside => ?_
    have three : k = 0 ∨ k = 1 ∨ k = 2 := by
      have : k < 3 := inside
      omega
    rcases three with rfl | rfl | rfl <;> simp [List.count_replicate]

end Stottr.Session

import Mathlib.Data.List.Nodup
import Stottr.Proofs.Naming.Faithful
import Stottr.Session

namespace Stottr

namespace Scope

theorem take_add (s : Scope) (m n : Nat) : s.take (m + n) = s.take m ++ (s.skip m).take n := by
  induction m generalizing s with
  | zero => simp [take, skip]
  | succ m ih =>
    rw [Nat.add_right_comm]
    simp only [take, skip, ih, List.cons_append]

theorem skip_add (s : Scope) (m n : Nat) : s.skip (m + n) = (s.skip m).skip n := by
  induction m generalizing s with
  | zero => simp [skip]
  | succ m ih =>
    rw [Nat.add_right_comm]
    simp only [skip, ih]

theorem number_skip (s : Scope) (count : Nat) :
    (s.skip count).number = s.number + UInt64.ofNat count := by
  induction count generalizing s with
  | zero => simp [skip]
  | succ count ih =>
    simp only [skip, ih, next, UInt64.ofNat_add]
    rw [UInt64.add_assoc, UInt64.add_comm 1]
    rfl

theorem take_eq_map (s : Scope) (count : Nat) : s.take count = (List.range count).map s.skip := by
  induction count generalizing s with
  | zero => rfl
  | succ count ih =>
    rw [take, ih, List.range_succ_eq_map, List.map_cons, List.map_map]
    rfl

-- The counter comes back to a scope only after all others.
theorem nodup_take {count : Nat} (few : count ≤ UInt64.size) (s : Scope) : (s.take count).Nodup := by
  rw [take_eq_map]
  refine List.Nodup.map_on ?_ List.nodup_range
  intro m inside n inside' same
  have number := congrArg Scope.number same
  rw [number_skip, number_skip] at number
  have equal := congrArg UInt64.toNat ((UInt64.add_right_inj s.number).mp number)
  rw [List.mem_range] at inside inside'
  rw [UInt64.toNat_ofNat_of_lt' (by omega), UInt64.toNat_ofNat_of_lt' (by omega)] at equal
  exact equal

end Scope

def Outcome.nodes (o : Outcome) : List BlankNode := o.statements.flatMap Statement.nodes

namespace Session

theorem start_texts (settings : Settings) : (start settings).library.FromTexts := by
  unfold start
  dsimp only
  split
  · exact .standard .base
  · exact .base

theorem perform_carries {s : Session} (texts : s.library.FromTexts) (job : Job) :
    ∀ node ∈ (s.perform job).nodes, node.Carries job.scope := by
  intro node member
  have same := s.library.expand_account texts s.limit job.target job.scope
  unfold Outcome.nodes Outcome.statements perform at member
  dsimp only at member
  split at member
  · rename_i statements done
    rw [Naming.Account.nodes_of_statements (same.symm.trans done)] at member
    obtain ⟨origin, _, rfl⟩ := List.mem_map.mp member
    exact Naming.carries_name _ _ origin
  · cases member

-- Outcomes that a session comes to one after the other, in the scopes that come next.
structure Draws (s : Session) (outcomes : List Outcome) (later : Session) : Prop where
  library : later.library = s.library
  next : later.next = s.next.skip outcomes.length
  scopes : outcomes.map (fun o => o.job.scope) = s.next.take outcomes.length
  performed : ∀ o ∈ outcomes, o = s.perform o.job

namespace Draws

theorem none (s : Session) : s.Draws [] s := ⟨rfl, rfl, rfl, by simp⟩

theorem append {s middle later : Session} {first second : List Outcome}
    (one : s.Draws first middle) (other : middle.Draws second later)
    (limit : middle.limit = s.limit) : s.Draws (first ++ second) later := by
  refine ⟨other.library.trans one.library, ?_, ?_, ?_⟩
  · rw [other.next, one.next, List.length_append, Scope.skip_add]
  · rw [List.map_append, one.scopes, other.scopes, one.next, List.length_append, Scope.take_add]
  · intro o member
    rcases List.mem_append.mp member with early | late
    · exact one.performed o early
    · rw [other.performed o late]
      simp only [perform, one.library, limit]

end Draws

theorem draws_advance {s later : Session} {r after : Run} {o : Outcome}
    (advanced : s.advance r = some (o, after, later)) :
    s.Draws [o] later ∧ later.limit = s.limit := by
  unfold advance at advanced
  split at advanced
  · cases advanced
  · cases advanced
    refine ⟨⟨rfl, rfl, rfl, ?_⟩, rfl⟩
    intro o member
    rw [List.mem_singleton.mp member]
    rfl

theorem draws_take (s : Session) (r : Run) (count : Nat) :
    s.Draws (s.take r count).1 (s.take r count).2 := by
  induction count generalizing s r with
  | zero => exact .none s
  | succ count ih =>
    unfold take
    split
    · exact .none s
    · rename_i o after later advanced
      obtain ⟨one, limit⟩ := draws_advance advanced
      exact one.append (ih later after) limit

theorem scopes_jobsFrom (index : Nat) (scope : Scope) (instances : List Instance) :
    (jobsFrom index scope instances).map Job.scope = scope.take instances.length := by
  induction instances generalizing index scope with
  | nil => rfl
  | cons i rest ih => simp only [jobsFrom, List.map_cons, List.length_cons, Scope.take, ih]

theorem draws_executeParallel (s : Session) (b : Batch) :
    s.Draws (s.executeParallel b).1 (s.executeParallel b).2 := by
  have scopes := scopes_jobsFrom 0 s.next b.instances
  have length := congrArg List.length scopes
  rw [List.length_map, Scope.length_take] at length
  refine ⟨rfl, ?_, ?_, ?_⟩
  · simp only [executeParallel, skipScopes, jobs, List.length_map, length]
  · simp only [executeParallel, jobs, List.map_map, List.length_map, length]
    exact scopes
  · intro o member
    obtain ⟨job, _, rfl⟩ := List.mem_map.mp member
    rfl

theorem draws_executeAll (s : Session) (b : Batch) :
    s.Draws (s.executeAll b).1 (s.executeAll b).2 := by
  unfold executeAll
  split
  · exact s.draws_executeParallel b
  · exact s.draws_take b.run b.instances.length

end Session

-- A session together with the batches that were read, the runs that are under way, and everything
-- that has come out so far.
structure Life where
  session : Session
  batches : List Batch
  runs : List Run
  outcomes : List Outcome

-- What is done with batches and runs names them by their positions; a position where there is
-- none changes nothing. A run that is dropped keeps the scopes that it has drawn.
inductive Action where
  | load (text source : String)
  | instantiate (text source : String)
  | execute (batch : Nat)
  | advance (run : Nat)
  | drop (run : Nat)
  | run (batch : Nat)
  | parallel (batch : Nat)

namespace Life

def start (settings : Settings) : Life := ⟨.start settings, [], [], []⟩

def produce (life : Life) (made : List Outcome) (later : Session) : Life :=
  { life with session := later, outcomes := life.outcomes ++ made }

def step (life : Life) : Action → Life
  | .load text source => { life with session := life.session.load text source }
  | .instantiate text source =>
    match life.session.instantiate text source with
    | .ok batch => { life with batches := life.batches ++ [batch] }
    | .error _ => life
  | .execute batch =>
    match life.batches[batch]? with
    | some batch => { life with runs := life.runs ++ [batch.run] }
    | none => life
  | .advance run =>
    match life.runs[run]? with
    | none => life
    | some waiting =>
      match life.session.advance waiting with
      | none => life
      | some (outcome, after, later) =>
        { life.produce [outcome] later with runs := life.runs.set run after }
  | .drop run => { life with runs := life.runs.eraseIdx run }
  | .run batch =>
    match life.batches[batch]? with
    | some batch =>
      let made := life.session.executeAll batch
      life.produce made.1 made.2
    | none => life
  | .parallel batch =>
    match life.batches[batch]? with
    | some batch =>
      let made := life.session.executeParallel batch
      life.produce made.1 made.2
    | none => life

def after (settings : Settings) (actions : List Action) : Life :=
  actions.foldl step (start settings)

structure Sound (life : Life) : Prop where
  texts : life.session.library.FromTexts
  next : life.session.next = Scope.first.skip life.outcomes.length
  scopes : life.outcomes.map (fun o => o.job.scope) = Scope.first.take life.outcomes.length
  carried : ∀ o ∈ life.outcomes, ∀ node ∈ o.nodes, node.Carries o.job.scope

theorem start_sound (settings : Settings) : (start settings).Sound := by
  refine ⟨Session.start_texts settings, rfl, rfl, ?_⟩
  intro o member
  cases member

theorem produce_sound {life : Life} (sound : life.Sound) {made : List Outcome} {later : Session}
    (draws : life.session.Draws made later) : (life.produce made later).Sound := by
  obtain ⟨texts, next, scopes, carried⟩ := sound
  refine ⟨?_, ?_, ?_, ?_⟩
  · simp only [produce, draws.library, texts]
  · simp only [produce, draws.next, next, List.length_append, Scope.skip_add]
  · simp only [produce, List.map_append, scopes, draws.scopes, next, List.length_append,
      Scope.take_add]
  · intro o member
    rcases List.mem_append.mp member with old | new
    · exact carried o old
    · rw [draws.performed o new]
      exact Session.perform_carries texts o.job

theorem step_sound {life : Life} (sound : life.Sound) (action : Action) :
    (life.step action).Sound := by
  cases action with
  | load text source =>
    exact ⟨.load sound.texts _ text, sound.next, sound.scopes, sound.carried⟩
  | instantiate text source =>
    simp only [step]
    split
    · exact ⟨sound.texts, sound.next, sound.scopes, sound.carried⟩
    · exact sound
  | execute batch =>
    simp only [step]
    split
    · exact ⟨sound.texts, sound.next, sound.scopes, sound.carried⟩
    · exact sound
  | advance run =>
    simp only [step]
    split
    · exact sound
    · split
      · exact sound
      · rename_i outcome after later advanced
        have grown := produce_sound sound (Session.draws_advance advanced).1
        exact ⟨grown.texts, grown.next, grown.scopes, grown.carried⟩
  | drop run => exact ⟨sound.texts, sound.next, sound.scopes, sound.carried⟩
  | run batch =>
    simp only [step]
    split
    · exact produce_sound sound (life.session.draws_executeAll _)
    · exact sound
  | parallel batch =>
    simp only [step]
    split
    · exact produce_sound sound (life.session.draws_executeParallel _)
    · exact sound

theorem after_sound (settings : Settings) (actions : List Action) :
    (after settings actions).Sound := by
  have run : ∀ life : Life, life.Sound → (actions.foldl step life).Sound := by
    induction actions with
    | nil => exact fun _ sound => sound
    | cons action rest ih => exact fun life sound => ih (life.step action) (step_sound sound action)
  exact run (start settings) (start_sound settings)

-- No two outcomes share a scope or a node, as long as the scopes do not start again.
theorem outcomes_apart (settings : Settings) (actions : List Action)
    (few : (after settings actions).outcomes.length ≤ UInt64.size) :
    (after settings actions).outcomes.Pairwise fun o o' =>
      o.job.scope ≠ o'.job.scope ∧ ∀ node ∈ o.nodes, node ∉ o'.nodes := by
  have sound := after_sound settings actions
  have distinct := Scope.first.nodup_take few
  rw [← sound.scopes] at distinct
  refine (List.pairwise_map.mp distinct).imp_of_mem ?_
  intro o o' member member' apart
  refine ⟨apart, ?_⟩
  intro node inside inside'
  have one := sound.carried o member node inside
  have other := sound.carried o' member' node inside'
  exact apart (one.unique other)

theorem outcomes_apart_lookalikes :
    let life := after ⟨Keyed.empty, false, none, false⟩
      [.instantiate "ottr:Triple(_:b_0_0, rdf:type, _:x_3_i) ." "text", .execute 0, .execute 0,
        .advance 1, .advance 0, .drop 1, .parallel 0]
    life.outcomes.map Outcome.nodes = [[⟨"b_0_0_0_i"⟩, ⟨"x_3_i_0_i"⟩],
        [⟨"b_0_0_1_i"⟩, ⟨"x_3_i_1_i"⟩], [⟨"b_0_0_2_i"⟩, ⟨"x_3_i_2_i"⟩]] ∧
      life.outcomes.Pairwise fun o o' =>
        o.job.scope ≠ o'.job.scope ∧ ∀ node ∈ o.nodes, node ∉ o'.nodes := by
  intro life
  have nodes : life.outcomes.map Outcome.nodes = [[⟨"b_0_0_0_i"⟩, ⟨"x_3_i_0_i"⟩],
      [⟨"b_0_0_1_i"⟩, ⟨"x_3_i_1_i"⟩], [⟨"b_0_0_2_i"⟩, ⟨"x_3_i_2_i"⟩]] := by decide +kernel
  have three := congrArg List.length nodes
  simp only [List.length_map, List.length_cons, List.length_nil] at three
  have few : life.outcomes.length ≤ UInt64.size := by
    rw [three]
    decide
  exact ⟨nodes, outcomes_apart _ _ few⟩

end Life

end Stottr

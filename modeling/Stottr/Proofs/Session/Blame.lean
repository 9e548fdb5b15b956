import Stottr.Proofs.Document.Spans
import Stottr.Proofs.Expansion.Blame
import Stottr.Proofs.Library.Growth
import Stottr.Proofs.Session.Scopes

namespace Stottr

def Text.Place.Inside (place : Place) (text : List Char) (span : Span) : Prop :=
  ∃ front lead later behind, Token.Stands text span front (lead ++ later) behind ∧
    Position.mk place.offset place.line place.column = Position.start.after (front ++ lead)

theorem Text.Span.place_inside {text front spelled behind : List Char} {span : Span}
    (stands : Token.Stands text span front spelled behind) : span.place.Inside text span := by
  refine ⟨front, [], spelled, behind, stands, ?_⟩
  rw [stands.span_eq, List.append_nil]
  rfl

theorem Text.Place.Inside.offset_le {place : Place} {text : List Char} {span : Span}
    (inside : place.Inside text span) : place.offset ≤ span.stop := by
  obtain ⟨front, lead, later, behind, stands, there⟩ := inside
  rw [stands.span_eq, ← List.append_assoc, Position.after_append, ← there]
  exact Position.offset_le_after ⟨place.offset, place.line, place.column⟩ later

namespace Outcome

theorem diagnostic_placed {o : Outcome} {e : ExpansionError} {source : String} {d : Diagnostic}
    (failed : o.result = .error e) (placed : 0 < e.span.line)
    (reported : o.diagnostic source = some d) :
    d.place = some (e.span.place.inSource source) := by
  unfold diagnostic at reported
  rw [failed] at reported
  cases reported
  simp only [ExpansionError.diagnostic, placed, if_true, Diagnostic.placed, Diagnostic.inSource,
    Option.getD_some]

-- The place of a diagnostic: at the instance in its text, or at a call in some template once the
-- body of a template has been entered.
def Points (o : Outcome) (lib : Library) (limit : Option Nat) (text source : String) : Prop :=
  ∀ d, o.diagnostic source = some d → ∃ place, d.place = some place ∧ place.source = some source ∧
    (¬lib.Enters limit o.job.target o.job.scope →
      place.Inside text.toList o.job.target.span) ∧
    (lib.Enters limit o.job.target o.job.scope →
      ∃ inner, lib.Makes inner ∧ place = inner.span.place.inSource source)

theorem points {o : Outcome} {lib : Library} (texts : lib.FromTexts) {limit : Option Nat}
    {ns : Namespaces} {text : String} {instances : List Instance}
    (read : (Document.instances ns text).outcome = .ok instances)
    (member : o.job.target ∈ instances)
    (performed : o.result = lib.expand limit o.job.target o.job.scope) (source : String) :
    o.Points lib limit text source := by
  intro d reported
  obtain ⟨front, spelled, behind, stands⟩ := Document.instances_stand read _ member
  cases result : o.result with
  | ok statements =>
    unfold diagnostic at reported
    rw [result] at reported
    cases reported
  | error e =>
    obtain ⟨above, below⟩ := Library.expand_span (performed.symm.trans result)
    have placed : 0 < e.span.line := by
      by_cases entered : lib.Enters limit o.job.target o.job.scope
      · obtain ⟨inner, ⟨t, held, made⟩, span⟩ := below entered
        rw [span]
        exact texts.calls_placed t held inner made
      · rw [above entered]
        exact stands.line_pos
    refine ⟨_, diagnostic_placed result placed reported, rfl, ?_, ?_⟩
    · intro outside
      rw [above outside]
      exact Text.Span.place_inside stands
    · intro entered
      obtain ⟨inner, made, span⟩ := below entered
      exact ⟨inner, made, by rw [span]⟩

end Outcome

namespace Session

theorem targets_jobsFrom (index : Nat) (scope : Scope) (instances : List Instance) :
    (jobsFrom index scope instances).map Job.target = instances := by
  induction instances generalizing index scope with
  | nil => rfl
  | cons i rest ih => simp only [jobsFrom, List.map_cons, ih]

structure Yields (s : Session) (instances : List Instance) (outcomes : List Outcome)
    (later : Session) : Prop where
  draws : s.Draws outcomes later
  limit : later.limit = s.limit
  targets : ∀ o ∈ outcomes, o.job.target ∈ instances

theorem yields_advance {s later : Session} {r after : Run} {o : Outcome}
    (advanced : s.advance r = some (o, after, later)) :
    s.Yields r.waiting [o] later ∧ after.waiting ⊆ r.waiting := by
  obtain ⟨draws, limit⟩ := draws_advance advanced
  unfold advance at advanced
  split at advanced
  · cases advanced
  · rename_i i rest waiting
    cases advanced
    rw [waiting]
    refine ⟨⟨draws, limit, ?_⟩, List.subset_cons_self i rest⟩
    intro o member
    rw [List.mem_singleton.mp member]
    exact List.mem_cons_self

theorem yields_take (s : Session) (r : Run) (count : Nat) :
    s.Yields r.waiting (s.take r count).1 (s.take r count).2 := by
  refine ⟨draws_take s r count, ?_, ?_⟩
  · induction count generalizing s r with
    | zero => rfl
    | succ count ih =>
      unfold take
      split
      · rfl
      · rename_i o after later advanced
        exact (ih later after).trans (yields_advance advanced).1.limit
  · induction count generalizing s r with
    | zero => exact nofun
    | succ count ih =>
      unfold take
      split
      · exact nofun
      · rename_i o after later advanced
        obtain ⟨one, waiting⟩ := yields_advance advanced
        intro o' member
        rcases List.mem_cons.mp member with rfl | member
        · exact one.targets _ List.mem_cons_self
        · exact waiting (ih later after o' member)

theorem yields_executeParallel (s : Session) (b : Batch) :
    s.Yields b.instances (s.executeParallel b).1 (s.executeParallel b).2 := by
  refine ⟨s.draws_executeParallel b, rfl, ?_⟩
  intro o member
  obtain ⟨job, listed, rfl⟩ := List.mem_map.mp member
  rw [← targets_jobsFrom 0 s.next b.instances]
  exact List.mem_map_of_mem listed

theorem yields_executeAll (s : Session) (b : Batch) :
    s.Yields b.instances (s.executeAll b).1 (s.executeAll b).2 := by
  unfold executeAll
  split
  · exact s.yields_executeParallel b
  · exact s.yields_take b.run b.instances.length

theorem instantiate_reads {s : Session} {text source : String} {batch : Batch}
    (accepted : s.instantiate text source = .ok batch) :
    (Document.instances s.namespaces text).outcome = .ok batch.instances ∧
      batch.source = source := by
  unfold instantiate at accepted
  split at accepted
  · cases accepted
  · split at accepted
    · rename_i instances read
      cases accepted
      exact ⟨read, rfl⟩
    · cases accepted

end Session

namespace Life

def Given (actions : List Action) (text source : String) (instances : List Instance) : Prop :=
  .instantiate text source ∈ actions ∧ ∃ ns, (Document.instances ns text).outcome = .ok instances

-- Where an outcome came from: an instance of some text, and what the library held at the time.
def Came (settings : Settings) (actions : List Action) (lib : Library) (o : Outcome) : Prop :=
  ∃ (text source : String) (instances : List Instance) (earlier : Library),
    Given actions text source instances ∧ o.job.target ∈ instances ∧
    earlier.FromTexts ∧ earlier.Within lib ∧
    o.result = earlier.expand settings.maxDepth o.job.target o.job.scope

structure Traced (settings : Settings) (actions : List Action) (life : Life) : Prop where
  texts : life.session.library.FromTexts
  limit : life.session.limit = settings.maxDepth
  batches : ∀ b ∈ life.batches, ∃ text, Given actions text b.source b.instances
  runs : ∀ r ∈ life.runs, ∃ b ∈ life.batches, r.waiting ⊆ b.instances
  outcomes : ∀ o ∈ life.outcomes, Came settings actions life.session.library o

section Steps

variable {settings : Settings} {actions : List Action} {life : Life}

theorem Given.mono {more : List Action} {text source : String} {instances : List Instance}
    (given : Given actions text source instances) (within : actions ⊆ more) :
    Given more text source instances := ⟨within given.1, given.2⟩

theorem Came.mono {more : List Action} {lib grown : Library} {o : Outcome}
    (came : Came settings actions lib o) (within : actions ⊆ more) (larger : lib.Within grown) :
    Came settings more grown o := by
  obtain ⟨text, source, instances, earlier, given, member, texts, held, performed⟩ := came
  exact ⟨text, source, instances, earlier, given.mono within, member, texts, held.trans larger,
    performed⟩

theorem Traced.mono {more : List Action} (traced : life.Traced settings actions)
    (within : actions ⊆ more) : life.Traced settings more := by
  obtain ⟨texts, limit, batches, runs, outcomes⟩ := traced
  refine ⟨texts, limit, ?_, runs, fun o member => (outcomes o member).mono within (.refl _)⟩
  intro b member
  obtain ⟨text, given⟩ := batches b member
  exact ⟨text, given.mono within⟩

theorem Traced.produce (traced : life.Traced settings actions) {instances : List Instance}
    {made : List Outcome} {later : Session} (yields : life.session.Yields instances made later)
    {b : Batch} (member : b ∈ life.batches) (within : instances ⊆ b.instances) :
    (life.produce made later).Traced settings actions := by
  obtain ⟨texts, limit, batches, runs, outcomes⟩ := traced
  obtain ⟨draws, same, targets⟩ := yields
  refine ⟨?_, same.trans limit, batches, runs, ?_⟩
  · rw [Life.produce, draws.library]
    exact texts
  · intro o produced
    rw [Life.produce, draws.library]
    rcases List.mem_append.mp produced with old | new
    · exact outcomes o old
    · obtain ⟨text, given⟩ := batches b member
      refine ⟨text, b.source, b.instances, life.session.library, given,
        within (targets o new), texts, .refl _, ?_⟩
      rw [draws.performed o new, ← limit]
      rfl

theorem step_traced (traced : life.Traced settings actions) (action : Action) :
    (life.step action).Traced settings (actions ++ [action]) := by
  have kept := traced.mono (List.subset_append_left actions [action])
  cases action with
  | load text source =>
    have grown := Library.within_load life.session.library life.session.namespaces text
    exact ⟨.load kept.texts _ text, kept.limit, kept.batches, kept.runs,
      fun o member => (kept.outcomes o member).mono (List.Subset.refl _) grown⟩
  | instantiate text source =>
    simp only [step]
    split
    · rename_i batch accepted
      obtain ⟨read, rfl⟩ := Session.instantiate_reads accepted
      refine ⟨kept.texts, kept.limit, ?_, ?_, kept.outcomes⟩
      · intro b member
        rcases List.mem_append.mp member with old | new
        · exact kept.batches b old
        · rw [List.mem_singleton.mp new]
          exact ⟨text, List.mem_append_right actions List.mem_cons_self, _, read⟩
      · intro r member
        obtain ⟨b, held, within⟩ := kept.runs r member
        exact ⟨b, List.mem_append_left _ held, within⟩
    · exact kept
  | execute batch =>
    simp only [step]
    split
    · rename_i b found
      refine ⟨kept.texts, kept.limit, kept.batches, ?_, kept.outcomes⟩
      intro r member
      rcases List.mem_append.mp member with old | new
      · exact kept.runs r old
      · rw [List.mem_singleton.mp new]
        exact ⟨b, List.mem_of_getElem? found, List.Subset.refl _⟩
    · exact kept
  | advance run =>
    simp only [step]
    split
    · exact kept
    · rename_i waiting found
      split
      · exact kept
      · rename_i outcome after later advanced
        obtain ⟨yields, fewer⟩ := Session.yields_advance advanced
        obtain ⟨b, member, within⟩ := kept.runs waiting (List.mem_of_getElem? found)
        have grown := kept.produce yields member within
        refine ⟨grown.texts, grown.limit, grown.batches, ?_, grown.outcomes⟩
        intro r listed
        rcases List.mem_or_eq_of_mem_set listed with old | rfl
        · exact kept.runs r old
        · exact ⟨b, member, List.Subset.trans fewer within⟩
  | drop run =>
    exact ⟨kept.texts, kept.limit, kept.batches,
      fun r member => kept.runs r (List.mem_of_mem_eraseIdx member), kept.outcomes⟩
  | run batch =>
    simp only [step]
    split
    · rename_i b found
      exact kept.produce (life.session.yields_executeAll b) (List.mem_of_getElem? found)
        (List.Subset.refl _)
    · exact kept
  | parallel batch =>
    simp only [step]
    split
    · rename_i b found
      exact kept.produce (life.session.yields_executeParallel b) (List.mem_of_getElem? found)
        (List.Subset.refl _)
    · exact kept

theorem start_traced (settings : Settings) : (start settings).Traced settings [] :=
  ⟨Session.start_texts settings, rfl, nofun, nofun, nofun⟩

theorem after_traced (settings : Settings) (actions : List Action) :
    (after settings actions).Traced settings actions := by
  have run : ∀ done life, life.Traced settings done →
      (actions.foldl step life).Traced settings (done ++ actions) := by
    induction actions with
    | nil =>
      intro done life traced
      rwa [List.append_nil]
    | cons action rest ih =>
      intro done life traced
      have later := ih (done ++ [action]) (life.step action) (step_traced traced action)
      rwa [List.append_assoc] at later
  exact run [] (start settings) (start_traced settings)

end Steps

-- Whatever is reported about an outcome names the text that its instance was read from. The place
-- is in the instance as long as the body of no template has been entered, and at a call of a
-- template afterwards.
theorem diagnostics_placed (settings : Settings) (actions : List Action) :
    ∀ o ∈ (after settings actions).outcomes,
      ∃ (text source : String) (instances : List Instance) (lib : Library),
        Given actions text source instances ∧ o.job.target ∈ instances ∧
        lib.Within (after settings actions).session.library ∧
        o.result = lib.expand settings.maxDepth o.job.target o.job.scope ∧
        o.Points lib settings.maxDepth text source := by
  intro o member
  obtain ⟨text, source, instances, lib, given, listed, texts, within, performed⟩ :=
    (after_traced settings actions).outcomes o member
  obtain ⟨_, ns, read⟩ := id given
  exact ⟨text, source, instances, lib, given, listed, within, performed,
    Outcome.points texts read listed performed source⟩

theorem diagnostics_placed_unknown :
    let settings : Settings := ⟨Keyed.empty, false, none, false⟩
    let actions : List Action := [.instantiate "<http://e/A>(1) ." "inst.stottr", .run 0]
    ∃ o ∈ (after settings actions).outcomes,
      o.result = .error ⟨.unknownTemplate ⟨"http://e/A"⟩, ⟨0, 17, 1, 1⟩⟩ ∧
      ∃ (text source : String) (instances : List Instance) (lib : Library),
        Given actions text source instances ∧ o.job.target ∈ instances ∧
        lib.Within (after settings actions).session.library ∧
        o.result = lib.expand settings.maxDepth o.job.target o.job.scope ∧
        o.Points lib settings.maxDepth text source := by
  intro settings actions
  have results : (after settings actions).outcomes.map Outcome.result =
      [.error ⟨.unknownTemplate ⟨"http://e/A"⟩, ⟨0, 17, 1, 1⟩⟩] := by decide +kernel
  obtain ⟨o, member, result⟩ : ∃ o ∈ (after settings actions).outcomes,
      o.result = .error ⟨.unknownTemplate ⟨"http://e/A"⟩, ⟨0, 17, 1, 1⟩⟩ :=
    List.mem_map.mp (results ▸ List.mem_cons_self)
  exact ⟨o, member, result, diagnostics_placed settings actions o member⟩

-- A call in a template of one text, reported as a place in another one, which is shorter.
theorem diagnostic_misplaced :
    let life := after ⟨Keyed.empty, false, none, false⟩
      [.load "@prefix ex: <http://e/> .\nex:A[ ?x ] :: \x7b ex:B(?x) \x7d ." "lib.stottr",
        .instantiate "<http://e/A>(<http://e/a>) ." "inst.stottr", .run 0]
    ∃ o ∈ life.outcomes, ∃ d place, o.diagnostic "inst.stottr" = some d ∧ d.place = some place ∧
      place.source = some "inst.stottr" ∧
      ¬place.Inside "<http://e/A>(<http://e/a>) .".toList o.job.target.span := by
  intro life
  have reports : life.outcomes.map (fun o =>
      (o.job.target.span, (o.diagnostic "inst.stottr").bind Diagnostic.place)) =
      [(⟨0, 28, 1, 1⟩, some ⟨2, 17, 42, some "inst.stottr"⟩)] := by decide +kernel
  obtain ⟨o, member, report⟩ : ∃ o ∈ life.outcomes,
      (o.job.target.span, (o.diagnostic "inst.stottr").bind Diagnostic.place) =
        (⟨0, 28, 1, 1⟩, some ⟨2, 17, 42, some "inst.stottr"⟩) :=
    List.mem_map.mp (reports ▸ List.mem_cons_self)
  obtain ⟨span, there⟩ := Prod.mk.inj report
  obtain ⟨d, reported, place⟩ := Option.bind_eq_some_iff.mp there
  refine ⟨o, member, d, _, reported, place, rfl, ?_⟩
  intro inside
  have bound := inside.offset_le
  rw [span] at bound
  exact absurd bound (by decide)

end Life

end Stottr

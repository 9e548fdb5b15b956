import Mathlib.Algebra.GroupWithZero.Nat
import Stottr.Proofs.Library.Registration
import Stottr.Proofs.Session.Replay

namespace Stottr

theorem Document.errors_of_read {α : Type} {item : Item α} {ns : Namespaces} {text : String}
    {errors : List SyntaxError} (refused : (read item ns text).outcome = .error errors) :
    errors ≠ [] := by
  unfold read at refused
  split at refused
  · cases refused
    exact List.cons_ne_nil _ _
  · unfold Reading.ofDocument at refused
    split at refused
    · cases refused
    · rename_i some
      cases refused
      exact fun none => some (List.map_eq_nil_iff.mp none)

namespace LoadError

-- A text that does not read is as many faults as it has syntax errors.
def count : LoadError → Nat
  | .redefinition _ _ => 1
  | .malformed errors => errors.length

theorem countP_diagnostics (e : LoadError) (source : String) :
    (e.diagnostics source).countP Diagnostic.isError = e.count := by
  cases e with
  | redefinition template span => rfl
  | malformed errors =>
    refine (List.countP_eq_length.mpr ?_).trans (List.length_map _)
    intro d member
    obtain ⟨e, _, rfl⟩ := List.mem_map.mp member
    rfl

end LoadError

namespace Library

def newcomers (lib : Library) (operation : Operation) : List Template :=
  match operation.batch with
  | .ok ts => lib.firsts ts
  | .error _ => []

theorem perform_newcomers (lib : Library) (operation : Operation) :
    (lib.perform operation).library.items.Perm (lib.items ++ lib.newcomers operation) ∧
      (lib.perform operation).accepted = (lib.newcomers operation).length := by
  rw [perform_settles]
  unfold newcomers
  cases operation.batch with
  | ok ts =>
    obtain ⟨items, accepted, _⟩ := lib.registerAll_takes ts
    exact ⟨items, accepted⟩
  | error errors => exact ⟨by simp [settle], rfl⟩

theorem load_count_pos (lib : Library) (ns : Namespaces) (text : String) :
    ∀ e ∈ (lib.load ns text).errors, 0 < e.count := by
  rw [load_settles]
  cases read : offered ns text with
  | error errors =>
    intro e member
    rw [List.mem_singleton.mp member]
    exact List.length_pos_iff.mpr (Document.errors_of_read read)
  | ok ts =>
    intro e member
    rw [settle, (lib.registerAll_takes ts).errors] at member
    obtain ⟨t, _, rfl⟩ := List.mem_map.mp member
    exact Nat.one_pos

end Library

namespace Session

def reading (s : Session) (text : String) : Library.Load := s.library.load s.namespaces text

-- How many syntax errors and redefinitions are met in a text.
def faults (s : Session) (text : String) : Nat := ((s.reading text).errors.map LoadError.count).sum

theorem faults_pos {s : Session} {text : String} :
    0 < s.faults text ↔ (s.reading text).errors ≠ [] := by
  have each := s.library.load_count_pos s.namespaces text
  unfold faults
  cases errors : (s.reading text).errors with
  | nil => simp
  | cons e rest =>
    have first := each e (errors ▸ List.mem_cons_self)
    simp only [List.map_cons, List.sum_cons, ne_eq, reduceCtorEq, not_false_eq_true, iff_true]
    omega

theorem errorCount_load (s : Session) (text source : String) :
    (s.load text source).errorCount = s.errorCount + s.faults text := by
  have counted : ∀ errors : List LoadError,
      (errors.flatMap (LoadError.diagnostics source)).countP Diagnostic.isError =
        (errors.map LoadError.count).sum := by
    intro errors
    induction errors with
    | nil => rfl
    | cons e rest ih =>
      rw [List.flatMap_cons, List.countP_append, ih, e.countP_diagnostics]
      rfl
  simp only [errorCount, load, List.countP_append, counted]
  rfl

theorem hasErrors_iff {s : Session} : s.hasErrors = true ↔ 0 < s.errorCount := by
  simp [hasErrors, errorCount, List.countP_pos_iff]

theorem size_load (s : Session) (text source : String) :
    (s.load text source).library.size = s.library.size + (s.reading text).accepted :=
  s.library.perform_size (.load s.namespaces text)

theorem growth_load (s : Session) (text source : String) :
    s.growth (s.load text source) = (s.reading text).accepted := by
  unfold growth
  rw [size_load]
  omega

end Session

namespace Life

def returned (life : Life) : Action → Nat
  | .load text source => life.session.growth (life.session.load text source)
  | _ => 0

def faults (life : Life) : Action → Nat
  | .load text _ => life.session.faults text
  | _ => 0

-- What the actions of a history come to together, each measured where it is taken.
def tally (measure : Life → Action → Nat) (life : Life) : List Action → Nat
  | [] => 0
  | action :: rest => measure life action + tally measure (life.step action) rest

variable {measure : Life → Action → Nat} {quantity : Session → Nat}

theorem steps_tally
    (each : ∀ life action,
      quantity (life.step action).session = quantity life.session + measure life action)
    (life : Life) (actions : List Action) :
    quantity (actions.foldl step life).session =
      quantity life.session + life.tally measure actions := by
  induction actions generalizing life with
  | nil => rfl
  | cons action rest ih =>
    rw [List.foldl_cons, ih, each, tally, Nat.add_assoc]

theorem tally_append (life : Life) (front back : List Action) :
    life.tally measure (front ++ back) =
      life.tally measure front + (front.foldl step life).tally measure back := by
  induction front generalizing life with
  | nil => simp [tally]
  | cons action rest ih =>
    rw [List.cons_append, tally, ih, tally, List.foldl_cons, Nat.add_assoc]

theorem tally_pos (life : Life) (actions : List Action) :
    0 < life.tally measure actions ↔
      ∃ front action back, actions = front ++ action :: back ∧
        0 < measure (front.foldl step life) action := by
  constructor
  · intro positive
    induction actions generalizing life with
    | nil => exact absurd positive (Nat.lt_irrefl 0)
    | cons action rest ih =>
      by_cases here : 0 < measure life action
      · exact ⟨[], action, rest, rfl, here⟩
      · rw [tally, Nat.eq_zero_of_not_pos here, Nat.zero_add] at positive
        obtain ⟨front, later, back, same, there⟩ := ih _ positive
        exact ⟨action :: front, later, back, by rw [same]; rfl, there⟩
  · rintro ⟨front, action, back, rfl, positive⟩
    rw [tally_append, tally]
    omega

theorem step_errorCount (life : Life) (action : Action) :
    (life.step action).session.errorCount = life.session.errorCount + life.faults action := by
  cases action with
  | load text source => exact life.session.errorCount_load text source
  | _ =>
    rw [step_sameApart rfl]
    rfl

theorem step_size (life : Life) (action : Action) :
    (life.step action).session.library.size =
      life.session.library.size + life.returned action := by
  cases action with
  | load text source =>
    rw [returned, Session.growth_load]
    exact life.session.size_load text source
  | _ =>
    rw [step_sameApart rfl]
    rfl

theorem errorCount_after (settings : Settings) (actions : List Action) :
    (after settings actions).session.errorCount = (start settings).tally faults actions := by
  have total := steps_tally step_errorCount (start settings) actions
  have clean : (start settings).session.errorCount = 0 := rfl
  rwa [clean, Nat.zero_add] at total

theorem after_append (settings : Settings) (earlier later : List Action) :
    after settings (earlier ++ later) = later.foldl step (after settings earlier) :=
  List.foldl_append

theorem faults_pos {life : Life} {action : Action} :
    0 < life.faults action ↔
      ∃ text source, action = .load text source ∧ (life.session.reading text).errors ≠ [] := by
  cases action with
  | load text source =>
    refine Session.faults_pos.trans ⟨fun met => ⟨text, source, rfl, met⟩, ?_⟩
    rintro ⟨text', source', same, met⟩
    cases same
    exact met
  | _ => simp [faults]

-- A load gives back what it added, also when it records faults. Faults are never forgotten: from
-- the first of them on every text of instances is refused with the number of all faults so far,
-- and without any a text is refused for its own errors alone.
theorem faults_refuse (settings : Settings) (earlier later : List Action) :
    let life := after settings earlier
    let now := later.foldl step life
    (∀ text source,
      let s := life.session
      let loaded := s.load text source
      let new := s.library.newcomers (.load s.namespaces text)
      loaded.library.items.Perm (s.library.items ++ new) ∧ s.growth loaded = new.length ∧
        loaded.library.size = s.library.size + s.growth loaded) ∧
    now.session.library.size = life.session.library.size + life.tally returned later ∧
    (life.session.hasErrors = true ↔
      ∃ front text source back, earlier = front ++ .load text source :: back ∧
        ((after settings front).session.reading text).errors ≠ []) ∧
    (life.session.hasErrors = true → now.session.hasErrors = true ∧ ∀ text source,
      now.session.instantiate text source =
        .error (.loadErrors ((start settings).tally faults (earlier ++ later)))) ∧
    (life.session.hasErrors = false → ∀ text source,
      life.session.instantiate text source =
        match (Document.instances life.session.namespaces text).outcome with
        | .ok instances => .ok ⟨source, instances⟩
        | .error errors => .error (.malformed source errors)) ∧
    ∀ text source, (life.step (.instantiate text source)).session = life.session := by
  intro life now
  have grown : now.session.errorCount = life.session.errorCount + life.tally faults later :=
    steps_tally step_errorCount life later
  have sized := @steps_tally returned (fun s => s.library.size) step_size life later
  refine ⟨?_, sized, ?_, ?_, ?_, ?_⟩
  · intro text source s loaded new
    obtain ⟨items, accepted⟩ := s.library.perform_newcomers (.load s.namespaces text)
    refine ⟨items, (s.growth_load text source).trans accepted, ?_⟩
    rw [Session.growth_load]
    exact s.size_load text source
  · rw [Session.hasErrors_iff, errorCount_after, tally_pos]
    constructor
    · rintro ⟨front, action, back, same, positive⟩
      obtain ⟨text, source, rfl, met⟩ := faults_pos.mp positive
      exact ⟨front, text, source, back, same, met⟩
    · rintro ⟨front, text, source, back, same, met⟩
      exact ⟨front, _, back, same, faults_pos.mpr ⟨text, source, rfl, met⟩⟩
  · intro failed
    have positive : 0 < now.session.errorCount := by
      have before := Session.hasErrors_iff.mp failed
      omega
    refine ⟨Session.hasErrors_iff.mpr positive, ?_⟩
    intro text source
    rw [Session.instantiate, if_pos positive, ← errorCount_after, after_append]
  · intro clean text source
    have none : ¬0 < life.session.errorCount := by
      rw [← Session.hasErrors_iff, clean]
      exact Bool.false_ne_true
    unfold Session.instantiate
    exact if_neg none
  · intro text source
    simp only [step]
    split <;> rfl

def bodiless (name : String) : String := "<" ++ name ++ ">[] :: \x7b\x7d ."

theorem faults_refuse_mixed :
    let settings : Settings := ⟨Keyed.empty, false, none, false⟩
    let good : List Action := [.load (bodiless "u:a") "one"]
    let bad : List Action :=
      [.load (bodiless "u:a" ++ bodiless "u:b") "two", .load "<u:b> . <u:c> ." "three"]
    let last : List Action := [.load (bodiless "u:c") "four"]
    let clean := after settings good
    let failed := after settings (good ++ bad)
    let now := last.foldl step failed
    clean.session.hasErrors = false ∧
      clean.session.instantiate "<u:a> ." "inst" = .error (.malformed "inst"
        [.parse ⟨.unexpectedToken (.token .openParen) (some .dot), 1, 7⟩]) ∧
      failed.session.hasErrors = true ∧
      now.session.instantiate "<u:a>() ." "inst" = .error (.loadErrors 3) ∧
      failed.session.library.size = clean.session.library.size + 1 := by
  intro settings good bad last clean failed now
  obtain ⟨-, size, -, -, reads, -⟩ := faults_refuse settings good bad
  obtain ⟨-, -, -, refuses, -, -⟩ := faults_refuse settings (good ++ bad) last
  have free : clean.session.hasErrors = false := by decide +kernel
  have met : failed.session.hasErrors = true := by decide +kernel
  refine ⟨free, ?_, met, ?_, ?_⟩
  · have unread : (Document.instances clean.session.namespaces "<u:a> .").outcome =
        .error [.parse ⟨.unexpectedToken (.token .openParen) (some .dot), 1, 7⟩] := by
      decide +kernel
    refine (reads free "<u:a> ." "inst").trans ?_
    rw [unread]
  · refine ((refuses met).2 "<u:a>() ." "inst").trans ?_
    have total : (start settings).tally faults (good ++ bad ++ last) = 3 := by decide +kernel
    rw [total]
  · rw [show failed = bad.foldl step clean from after_append settings good bad]
    exact size.trans (by decide +kernel)

end Life

end Stottr

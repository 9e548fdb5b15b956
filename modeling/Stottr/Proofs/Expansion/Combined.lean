import Mathlib.Algebra.Ring.Nat
import Mathlib.Data.List.Forall2
import Mathlib.Data.List.GetD
import Stottr.Proofs.Expansion.Parts
import Stottr.Proofs.Library.Sources

namespace Stottr

-- The choices that a mode makes from lists of given lengths. Those of a product are all there are,
-- the last position varying fastest.
def ExpansionMode.Chooses (mode : ExpansionMode) (lengths : List Nat)
    (choices : List (List Nat)) : Prop :=
  match mode with
  | .cross => choices.length = lengths.prod ∧ choices.Pairwise (· < ·) ∧
      ∀ choice, choice ∈ choices ↔ List.Forall₂ (· < ·) choice lengths
  | .zipMin => ∃ count, lengths.min? = some count ∧
      choices = (List.range count).map (List.replicate lengths.length)
  | .zipMax => ∃ count, lengths.max? = some count ∧
      choices = (List.range count).map (List.replicate lengths.length)

namespace Combination

variable {α : Type} (filler : α)

def pick (lists : List (List α)) (choice : List Nat) : List α :=
  List.zipWith (fun items k => items.getD k filler) lists choice

def choices (lengths : List Nat) : List (List Nat) := cross (lengths.map List.range)

theorem choices_cons (length : Nat) (lengths : List Nat) :
    choices (length :: lengths) =
      (List.range length).flatMap fun k => (choices lengths).map (k :: ·) :=
  rfl

theorem length_choices (lengths : List Nat) : (choices lengths).length = lengths.prod := by
  simp only [choices, length_cross, List.foldr_map, List.length_range]
  rfl

theorem mem_choices {lengths choice : List Nat} :
    choice ∈ choices lengths ↔ List.Forall₂ (· < ·) choice lengths := by
  induction lengths generalizing choice with
  | nil => simp [choices, cross]
  | cons length lengths ih =>
    simp only [choices_cons, List.mem_flatMap, List.mem_range, List.mem_map, ih,
      List.forall₂_cons_right_iff]
    constructor
    · rintro ⟨k, less, others, below, rfl⟩
      exact ⟨k, others, less, below, rfl⟩
    · rintro ⟨k, others, less, below, rfl⟩
      exact ⟨k, less, others, below, rfl⟩

theorem choices_ascending (lengths : List Nat) : (choices lengths).Pairwise (· < ·) := by
  induction lengths with
  | nil => exact List.pairwise_singleton _ _
  | cons length lengths ih =>
    rw [choices_cons, List.pairwise_flatMap]
    constructor
    · intro k _
      rw [List.pairwise_map]
      exact ih.imp fun less => List.cons_lt_cons_iff.mpr (.inr ⟨rfl, less⟩)
    · refine List.pairwise_lt_range.imp ?_
      intro k k' less choice chosen choice' chosen'
      obtain ⟨_, _, rfl⟩ := List.mem_map.mp chosen
      obtain ⟨_, _, rfl⟩ := List.mem_map.mp chosen'
      exact List.cons_lt_cons_iff.mpr (.inl less)

theorem map_range_getD (items : List α) :
    (List.range items.length).map (items.getD · filler) = items := by
  apply List.ext_getElem
  · rw [List.length_map, List.length_range]
  · intro k _ inside
    rw [List.getElem_map, List.getElem_range, List.getD_eq_getElem _ _ inside]

theorem cross_eq_map (lists : List (List α)) :
    cross lists = (choices (lists.map List.length)).map (pick filler lists) := by
  induction lists with
  | nil => rfl
  | cons items lists ih =>
    rw [cross, List.map_cons, choices_cons, List.map_flatMap]
    conv_lhs => rw [← map_range_getD filler items, List.flatMap_map]
    simp only [ih, List.map_map, Function.comp_def, pick, List.zipWith_cons_cons]

theorem zip_eq_map (lists : List (List α)) (rows : Nat) :
    zip filler lists rows =
      ((List.range rows).map (List.replicate lists.length)).map (pick filler lists) := by
  rw [zip, List.map_map]
  refine List.map_congr_left ?_
  intro k _
  induction lists with
  | nil => rfl
  | cons items lists ih =>
    rw [List.map_cons, ih]
    rfl

theorem length_of_replicated {count width : Nat} :
    ∀ choice ∈ (List.range count).map (List.replicate width), choice.length = width := by
  intro choice chosen
  obtain ⟨k, _, rfl⟩ := List.mem_map.mp chosen
  exact List.length_replicate

theorem min?_lengths {lists : List (List α)} (several : lists ≠ []) :
    (lists.map List.length).min? = some (shortest lists) := by
  induction lists using shortest.induct with
  | case1 => exact absurd rfl several
  | case2 items => rfl
  | case3 items lists more ih =>
    rw [List.map_cons, List.min?_cons, ih more, shortest]
    · rfl
    · exact more

theorem max?_lengths {lists : List (List α)} (several : lists ≠ []) :
    (lists.map List.length).max? = some (longest lists) := by
  induction lists with
  | nil => exact absurd rfl several
  | cons items lists ih =>
    rw [List.map_cons, List.max?_cons, longest]
    cases lists with
    | nil => simp [longest]
    | cons other lists =>
      rw [ih (List.cons_ne_nil _ _)]
      rfl

theorem shortest_eq_longest {lists : List (List α)} (several : lists ≠ [])
    (even : ∀ a ∈ lists, ∀ b ∈ lists, a.length = b.length) : shortest lists = longest lists := by
  obtain ⟨a, listed, short⟩ := List.mem_map.mp (List.min?_mem (min?_lengths several))
  obtain ⟨b, listed', long⟩ := List.mem_map.mp (List.max?_mem (max?_lengths several))
  rw [← short, ← long, even a listed b listed']

end Combination

theorem ExpansionMode.combine_chooses (mode : ExpansionMode) {lists : List (List Term)}
    (several : lists ≠ []) :
    ∃ choices, mode.Chooses (lists.map List.length) choices ∧
      mode.combine lists = choices.map (Combination.pick .none lists) ∧
      ∀ choice ∈ choices, choice.length = lists.length := by
  have width : (lists.map List.length).length = lists.length := List.length_map _
  cases mode with
  | cross =>
    refine ⟨Combination.choices (lists.map List.length), ⟨Combination.length_choices _,
      Combination.choices_ascending _, fun _ => Combination.mem_choices⟩,
      Combination.cross_eq_map _ _, ?_⟩
    intro choice chosen
    rw [← width]
    exact (Combination.mem_choices.mp chosen).length_eq
  | zipMin =>
    refine ⟨_, ⟨_, Combination.min?_lengths several, rfl⟩, ?_⟩
    rw [width]
    exact ⟨Combination.zip_eq_map _ _ _, Combination.length_of_replicated⟩
  | zipMax =>
    refine ⟨_, ⟨_, Combination.max?_lengths several, rfl⟩, ?_⟩
    rw [width]
    exact ⟨Combination.zip_eq_map _ _ _, Combination.length_of_replicated⟩

theorem ExpansionMode.combine_singleton (mode : ExpansionMode) (items : List Term) :
    mode.combine [items] = items.map ([·]) := by
  have zipped : Combination.zip Term.none [items] items.length = items.map ([·]) := by
    conv_rhs => rw [← Combination.map_range_getD Term.none items, List.map_map]
    rfl
  cases mode with
  | cross => simp [combine, Combination.cross, List.map_eq_flatMap]
  | zipMin => exact zipped
  | zipMax =>
    rw [combine, Combination.longest, Combination.longest, Nat.max_zero]
    exact zipped

namespace Expansion

-- What the call for a choice passes: the value of each argument, but for the lists to expand their
-- members at the chosen positions, or the absent value where a list does not reach that far.
inductive Passes (value : Argument → Term) :
    List Argument → List (List Term) → List Nat → List Term → Prop where
  | nil : Passes value [] [] [] []
  | plain {a : Argument} {rest : List Argument} {lists : List (List Term)} {choice : List Nat}
    {row : List Term} (kept : a.isExpand = false) (later : Passes value rest lists choice row) :
    Passes value (a :: rest) lists choice (value a :: row)
  | spread {inner : Argument} {rest : List Argument} {items : List Term}
    {lists : List (List Term)} {k : Nat} {choice : List Nat} {row : List Term}
    (later : Passes value rest lists choice row) :
    Passes value (.expand inner :: rest) (items :: lists) (k :: choice)
      (items.getD k .none :: row)

-- How a list of steps is run: each from where the one before it left off, up to the first to fail.
inductive Runs {α : Type} (step : α → Nat → Result) (items : List α) (next : Nat) :
    Result → Prop where
  | done {parts : List Produced} {last : Nat} (all : Parts step items next parts last) :
    Runs step items next (.ok ⟨last, parts.flatMap Produced.statements⟩)
  | failed {front back : List α} {a : α} {parts : List Produced} {last : Nat}
    {e : ExpansionError} (split : items = front ++ a :: back)
    (before : Parts step front next parts last) (fails : step a last = .error e) :
    Runs step items next (.error e)

theorem Runs.cons {α : Type} {step : α → Nat → Result} {a : α} {rest : List α} {next : Nat}
    {first : Produced} {result : Result} (taken : step a next = .ok first)
    (runs : Runs step rest first.next result) :
    Runs step (a :: rest) next
      (result.map fun later => ⟨later.next, first.statements ++ later.statements⟩) := by
  cases runs with
  | done all => exact .done (.cons taken all)
  | failed split before fails => exact .failed (congrArg (a :: ·) split) (.cons taken before) fails

theorem runs_inOrder {α : Type} (step : α → Nat → Result) (items : List α) (next : Nat) :
    Runs step items next (inOrder step items next) := by
  induction items generalizing next with
  | nil => exact .done (.nil next)
  | cons a rest ih =>
    unfold inOrder
    cases taken : step a next with
    | error e => exact .failed (List.nil_append (a :: rest)).symm (.nil next) taken
    | ok first =>
      have runs := (ih first.next).cons taken
      dsimp only
      cases others : inOrder step rest first.next with
      | error e =>
        rw [others] at runs
        exact runs
      | ok later =>
        rw [others] at runs
        exact runs

section Slots

variable {env : Environment} {fresh : String → BlankNode}

theorem slots?_of_lists (target : Template) (span : Text.Span) (position : Nat)
    {arguments : List Argument} {lists : List (List Term)}
    (evaluated : (arguments.filter Argument.isExpand).map (Argument.evaluate env fresh) =
      lists.map Term.list) :
    ∃ slots, slots? target span (Argument.evaluate env fresh) position arguments =
        .ok (some slots) ∧
      slots.filterMap Slot.items? = lists ∧
      ∀ choice, choice.length = lists.length →
        Passes (Argument.evaluate env fresh) arguments lists choice
          (Slot.fill slots (Combination.pick .none lists choice)) := by
  induction arguments generalizing lists position with
  | nil =>
    cases lists with
    | cons => cases evaluated
    | nil =>
      refine ⟨[], rfl, rfl, ?_⟩
      intro choice none
      rw [List.length_eq_zero_iff.mp none]
      exact .nil
  | cons a rest ih =>
    cases a with
    | expand inner =>
      cases lists with
      | nil => cases evaluated
      | cons items lists =>
        have here : inner.evaluate env fresh = .list items := (List.cons.inj evaluated).1
        obtain ⟨slots, read, spread, filled⟩ := ih (position + 1) (List.cons.inj evaluated).2
        refine ⟨.spread items :: slots, ?_, congrArg (items :: ·) spread, ?_⟩
        · simp only [slots?, here, read, Option.map_some]
        · intro choice width
          cases choice with
          | nil => cases width
          | cons k choice => exact .spread (filled choice (Nat.succ.inj width))
    | concrete | «variable» | list =>
      obtain ⟨slots, read, spread, filled⟩ := ih (position + 1) evaluated
      refine ⟨.fixed _ :: slots, ?_, spread, fun choice width => .plain rfl (filled choice width)⟩
      simp only [slots?, read, Option.map_some]

-- The slots are the same in every mode; what differs is which rows of members fill them.
theorem rows_of_lists (target : Template) {inner : Call} {lists : List (List Term)}
    (evaluated : (inner.arguments.filter Argument.isExpand).map (Argument.evaluate env fresh) =
      lists.map Term.list) :
    ∃ slots, (∀ mode, rows { inner with mode := some mode } target (Argument.evaluate env fresh) =
        .ok ((mode.combine lists).map (Slot.fill slots))) ∧
      ∀ choice, choice.length = lists.length →
        Passes (Argument.evaluate env fresh) inner.arguments lists choice
          (Slot.fill slots (Combination.pick .none lists choice)) := by
  obtain ⟨slots, read, spread, filled⟩ := slots?_of_lists target inner.span 0 evaluated
  refine ⟨slots, fun mode => ?_, filled⟩
  simp only [rows, read, spread]

end Slots

-- A call with a mode is made once for each choice, in the order of the choices, as long as no call
-- fails; in each of them every list has given way to one of its members.
theorem expansion_enumerates (s : Setting) (path : List Iri) (env : Environment)
    (number next : Nat) (inner : Call) (lists : List (List Term)) {mode : ExpansionMode}
    {callee : s.library.Entry} (moded : inner.mode = some mode)
    (found : s.library.entry? inner.template = some callee) (several : lists ≠ [])
    (evaluated : (inner.arguments.filter Argument.isExpand).map
      (Argument.evaluate env fun label => .ofCall label s.scope number) =
        lists.map Term.list) :
    let value := Argument.evaluate env fun label => BlankNode.ofCall label s.scope number
    ∃ choices made, mode.Chooses (lists.map List.length) choices ∧
      List.Forall₂ (Passes value inner.arguments lists) choices made ∧
      rows inner callee.val value = .ok made ∧
      Runs (call s path false inner.span callee) made next
        (perform s path env number inner next) ∧
      (lists.length = 1 →
        ∀ other, rows { inner with mode := some other } callee.val value = .ok made) ∧
      ((∀ a ∈ lists, ∀ b ∈ lists, a.length = b.length) →
        rows { inner with mode := some .zipMin } callee.val value =
          rows { inner with mode := some .zipMax } callee.val value) := by
  intro value
  obtain ⟨slots, filling, filled⟩ := rows_of_lists callee.val evaluated
  obtain ⟨choices, chosen, combined, widths⟩ := mode.combine_chooses several
  let made := (mode.combine lists).map (Slot.fill slots)
  have whole : inner = { inner with mode := some mode } := by rw [← moded]
  have read : rows inner callee.val value = .ok made := by
    rw [whole]
    exact filling mode
  refine ⟨choices, made, chosen, ?_, read, ?_, ?_, ?_⟩
  · simp only [made, combined, List.map_map, List.forall₂_map_right_iff]
    exact List.forall₂_same.mpr fun choice member => filled choice (widths choice member)
  · have performed : perform s path env number inner next =
        inOrder (call s path false inner.span callee) made next := by
      simp only [perform, found]
      rw [read]
    rw [performed]
    exact runs_inOrder _ _ _
  · intro single other
    obtain ⟨items, rfl⟩ := List.length_eq_one_iff.mp single
    rw [filling other, other.combine_singleton, ← mode.combine_singleton]
  · intro even
    rw [filling, filling, ExpansionMode.combine, ExpansionMode.combine,
      Combination.shortest_eq_longest several even]

-- A product whose third row is refused, so that the fourth is not tried; and a single list.
theorem expansion_enumerates_refused :
    let s : Setting := ⟨.base, .first, none⟩
    let a : Term := .iri ⟨"u:a"⟩
    let p : Term := .iri ⟨"u:p"⟩
    let w : Term := .literal (.plain "w")
    let env : Environment := [.list [a, w], .list [p, a]]
    let both : Call := ⟨Vocabulary.triple,
      [.expand (.variable 0), .concrete p, .expand (.variable 1)], some .cross, .nowhere⟩
    let one : Call := ⟨Vocabulary.triple, [.variable 5, .concrete p, .expand (.variable 1)],
      some .zipMax, .nowhere⟩
    let value := Argument.evaluate env fun label => BlankNode.ofCall label s.scope 0
    ∃ callee, s.library.entry? Vocabulary.triple = some callee ∧
      rows both callee.val value = .ok [[a, p, p], [a, p, a], [w, p, p], [w, p, a]] ∧
      Runs (call s [] false .nowhere callee) [[a, p, p], [a, p, a], [w, p, p], [w, p, a]] 3
        (perform s [] env 0 both 3) ∧
      perform s [] env 0 both 3 =
        .error ⟨.mismatch Vocabulary.triple (some "subject") (some w) (.expectedIri .literal),
          .nowhere⟩ ∧
      rows { both with mode := some .zipMin } callee.val value =
        rows { both with mode := some .zipMax } callee.val value ∧
      rows { one with mode := some .cross } callee.val value = rows one callee.val value := by
  intro s a p w env both one value
  have computed : (s.library.entry? Vocabulary.triple).map (fun callee =>
        (rows both callee.val value).toOption) =
          some (some [[a, p, p], [a, p, a], [w, p, p], [w, p, a]]) ∧
      perform s [] env 0 both 3 =
        .error ⟨.mismatch Vocabulary.triple (some "subject") (some w) (.expectedIri .literal),
          .nowhere⟩ := by decide +kernel
  obtain ⟨callee, found, read⟩ := Option.map_eq_some_iff.mp computed.1
  have read := ok_of_toOption read
  obtain ⟨_, _, _, _, other, runs, _, even⟩ :=
    expansion_enumerates s [] env 0 3 both [[a, w], [p, a]] rfl found nofun rfl
  cases other.symm.trans read
  obtain ⟨_, _, _, _, read', _, single, _⟩ :=
    expansion_enumerates s [] env 0 3 one [[p, a]] rfl found nofun rfl
  exact ⟨callee, found, read, runs, computed.2, even (by simp), (single rfl .cross).trans read'.symm⟩

end Expansion

end Stottr

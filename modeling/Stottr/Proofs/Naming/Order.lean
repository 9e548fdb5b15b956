import Mathlib.Data.List.Lex
import Stottr.Proofs.Naming.Ideal
import Stottr.Proofs.Library.Sources

namespace Stottr.Naming

namespace Position

def Before (p q : Position) : Prop := List.Lex (Prod.Lex (· < ·) (· < ·)) p q

theorem Before.ne {p q : Position} (before : p.Before q) : p ≠ q := by
  refine List.Lex.to_ne (before.imp ?_)
  intro a b less same
  subst same
  rcases Prod.lex_def.mp less with first | ⟨_, second⟩
  · exact Nat.lt_irrefl _ first
  · exact Nat.lt_irrefl _ second

theorem before_append (here : Position) (a : Nat × Nat) (rest : Position) :
    here.Before (here ++ a :: rest) := by
  have below : Position.Before (here ++ []) (here ++ a :: rest) :=
    List.Lex.append_left _ .nil here
  rwa [List.append_nil] at below

theorem before_of_below {here p q : Position} {a b : Nat × Nat}
    (less : Prod.Lex (· < ·) (· < ·) a b) (below : here ++ [a] <+: p) (below' : here ++ [b] <+: q) :
    p.Before q := by
  obtain ⟨rest, rfl⟩ := below
  obtain ⟨rest', rfl⟩ := below'
  simp only [List.append_assoc, List.singleton_append]
  exact List.Lex.append_left _ (.rel less) here

end Position

namespace Account

variable {α : Type} {step : Nat → α → Account} {k : Nat} {items : List α}

theorem mem_andThen {first later : Account} {p : Position}
    (member : p ∈ (first.andThen later).numbered) : p ∈ first.numbered ∨ p ∈ later.numbered := by
  unfold andThen at member
  split at member
  · exact .inl member
  · exact List.mem_append.mp member

theorem mem_inTurn {p : Position} (member : p ∈ (inTurn step k items).numbered) :
    ∃ j, k ≤ j ∧ ∃ a, p ∈ (step j a).numbered := by
  induction items generalizing k with
  | nil => cases member
  | cons a rest ih =>
    rcases mem_andThen member with here | later
    · exact ⟨k, Nat.le_refl k, a, here⟩
    · obtain ⟨j, above, found⟩ := ih later
      exact ⟨j, Nat.le_of_succ_le above, found⟩

theorem inTurn_pairwise {R : Position → Position → Prop}
    (inside : ∀ j a, (step j a).numbered.Pairwise R)
    (across : ∀ {i j a b p q}, i < j → p ∈ (step i a).numbered → q ∈ (step j b).numbered → R p q) :
    (inTurn step k items).numbered.Pairwise R := by
  induction items generalizing k with
  | nil => exact .nil
  | cons a rest ih =>
    unfold inTurn andThen
    split
    · exact inside k a
    · refine List.pairwise_append.mpr ⟨inside k a, ih, ?_⟩
      intro p here q later
      obtain ⟨j, above, b, there⟩ := mem_inTurn later
      exact across above here there

theorem fact_andThen {first later : Account} {fact : Fact Origin}
    (member : fact ∈ (first.andThen later).facts) :
    (first.andThen later).numbered = first.numbered ++ later.numbered ∧
      (fact ∈ first.facts ∨ fact ∈ later.facts) := by
  obtain ⟨early, outcome⟩ := first
  obtain ⟨late, outcome'⟩ := later
  cases outcome with
  | error e => cases member
  | ok facts =>
    refine ⟨rfl, ?_⟩
    cases outcome' with
    | error e => cases member
    | ok facts' => exact List.mem_append.mp member

theorem fact_inTurn {fact : Fact Origin} (member : fact ∈ (inTurn step k items).facts) :
    ∃ j, ∃ a ∈ items, fact ∈ (step j a).facts ∧
      (step j a).numbered ⊆ (inTurn step k items).numbered := by
  induction items generalizing k with
  | nil => cases member
  | cons a rest ih =>
    obtain ⟨all, one⟩ := fact_andThen member
    unfold inTurn
    rw [all]
    rcases one with here | later
    · exact ⟨k, a, by simp, here, List.subset_append_left _ _⟩
    · obtain ⟨j, b, behind, found, listed⟩ := ih later
      refine ⟨j, b, List.mem_cons_of_mem _ behind, found, ?_⟩
      exact fun _ inside => List.subset_append_right _ _ (listed inside)

end Account

variable {lib : Library} {limit : Option Nat}

theorem numbered_perform {path : List Iri} {here : Position} {env : Values Origin}
    (below : ∀ here atTop span target arguments,
      ∀ p ∈ (call lib limit path here atTop span target arguments).numbered, here <+: p)
    {k : Nat} {inner : Call} {p : Position}
    (member : p ∈ (perform lib limit path here env k inner).numbered) :
    ∃ j, here ++ [(k, j)] <+: p := by
  unfold perform at member
  split at member
  · cases member
  · split at member
    · cases member
    · obtain ⟨j, _, row, found⟩ := Account.mem_inTurn member
      exact ⟨j, below _ _ _ _ _ p found⟩

theorem numbered_below (path : List Iri) (here : Position) (atTop : Bool) (span : Text.Span)
    (target : lib.Entry) (arguments : Values Origin) :
    ∀ p ∈ (call lib limit path here atTop span target arguments).numbered, here <+: p := by
  induction path using Expansion.path_induction lib generalizing
    here atTop span target arguments with
  | step path ih =>
    have way := course lib limit path here atTop span target arguments
    generalize call lib limit path here atTop span target arguments = account at way ⊢
    intro p member
    cases way with
    | unbound | skipped | statement | direct | deep | cyclic => cases member
    | unfit =>
      obtain rfl := List.mem_singleton.mp member
      exact List.prefix_refl p
    | entered binding checked body above fresh =>
      rcases List.mem_cons.mp member with rfl | inside
      · exact List.prefix_refl p
      · obtain ⟨k, _, inner, found⟩ := Account.mem_inTurn inside
        obtain ⟨j, under⟩ := numbered_perform (ih target.val target.property fresh) found
        exact (List.prefix_append here _).trans under

theorem numbered_before (path : List Iri) (here : Position) (atTop : Bool) (span : Text.Span)
    (target : lib.Entry) (arguments : Values Origin) :
    (call lib limit path here atTop span target arguments).numbered.Pairwise Position.Before := by
  induction path using Expansion.path_induction lib generalizing
    here atTop span target arguments with
  | step path ih =>
    have way := course lib limit path here atTop span target arguments
    generalize call lib limit path here atTop span target arguments = account at way ⊢
    cases way with
    | unbound | skipped | statement | direct | deep | cyclic => exact .nil
    | unfit => exact List.pairwise_singleton _ _
    | @entered env calls binding checked body above fresh =>
      have below := @numbered_below lib limit (path ++ [target.val.iri])
      refine List.pairwise_cons.mpr ⟨?_, ?_⟩
      · intro p inside
        obtain ⟨k, _, inner, found⟩ := Account.mem_inTurn inside
        obtain ⟨j, rest, rfl⟩ := numbered_perform below found
        simpa using Position.before_append here (k, j) rest
      · refine Account.inTurn_pairwise ?_ ?_
        · intro k inner
          unfold perform
          split
          · exact .nil
          · split
            · exact .nil
            · refine Account.inTurn_pairwise ?_ ?_
              · intro j row
                exact ih target.val target.property fresh _ _ _ _ _
              · intro i j row row' p q less first second
                exact Position.before_of_below (.right k less) (below _ _ _ _ _ p first)
                  (below _ _ _ _ _ q second)
        · intro i j inner inner' p q less first second
          obtain ⟨_, under⟩ := numbered_perform below first
          obtain ⟨_, under'⟩ := numbered_perform below second
          exact Position.before_of_below (.left _ _ less) under under'

-- The statement template has neither defaults nor labels, so it adds no node to those passed to it.
theorem triple_within {P : Origin → Prop} {here : Position} {span : Text.Span}
    {arguments env : Values Origin} {pattern : Pattern}
    (body : Library.triple.body = .statement pattern)
    (binding : bind Library.triple arguments span (.written here) = .ok env)
    (passed : ∀ v ∈ arguments, v.Within P) :
    ∀ v ∈ (Fact.ofPattern pattern (evaluate env (.written here))).values, v.Within P := by
  have plain : ∀ p ∈ Library.triple.parameters, p.default.isSome = false := by decide
  have held : ∀ v ∈ env, v.Within P := by
    refine within_bind ?_ binding passed
    intro p member default
    rw [plain p member] at default
    cases default
  cases body
  intro v member
  simp only [Fact.ofPattern, Fact.values, evaluate, List.mem_cons, List.not_mem_nil,
    or_false] at member
  rcases member with rfl | rfl | rfl
  · exact within_getD held 0
  · exact within_getD held 1
  · exact within_getD held 2

theorem facts_within (texts : lib.FromTexts) {P : Origin → Prop} (path : List Iri)
    (here : Position) (atTop : Bool) (span : Text.Span) (target : lib.Entry)
    (arguments : Values Origin) (passed : ∀ v ∈ arguments, v.Within P)
    (written : ∀ p ∈ (call lib limit path here atTop span target arguments).numbered,
      ∀ label, P (.written p label)) :
    ∀ fact ∈ (call lib limit path here atTop span target arguments).facts,
      ∀ v ∈ fact.values, v.Within P := by
  induction path using Expansion.path_induction lib generalizing
    here atTop span target arguments with
  | step path ih =>
    have way := course lib limit path here atTop span target arguments
    generalize call lib limit path here atTop span target arguments = account at way written ⊢
    intro fact member
    cases way with
    | unbound | skipped | unfit | direct | deep | cyclic => cases member
    | statement binding checked body =>
      have same : target.val = Library.triple := texts.triple_of_statement target.property body
      rw [same] at binding body
      rw [List.mem_singleton.mp member]
      exact triple_within body binding passed
    | @entered env calls binding checked body above fresh =>
      have own := written here (by simp [Account.entering])
      have held := within_bind (fun _ _ _ => own) binding passed
      obtain ⟨k, inner, _, found, listed⟩ := Account.fact_inTurn member
      unfold perform at found listed
      split at found
      · cases found
      · rename_i callee known
        simp only [known] at listed
        split at found
        · cases found
        · rename_i rows made
          simp only [made] at listed
          obtain ⟨j, row, chosen, found, inside⟩ := Account.fact_inTurn found
          refine ih target.val target.property fresh _ _ _ _ _ ?_ ?_ fact found
          · exact within_rows (within_evaluate held own) made row chosen
          · intro p entered
            exact written p (List.mem_cons_of_mem _ (listed (inside entered)))

end Stottr.Naming

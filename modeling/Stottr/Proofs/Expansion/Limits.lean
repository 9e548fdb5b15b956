import Stottr.Proofs.Expansion.Compared
import Stottr.Proofs.Expansion.Failing
import Stottr.Proofs.Expansion.Machine
import Stottr.Proofs.Expansion.Stable

namespace Stottr

namespace Expansion

def TooDeep (limit : Nat) (e : ExpansionError) : Prop :=
  ∃ template span, e = ⟨.depthLimit limit template, span⟩

-- A limit gives way to one that is no smaller, and to none.
inductive Looser (limit : Nat) : Option Nat → Prop where
  | none : Looser limit none
  | larger {other : Nat} (le : limit ≤ other) : Looser limit (some other)

theorem tooDeep_of_looser {limit : Nat} {wider : Option Nat} (looser : Looser limit wider)
    {path : List Iri} (above : tooDeep (some limit) path = false) : tooDeep wider path = false := by
  cases looser with
  | none => rfl
  | larger le =>
    have room : path.length < limit := Nat.lt_of_not_le (of_decide_eq_false above)
    exact decide_eq_false (by omega)

theorem eases_of_looser (lib : Library) {limit : Nat} {wider : Option Nat}
    (looser : Looser limit wider) : Eases lib lib (some limit) wider (TooDeep limit) :=
  ⟨.refl lib, fun _ _ unknown => .inl unknown, fun _ iri span _ => .inr ⟨iri, span, rfl⟩,
    fun _ above => tooDeep_of_looser looser above⟩

end Expansion

namespace Library

open Expansion

variable {lib : Library} {limit : Nat} {wider : Option Nat} {i : Instance} {scope : Scope}

theorem expand_eq_or_tooDeep (lib : Library) (looser : Looser limit wider) (i : Instance)
    (scope : Scope) :
    lib.expand (some limit) i scope = lib.expand wider i scope ∨
      ∃ e, TooDeep limit e ∧ lib.expand (some limit) i scope = .error e := by
  have alike := expand_unless (eases_of_looser lib looser) i scope
  generalize lib.expand (some limit) i scope = answer at alike ⊢
  cases alike with
  | same => exact .inl rfl
  | lost gone => exact .inr ⟨_, gone, rfl⟩

theorem expand_of_looser (looser : Looser limit wider) {statements : List Statement}
    (done : lib.expand (some limit) i scope = .ok statements) :
    lib.expand wider i scope = .ok statements := by
  rcases expand_eq_or_tooDeep lib looser i scope with same | ⟨e, -, failed⟩
  · rw [← same, done]
  · cases done.symm.trans failed

theorem limit_le_composites {e : ExpansionError} (deep : TooDeep limit e)
    (failed : lib.expand (some limit) i scope = .error e) : limit ≤ lib.composites.length := by
  obtain ⟨template, span, rfl⟩ := deep
  rcases stops_of_expand failed with ⟨_, other⟩ | ⟨start, path, span, target, _, way, stops⟩
  · cases other
  · cases stops with
    | unfit unfit => rcases unfit.concern with concern | concern <;> cases concern
    | deep _ below =>
      refine Nat.le_trans below (length_le_composites way.distinct ?_)
      intro iri entered
      obtain ⟨t, held, composite, named⟩ := way.composite iri entered
      exact ⟨t, mem_composites.mpr ⟨held, composite⟩, named⟩

-- A limit only cuts an expansion short. What it lets through it does not alter, and one beyond the
-- number of templates with bodies lets everything through, the cycles included.
theorem expand_limited (lib : Library) (i : Instance) (scope : Scope) (limit : Nat) :
    (lib.expand (some limit) i scope = lib.expand none i scope ∨
      ∃ template span,
        lib.expand (some limit) i scope = .error ⟨.depthLimit limit template, span⟩) ∧
    (∀ statements, lib.expand (some limit) i scope = .ok statements →
      (∀ larger, limit ≤ larger → lib.expand (some larger) i scope = .ok statements) ∧
      lib.expand none i scope = .ok statements) ∧
    (lib.composites.length < limit →
      lib.expand (some limit) i scope = lib.expand none i scope) := by
  have cut := expand_eq_or_tooDeep lib (.none : Looser limit none) i scope
  refine ⟨?_, ?_, ?_⟩
  · rcases cut with same | ⟨_, ⟨template, span, rfl⟩, failed⟩
    · exact .inl same
    · exact .inr ⟨template, span, failed⟩
  · intro statements done
    exact ⟨fun larger le => expand_of_looser (.larger le) done, expand_of_looser .none done⟩
  · intro beyond
    rcases cut with same | ⟨e, deep, failed⟩
    · exact same
    · exact absurd (limit_le_composites deep failed) (Nat.not_le_of_lt beyond)

-- Of two templates that call each other, a limit of two stops before the cycle is seen. The other
-- expansion needs a single body.
theorem expand_limited_loop :
    let one (name : String) : Instance := ⟨⟨name⟩, [.iri ⟨"u:v"⟩], .nowhere⟩
    let written : List Statement := [⟨.iri ⟨"u:v"⟩, .iri ⟨"u:v"⟩, .iri ⟨"u:v"⟩⟩]
    let cycle : ExpansionError := ⟨.cycle [⟨"u:a"⟩, ⟨"u:b"⟩, ⟨"u:a"⟩], ⟨4, 9, 2, 1⟩⟩
    loop.composites.length = 2 ∧
      loop.expand (some 2) (one "u:a") .first =
        .error ⟨.depthLimit 2 ⟨"u:a"⟩, ⟨4, 9, 2, 1⟩⟩ ∧
      loop.expand (some 3) (one "u:a") .first = loop.expand none (one "u:a") .first ∧
      loop.expand none (one "u:a") .first = .error cycle ∧
      unfinished.expand (some 1) (one "u:pair") .first = .ok written ∧
      unfinished.expand (some 4) (one "u:pair") .first = .ok written ∧
      unfinished.expand none (one "u:pair") .first = .ok written := by
  intro one written cycle
  have count : loop.composites.length = 2 := by decide +kernel
  have beyond : loop.composites.length < 3 := by omega
  have done : unfinished.expand (some 1) (one "u:pair") .first = .ok written := by decide +kernel
  obtain ⟨larger, unlimited⟩ := (expand_limited unfinished (one "u:pair") .first 1).2.1 _ done
  exact ⟨count, by decide +kernel, (expand_limited loop (one "u:a") .first 3).2.2 beyond,
    by decide +kernel, done, larger 4 (by omega), unlimited⟩

end Library

end Stottr

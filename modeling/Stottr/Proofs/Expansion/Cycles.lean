import Mathlib.Data.List.Chain
import Stottr.Proofs.Expansion.Failing
import Stottr.Proofs.Expansion.Stable

namespace Stottr

namespace Library

-- Templates that call one another, from the first one on back to one that has been named already;
-- the place is that of the call which closes the circle.
structure Cycle (lib : Library) (first : Iri) (path : List Iri) (span : Text.Span) : Prop where
  long : 2 ≤ path.length
  head : path.head? = some first
  calls : path.IsChain lib.Calls
  distinct : path.dropLast.Nodup
  back : ∃ again ∈ path.dropLast, path.getLast? = some again
  place : ∃ caller callee, [caller, callee] <:+ path ∧ lib.CallsAt caller callee span

def AcyclicFrom (lib : Library) (first : Iri) : Prop :=
  ∀ iri, Relation.ReflTransGen lib.Calls first iri → ¬Relation.TransGen lib.Calls iri iri

variable {lib : Library} {first : Iri}

def callees (lib : Library) (caller : Iri) : List Iri :=
  ((lib.get? caller).map fun t => t.calls.map Call.template).getD []

theorem mem_callees {caller callee : Iri} (calls : lib.Calls caller callee) :
    callee ∈ lib.callees caller := by
  obtain ⟨_, t, found, _, inner, made, rfl, _⟩ := calls
  rw [callees, found]
  exact List.mem_map_of_mem made

theorem acyclicFrom_of_order (order : List Iri) (listed : first ∈ order)
    (later : ∀ caller ∈ order, ∀ callee ∈ lib.callees caller,
      callee ∈ order ∧ order.idxOf caller < order.idxOf callee) : lib.AcyclicFrom first := by
  have inside : ∀ iri, Relation.ReflTransGen lib.Calls first iri → iri ∈ order := by
    intro iri reached
    induction reached with
    | refl => exact listed
    | tail _ calls ih => exact (later _ ih _ (mem_callees calls)).1
  intro iri reached back
  have onward : ∀ other, Relation.TransGen lib.Calls iri other →
      other ∈ order ∧ order.idxOf iri < order.idxOf other := by
    intro other way
    induction way with
    | single calls => exact later _ (inside iri reached) _ (mem_callees calls)
    | tail _ calls ih =>
      obtain ⟨member, less⟩ := later _ ih.1 _ (mem_callees calls)
      exact ⟨member, ih.2.trans less⟩
  exact absurd (onward iri back).2 (Nat.lt_irrefl _)

theorem Cycle.not_acyclic {path : List Iri} {span : Text.Span} (cycle : lib.Cycle first path span) :
    ¬lib.AcyclicFrom first := by
  intro acyclic
  obtain ⟨again, before, last⟩ := cycle.back
  have split : path = path.dropLast ++ [again] := (List.dropLast_append_getLast? again last).symm
  have head := cycle.head
  have connected : path.Pairwise (Relation.TransGen lib.Calls) :=
    List.isChain_iff_pairwise.mp (cycle.calls.imp fun _ _ => Relation.TransGen.single)
  rw [split] at connected head
  have reach : ∀ iri ∈ path.dropLast, Relation.TransGen lib.Calls iri again := fun iri member =>
    (List.pairwise_append.mp connected).2.2 iri member again (List.mem_singleton.mpr rfl)
  rw [List.head?_append_of_ne_nil _ (List.ne_nil_of_mem before)] at head
  exact acyclic again (reach first (List.mem_of_head? head)).to_reflTransGen (reach again before)

end Library

namespace Expansion.Way

variable {lib : Library} {start target : lib.Entry} {place span : Text.Span} {path : List Iri}

theorem head (way : Way lib start place path span target) :
    (path ++ [target.val.iri]).head? = some start.val.iri := by
  induction way with
  | top => rfl
  | enter _ _ _ _ ih => rw [List.head?_append, ih, Option.some_or]

theorem chain (way : Way lib start place path span target) :
    (path ++ [target.val.iri]).IsChain lib.Calls := by
  induction way with
  | top => exact .singleton _
  | enter _ _ made found ih =>
    refine List.isChain_append.mpr ⟨ih, .singleton _, ?_⟩
    intro caller last callee only
    rw [List.getLast?_concat] at last
    cases last
    cases only
    exact ⟨_, callsAt made found⟩

-- Below the top, a call is one that the last template entered makes.
theorem calling (way : Way lib start place path span target) (entered : path ≠ []) :
    ∃ caller, [caller, target.val.iri] <:+ path ++ [target.val.iri] ∧
      lib.CallsAt caller target.val.iri span := by
  cases way with
  | top => exact absurd rfl entered
  | @enter path _ caller _ _ _ _ made found =>
    refine ⟨caller.val.iri, ?_, callsAt made found⟩
    exact ⟨path, by rw [List.append_assoc]; rfl⟩

theorem cycle (way : Way lib start place path span target) (again : target.val.iri ∈ path) :
    lib.Cycle start.val.iri (path ++ [target.val.iri]) span where
  long := by
    have entered := List.length_pos_of_mem again
    rw [List.length_append, List.length_singleton]
    omega
  head := way.head
  calls := way.chain
  distinct := by
    rw [List.dropLast_concat]
    exact way.distinct
  back := ⟨target.val.iri, by rwa [List.dropLast_concat], List.getLast?_concat⟩
  place := by
    obtain ⟨caller, behind, calls⟩ := way.calling (List.ne_nil_of_mem again)
    exact ⟨caller, target.val.iri, behind, calls⟩

end Expansion.Way

namespace Library

open Expansion

theorem cycle_of_expand {lib : Library} {limit : Option Nat} {i : Instance} {scope : Scope}
    {path : List Iri} {span : Text.Span}
    (failed : lib.expand limit i scope = .error ⟨.cycle path, span⟩) :
    lib.Cycle i.template path span := by
  rcases stops_of_expand failed with ⟨_, other⟩ | ⟨start, _, _, target, named, way, stops⟩
  · cases other
  · cases stops with
    | unfit unfit => rcases unfit.concern with concern | concern <;> cases concern
    | cyclic _ again => exact named ▸ way.cycle again

-- A cycle that an expansion fails for is one of the library, and where there is none to be reached
-- no expansion fails for it.
theorem expand_cycle_genuine (lib : Library) (limit : Option Nat) (i : Instance) (scope : Scope) :
    (∀ path span, lib.expand limit i scope = .error ⟨.cycle path, span⟩ →
      lib.Cycle i.template path span) ∧
    (lib.AcyclicFrom i.template →
      ∀ path span, lib.expand limit i scope ≠ .error ⟨.cycle path, span⟩) := by
  refine ⟨fun _ _ => cycle_of_expand, ?_⟩
  intro acyclic path span failed
  exact (cycle_of_expand failed).not_acyclic acyclic

-- From u:in one comes into a circle that u:in is not on. The calls below u:top meet again, but in a
-- template that calls nothing.
def winding : Library :=
  (base.registerAll [passing "u:in" ["u:plain", "u:a"], passing "u:a" ["u:b"],
    passing "u:b" ["u:plain", "u:a"], passing "u:top" ["u:left", "u:plain"],
    passing "u:left" ["u:plain"], passing "u:plain" []]).library

theorem expand_cycle_genuine_winding :
    let one (name : String) : Instance := ⟨⟨name⟩, [.iri ⟨"u:v"⟩], .nowhere⟩
    let path : List Iri := [⟨"u:in"⟩, ⟨"u:a"⟩, ⟨"u:b"⟩, ⟨"u:a"⟩]
    winding.expand none (one "u:in") .first = .error ⟨.cycle path, ⟨4, 9, 2, 1⟩⟩ ∧
      winding.Cycle ⟨"u:in"⟩ path ⟨4, 9, 2, 1⟩ ∧
      winding.AcyclicFrom ⟨"u:top"⟩ ∧
      ∀ path span, winding.expand none (one "u:top") .first ≠ .error ⟨.cycle path, span⟩ := by
  intro one path
  have failed : winding.expand none (one "u:in") .first =
      .error ⟨.cycle path, ⟨4, 9, 2, 1⟩⟩ := by decide +kernel
  have acyclic : winding.AcyclicFrom ⟨"u:top"⟩ :=
    acyclicFrom_of_order [⟨"u:top"⟩, ⟨"u:left"⟩, ⟨"u:plain"⟩] (by simp)
      (by decide +kernel)
  exact ⟨failed, (expand_cycle_genuine winding none (one "u:in") .first).1 path _ failed, acyclic,
    (expand_cycle_genuine winding none (one "u:top") .first).2 acyclic⟩

end Library

end Stottr

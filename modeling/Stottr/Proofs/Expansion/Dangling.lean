import Stottr.Proofs.Expansion.Failing
import Stottr.Proofs.Expansion.Stable

namespace Stottr.Library

open Expansion

variable {lib : Library}

theorem get?_of_entry?_none {iri : Iri} (unknown : lib.entry? iri = none) :
    lib.get? iri = none := by
  unfold entry? at unknown
  split at unknown
  · cases unknown
  · assumption

theorem mem_dangling_iff {d : Dangling} :
    d ∈ lib.dangling ↔ ∃ t ∈ lib.items, ∃ inner ∈ t.calls, lib.get? inner.template = none ∧
      d = ⟨t.iri, inner.template, inner.span⟩ := by
  simp only [dangling, List.mem_flatMap, List.mem_map, List.mem_filter, Option.isNone_iff_eq_none,
    and_assoc, @eq_comm _ d]

theorem unknown_of_expand {limit : Option Nat} {i : Instance} {scope : Scope} {template : Iri}
    {span : Text.Span} (failed : lib.expand limit i scope = .error ⟨.unknownTemplate template, span⟩) :
    (lib.get? i.template = none ∧ template = i.template ∧ span = i.span) ∨
    ∃ d ∈ lib.dangling, d.missing = template ∧ d.span = span ∧
      Relation.ReflTransGen lib.Calls i.template d.template := by
  rcases stops_of_expand failed with ⟨unknown, same⟩ | ⟨start, _, _, target, named, way, stops⟩
  · cases same
    exact .inl ⟨get?_of_entry?_none unknown, rfl, rfl⟩
  · cases stops with
    | unfit unfit => rcases unfit.concern with concern | concern <;> cases concern
    | @missing inner _ made unknown =>
      refine .inr ⟨⟨target.val.iri, inner.template, inner.span⟩, ?_, rfl, rfl, named ▸ way.reached⟩
      exact mem_dangling_iff.mpr
        ⟨target.val, target.property, inner, made, get?_of_entry?_none unknown, rfl⟩

-- Every missing template that an expansion comes across below its own is among the dangling
-- references, with its place; without any of those a registered template never lacks another.
theorem dangling_complete (lib : Library) (limit : Option Nat) (i : Instance) (scope : Scope) :
    (∀ template span, lib.expand limit i scope = .error ⟨.unknownTemplate template, span⟩ →
      (lib.get? i.template = none ∧ template = i.template ∧ span = i.span) ∨
      ∃ d ∈ lib.dangling, d.missing = template ∧ d.span = span ∧
        Relation.ReflTransGen lib.Calls i.template d.template) ∧
    (lib.dangling = [] → (lib.get? i.template).isSome →
      ∀ template span, lib.expand limit i scope ≠ .error ⟨.unknownTemplate template, span⟩) := by
  refine ⟨fun _ _ => unknown_of_expand, ?_⟩
  intro complete registered template span failed
  rcases unknown_of_expand failed with ⟨unknown, _⟩ | ⟨d, member, _⟩
  · rw [unknown] at registered
    cases registered
  · rw [complete] at member
    cases member

theorem dangling_complete_finished :
    let one (name : String) : Instance := ⟨⟨name⟩, [.iri ⟨"u:v"⟩], .nowhere⟩
    let gap : Dangling := ⟨⟨"u:open"⟩, ⟨"u:later"⟩, ⟨4, 9, 2, 1⟩⟩
    unfinished.expand none (one "u:open") .first = .error ⟨.unknownTemplate gap.missing, gap.span⟩ ∧
      unfinished.dangling = [gap] ∧
      (∃ d ∈ unfinished.dangling, d.missing = gap.missing ∧ d.span = gap.span) ∧
      finished.dangling = [] ∧ (finished.get? (one "u:open").template).isSome ∧
      ∀ template span,
        finished.expand none (one "u:open") .first ≠ .error ⟨.unknownTemplate template, span⟩ := by
  intro one gap
  have failed : unfinished.expand none (one "u:open") .first =
      .error ⟨.unknownTemplate gap.missing, gap.span⟩ := by decide +kernel
  have known : (unfinished.get? (one "u:open").template).isSome := by decide +kernel
  have complete : finished.dangling = [] := by decide +kernel
  have registered : (finished.get? (one "u:open").template).isSome := by decide +kernel
  refine ⟨failed, by decide +kernel, ?_, complete, registered,
    (dangling_complete finished none (one "u:open") .first).2 complete registered⟩
  rcases (dangling_complete unfinished none (one "u:open") .first).1 _ _ failed with
    ⟨unknown, _⟩ | ⟨d, member, missing, place, _⟩
  · rw [unknown] at known
    cases known
  · exact ⟨d, member, missing, place⟩

end Stottr.Library

import Mathlib.Data.List.Basic
import Stottr.Proofs.Expansion.Compared

namespace Stottr

namespace Expansion

-- An answer that another one keeps: it is the same, unless a template was missing.
inductive Keeps {α : Type} : Except ExpansionError α → Except ExpansionError α → Prop where
  | same (answer : Except ExpansionError α) : Keeps answer answer
  | missing (iri : Iri) (span : Text.Span) (other : Except ExpansionError α) :
    Keeps (.error ⟨.unknownTemplate iri, span⟩) other

namespace Keeps

variable {α : Type} {answer other : Except ExpansionError α}

theorem ok {value : α} (keeps : Keeps (.ok value) other) : other = .ok value := by
  cases keeps
  rfl

theorem error {e : ExpansionError} (keeps : Keeps (.error e) other)
    (known : ∀ iri, e.fault ≠ .unknownTemplate iri) : other = .error e := by
  cases keeps with
  | same => rfl
  | missing iri => exact absurd rfl (known iri)

end Keeps

end Expansion

namespace Library

theorem expand_keeps {lib grown : Library} (within : lib.Within grown) (limit : Option Nat)
    (i : Instance) (scope : Scope) :
    Expansion.Keeps (lib.expand limit i scope) (grown.expand limit i scope) := by
  let unknown : ExpansionError → Prop := fun e => ∃ iri span, e = ⟨.unknownTemplate iri, span⟩
  have eases : Expansion.Eases lib grown limit limit unknown :=
    ⟨within, fun iri span _ => .inr ⟨iri, span, rfl⟩, fun _ _ _ _ => .inl rfl,
      fun _ above => above⟩
  have alike := expand_unless eases i scope
  generalize lib.expand limit i scope = answer at alike ⊢
  cases alike with
  | same => exact .same _
  | lost gone =>
    obtain ⟨iri, span, rfl⟩ := gone
    exact .missing iri span _

-- What expands, or fails for any other reason than a template that is missing, does so in the same
-- way when more templates are there.
theorem expand_stable :
    (∀ lib grown : Library, lib.Later grown → lib.Within grown) ∧
    ∀ lib grown : Library, lib.Within grown → ∀ limit i scope,
      (∀ statements, lib.expand limit i scope = .ok statements →
        grown.expand limit i scope = .ok statements) ∧
      ∀ e, lib.expand limit i scope = .error e → (∀ iri, e.fault ≠ .unknownTemplate iri) →
        grown.expand limit i scope = .error e := by
  refine ⟨fun lib grown later => later.within, ?_⟩
  intro lib grown within limit i scope
  have keeps := expand_keeps within limit i scope
  refine ⟨?_, ?_⟩
  · intro statements done
    rw [done] at keeps
    exact keeps.ok
  · intro e failed known
    rw [failed] at keeps
    exact keeps.error known

def passing (name : String) (callees : List String) : Template :=
  ⟨⟨name⟩, [baseParameter "x" 0 .resource false],
    .calls (callees.map fun callee => ⟨⟨callee⟩, [.variable 0], none, ⟨4, 9, 2, 1⟩⟩), .nowhere⟩

def unfinished : Library :=
  let pairing : Template := ⟨⟨"u:pair"⟩, [baseParameter "x" 0 .iri false],
    .calls [⟨Vocabulary.triple, [.variable 0, .variable 0, .variable 0], none, .nowhere⟩], .nowhere⟩
  (base.registerAll [pairing, passing "u:loop" ["u:pair", "u:loop"],
    passing "u:open" ["u:later"]]).library

def finished : Library :=
  (unfinished.registerAll [passing "u:later" ["u:pair"], passing "u:pair" []]).library

theorem expand_stable_finished :
    let one (name : String) : Instance := ⟨⟨name⟩, [.iri ⟨"u:v"⟩], .nowhere⟩
    let written : List Statement := [⟨.iri ⟨"u:v"⟩, .iri ⟨"u:v"⟩, .iri ⟨"u:v"⟩⟩]
    let cycle : ExpansionError := ⟨.cycle [⟨"u:loop"⟩, ⟨"u:loop"⟩], ⟨4, 9, 2, 1⟩⟩
    unfinished.Later finished ∧ unfinished.Within finished ∧
      unfinished.expand none (one "u:pair") .first = .ok written ∧
      finished.expand none (one "u:pair") .first = .ok written ∧
      unfinished.expand none (one "u:loop") .first = .error cycle ∧
      finished.expand none (one "u:loop") .first = .error cycle ∧
      unfinished.expand none (one "u:open") .first =
        .error ⟨.unknownTemplate ⟨"u:later"⟩, ⟨4, 9, 2, 1⟩⟩ ∧
      finished.expand none (one "u:open") .first = .ok written := by
  intro one written cycle
  have later : unfinished.Later finished := .registerAll .same _
  have within := expand_stable.1 unfinished finished later
  have done : unfinished.expand none (one "u:pair") .first = .ok written := by decide +kernel
  have failed : unfinished.expand none (one "u:loop") .first = .error cycle := by decide +kernel
  refine ⟨later, within, done, ?_, failed, ?_, by decide +kernel, by decide +kernel⟩
  · exact (expand_stable.2 _ _ within none (one "u:pair") .first).1 _ done
  · exact (expand_stable.2 _ _ within none (one "u:loop") .first).2 cycle failed nofun

end Library

end Stottr

import Stottr.Expansion.Binding
import Stottr.Expansion.Combination
import Stottr.Library

namespace Stottr

abbrev Library.Entry (lib : Library) := { t : Template // t ∈ lib.items }

def Library.entry? (lib : Library) (iri : Iri) : Option lib.Entry :=
  match found : lib.get? iri with
  | some t => some ⟨t, lib.mem_of_find? iri.text t found⟩
  | none => none

namespace Expansion

structure Setting where
  library : Library
  scope : Scope
  limit : Option Nat

-- What a call comes to: its statements, and the number of the next body to be entered.
structure Produced where
  next : Nat
  statements : List Statement
deriving DecidableEq, Repr

abbrev Result := Except ExpansionError Produced

-- One step after another, each of them numbered from where the one before it left off.
def inOrder {α : Type} (step : α → Nat → Result) : List α → Nat → Result
  | [], next => .ok ⟨next, []⟩
  | a :: rest, next =>
    match step a next with
    | .error e => .error e
    | .ok first =>
      match inOrder step rest first.next with
      | .error e => .error e
      | .ok later => .ok ⟨later.next, first.statements ++ later.statements⟩

inductive Slot where
  | fixed (value : Term)
  | spread (items : List Term)
deriving Repr

namespace Slot

def items? : Slot → Option (List Term)
  | .fixed _ => none
  | .spread items => some items

-- The arguments of one call: the members of the row stand where the lists stood.
def fill : List Slot → List Term → List Term
  | [], _ => []
  | .fixed value :: slots, row => value :: fill slots row
  | .spread _ :: slots, row => row.headD .none :: fill slots row.tail

end Slot

-- The slots of a call, or none when a list to expand is absent and there is nothing to call.
def slots? (target : Template) (span : Text.Span) (value : Argument → Term) (position : Nat) :
    List Argument → Except ExpansionError (Option (List Slot))
  | [] => .ok (some [])
  | a :: rest =>
    let later := fun slot =>
      match slots? target span value (position + 1) rest with
      | .ok slots => .ok (slots.map (slot :: ·))
      | .error e => .error e
    match a with
    | .expand inner =>
      match value inner with
      | .list items => later (.spread items)
      | .none => .ok none
      | other =>
        let parameter := target.parameters[position]?.map Parameter.name
        .error ⟨.mismatch target.iri parameter (some other) (.expectedList other.kind), span⟩
    | plain => later (.fixed (value plain))

def rows (call : Call) (target : Template) (value : Argument → Term) :
    Except ExpansionError (List (List Term)) :=
  match call.mode with
  | none => .ok [call.arguments.map value]
  | some mode =>
    match slots? target call.span value 0 call.arguments with
    | .error e => .error e
    | .ok none => .ok []
    | .ok (some slots) =>
      .ok ((mode.combine (slots.filterMap Slot.items?)).map (Slot.fill slots))

-- The templates that may still be entered below a path.
def remaining (lib : Library) (path : List Iri) : Nat :=
  lib.items.countP fun t => !path.contains t.iri

theorem remaining_lt (lib : Library) (path : List Iri) (t : Template) (member : t ∈ lib.items)
    (fresh : path.contains t.iri = false) :
    remaining lib (path ++ [t.iri]) < remaining lib path := by
  unfold remaining
  have outside : t.iri ∉ path := by simpa using fresh
  generalize lib.items = items at member
  induction items with
  | nil => cases member
  | cons u rest ih =>
    have fewer : rest.countP (fun t' => !(path ++ [t.iri]).contains t'.iri) ≤
        rest.countP (fun t' => !path.contains t'.iri) := by
      apply List.countP_mono_left
      intro v _ kept
      have unlisted : v.iri ∉ path ∧ v.iri ≠ t.iri := by simpa using kept
      simpa using unlisted.1
    rcases List.mem_cons.mp member with rfl | later
    · simp [outside] at fewer ⊢
      omega
    · have less := ih later
      simp only [List.countP_cons]
      by_cases same : u.iri = t.iri
      · simp [same, outside] at less ⊢
        omega
      · by_cases listed : u.iri ∈ path
        · simp [listed] at less ⊢
          omega
        · simp [listed, same] at less ⊢
          omega

variable (s : Setting)

-- Makes one call. The value none for a parameter that must have one is an error at the top, and
-- elsewhere the call is left out.
def call (path : List Iri) (atTop : Bool) (span : Text.Span) (target : s.library.Entry)
    (arguments : List Term) (next : Nat) : Result :=
  let t := target.val
  match t.bind arguments span fun label => .ofCall label s.scope next with
  | .error e => .error e
  | .ok env =>
    match t.checkValues env with
    | .error misfit =>
      if misfit.reason = .noneNotAllowed ∧ !atTop then .ok ⟨next, []⟩
      else .error (misfit.error t span)
    | .ok () =>
      match t.body with
      | .statement pattern => .ok ⟨next, [pattern.statement env]⟩
      | .crossProduct => .error ⟨.mismatch t.iri none none .directCrossCall, span⟩
      | .calls calls =>
        if (s.limit.map fun limit => decide (limit ≤ path.length)).getD false then
          .error ⟨.depthLimit (s.limit.getD 0) t.iri, span⟩
        else if entered : path.contains t.iri then
          .error ⟨.cycle (path ++ [t.iri]), span⟩
        else
          let fresh := fun label => BlankNode.ofCall label s.scope next
          inOrder (fun inner next =>
            match s.library.entry? inner.template with
            | none => .error ⟨.unknownTemplate inner.template, inner.span⟩
            | some callee =>
              match rows inner callee.val (Argument.evaluate env fresh) with
              | .error e => .error e
              | .ok rows =>
                inOrder (fun row next =>
                  call (path ++ [t.iri]) false inner.span callee row next) rows next)
            calls (next + 1)
termination_by remaining s.library path
decreasing_by exact remaining_lt _ _ _ target.property (by simpa using entered)

end Expansion

def Library.expand (lib : Library) (limit : Option Nat) (i : Instance) (scope : Scope) :
    Except ExpansionError (List Statement) :=
  match lib.entry? i.template with
  | none => .error ⟨.unknownTemplate i.template, i.span⟩
  | some target =>
    let values := i.arguments.map (Term.relabel fun label => .ofInstance label scope)
    (Expansion.call ⟨lib, scope, limit⟩ [] true i.span target values 0).map
      Expansion.Produced.statements

end Stottr

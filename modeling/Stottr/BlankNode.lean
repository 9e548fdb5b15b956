namespace Stottr

structure Scope where
  number : UInt64
deriving DecidableEq, Repr, Inhabited

namespace Scope

def first : Scope := ⟨0⟩

-- Scopes are counted in 64 bits and start again from zero.
def next (s : Scope) : Scope := ⟨s.number + 1⟩

def render (s : Scope) : String := toString s.number.toNat

def take (s : Scope) : Nat → List Scope
  | 0 => []
  | count + 1 => s :: s.next.take count

def skip (s : Scope) : Nat → Scope
  | 0 => s
  | count + 1 => s.next.skip count

@[simp] theorem length_take (s : Scope) (count : Nat) : (s.take count).length = count := by
  induction count generalizing s with
  | zero => rfl
  | succ count ih => simp [take, ih]

end Scope

structure BlankNode where
  label : String
deriving DecidableEq, Repr, Inhabited

namespace BlankNode

-- The node that a label denotes in the body, or in a default, of one template call.
def ofCall (label : String) (scope : Scope) (call : Nat) : BlankNode :=
  ⟨label ++ "_" ++ scope.render ++ "_" ++ toString call⟩

-- The node that a label denotes in a top-level instance. Names of calls end in a digit, so the two
-- kinds never meet.
def ofInstance (label : String) (scope : Scope) : BlankNode :=
  ⟨label ++ "_" ++ scope.render ++ "_i"⟩

def render (b : BlankNode) : String := "_:" ++ b.label

end BlankNode

end Stottr

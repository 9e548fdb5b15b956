import Stottr.Term
import Stottr.Text.Position

namespace Stottr

inductive Argument where
  | concrete (value : Term)
  -- The parameter of the enclosing template at this position.
  | variable (index : Nat)
  | list (items : List Argument)
  -- A list whose members are passed one by one.
  | expand (inner : Argument)
deriving Repr, Inhabited

namespace Argument

def isExpand : Argument → Bool
  | .expand _ => true
  | _ => false

mutual

def positions : Argument → List Nat
  | .concrete _ => []
  | .variable index => [index]
  | .list items => positionsAll items
  | .expand inner => inner.positions

def positionsAll : List Argument → List Nat
  | [] => []
  | a :: as => a.positions ++ positionsAll as

end

mutual

def constant? : Argument → Option Term
  | .concrete value => some value
  | .list items => (constants? items).map .list
  | .variable _ => none
  | .expand _ => none

def constants? : List Argument → Option (List Term)
  | [] => some []
  | a :: as =>
    match a.constant?, constants? as with
    | some t, some ts => some (t :: ts)
    | _, _ => none

end

def concrete? : Argument → Option Term
  | .concrete value => some value
  | _ => none

-- A list argument. When every member is concrete the whole list is.
def ofList (items : List Argument) : Argument :=
  match items.mapM concrete? with
  | some values => .concrete (.list values)
  | none => .list items

end Argument

inductive ExpansionMode where
  | cross
  | zipMin
  | zipMax
deriving DecidableEq, Repr

namespace ExpansionMode

def keyword : ExpansionMode → String
  | .cross => "cross"
  | .zipMin => "zipMin"
  | .zipMax => "zipMax"

def ofKeyword? (word : String) : Option ExpansionMode :=
  if word = "cross" then some .cross
  else if word = "zipMin" then some .zipMin
  else if word = "zipMax" then some .zipMax
  else none

end ExpansionMode

structure Call where
  template : Iri
  arguments : List Argument
  mode : Option ExpansionMode
  span : Text.Span
deriving Repr, Inhabited

def Call.hasExpansion (call : Call) : Bool := call.arguments.any Argument.isExpand

structure Instance where
  template : Iri
  arguments : List Term
  span : Text.Span
deriving DecidableEq, Repr, Inhabited

def Instance.render (i : Instance) : String :=
  i.template.render ++ "(" ++ Text.join ", " (i.arguments.map Term.render) ++ ")"

end Stottr

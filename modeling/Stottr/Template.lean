import Stottr.Template.Argument
import Stottr.Template.ParamType

namespace Stottr

structure Parameter where
  name : String
  index : Nat
  type : ParamType
  nonBlank : Bool
  optional : Bool
  default : Option Term
  span : Text.Span
deriving DecidableEq, Repr, Inhabited

namespace Parameter

def isOmittable (p : Parameter) : Bool := p.optional || p.default.isSome

def render (p : Parameter) : String :=
  (if p.nonBlank then "! " else "") ++ (if p.optional then "? " else "") ++
  (if p.type = .resource then "" else p.type.render ++ " ") ++ "?" ++ p.name ++
  (match p.default with
    | some value => " = " ++ value.render
    | none => "")

end Parameter

structure Pattern where
  subject : Argument
  predicate : Argument
  object : Argument
deriving Repr, Inhabited

inductive Body where
  | statement (pattern : Pattern)
  | crossProduct
  | calls (calls : List Call)
deriving Repr, Inhabited

structure Template where
  iri : Iri
  parameters : List Parameter
  body : Body
  span : Text.Span
deriving Repr, Inhabited

namespace Template

-- Base templates have no calls to expand.
def isBase (t : Template) : Bool :=
  match t.body with
  | .calls _ => false
  | _ => true

def arity (t : Template) : Nat := t.parameters.length

-- The fewest arguments that a call may pass: those up to the last parameter that may not be left
-- out.
def minArity (t : Template) : Nat :=
  (t.parameters.reverse.dropWhile Parameter.isOmittable).length

def parameter? (t : Template) (name : String) : Option Parameter :=
  t.parameters.find? fun p => p.name = name

def calls (t : Template) : List Call :=
  match t.body with
  | .calls calls => calls
  | _ => []

def dependencies (t : Template) : List Iri :=
  t.calls.foldl (fun found call =>
    if call.template ∈ found then found else found ++ [call.template]) []

def signature (t : Template) : String :=
  if t.parameters.isEmpty then t.iri.render ++ "[ ]"
  else t.iri.render ++ "[ " ++ Text.join ", " (t.parameters.map Parameter.render) ++ " ]"

end Template

end Stottr

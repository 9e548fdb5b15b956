import Stottr.Template

namespace Stottr

inductive Mismatch where
  | expectedIri (found : Term.Kind)
  | expectedLiteral (found : Term.Kind)
  | wrongDatatype (expected found : Iri)
  | expectedList (found : Term.Kind)
  | unexpectedList
  | emptyList
  | noneNotAllowed
  | blankNotAllowed
  | directCrossCall
deriving DecidableEq, Repr

def Mismatch.message : Mismatch → String
  | .expectedIri found => "expected an IRI but got a " ++ found.name
  | .expectedLiteral found => "expected a literal but got a " ++ found.name
  | .wrongDatatype expected found =>
    "expected a literal with datatype " ++ expected.render ++ " but got " ++ found.render
  | .expectedList found => "expected a list but got a " ++ found.name
  | .unexpectedList => "expected a single term but got a list"
  | .emptyList => "this parameter is a non-empty list, so it cannot be bound to an empty list"
  | .noneNotAllowed => "this parameter is not optional, so it cannot be bound to ottr:none"
  | .blankNotAllowed => "this parameter is non blank, so it cannot be bound to a blank node"
  | .directCrossCall =>
    "the cross-product primitive can only be used through an expansion mode"

def firstFailure {α ε : Type} (check : α → Except ε Unit) : List α → Except ε Unit
  | [] => .ok ()
  | a :: rest =>
    match check a with
    | .ok () => firstFailure check rest
    | .error e => .error e

namespace ParamType

-- Blank nodes pass as IRIs, and only the non-blank mark keeps them out.
def checkSingle (type : ParamType) (value : Term) : Except Mismatch Unit :=
  match type, value with
  | _, .list _ => .error .unexpectedList
  | .resource, _ => .ok ()
  | .iri, .iri _ | .iri, .blank _ => .ok ()
  | .iri, other => .error (.expectedIri other.kind)
  | .literal, .literal _ => .ok ()
  | .literal, other => .error (.expectedLiteral other.kind)
  | .datatype expected, .literal value =>
    if value.datatype = expected then .ok ()
    else .error (.wrongDatatype expected value.datatype)
  | .datatype _, other => .error (.expectedLiteral other.kind)
  | .list _, other | .nonEmptyList _, other => .error (.expectedList other.kind)

-- Whether a value belongs to a type; a list reports the first member that does not.
def check : ParamType → Term → Except Mismatch Unit
  | .list element, .list items =>
    firstFailure element.check (items.filter (!·.isNone))
  | .nonEmptyList element, .list items =>
    if items.isEmpty then .error .emptyList
    else firstFailure element.check (items.filter (!·.isNone))
  | type, value => type.checkSingle value

end ParamType

def Parameter.check (p : Parameter) (value : Term) : Except Mismatch Unit :=
  if value.isNone then
    if p.optional then .ok () else .error .noneNotAllowed
  else if p.nonBlank ∧ value.hasBlank then .error .blankNotAllowed
  else p.type.check value

end Stottr

import Stottr.Document.Error

namespace Stottr

inductive Severity where
  | error
  | warning
  | info
deriving DecidableEq, Repr

def Severity.name : Severity → String
  | .error => "error"
  | .warning => "warning"
  | .info => "info"

inductive Concern where
  | lexical
  | unexpectedToken
  | malformedParameter
  | duplicateParameter
  | undeclaredVariable
  | unresolvedPrefix
  | invalidTerm
  | nonGroundInstance
  | invalidExpansion
  | redefinition
  | danglingReference
  | unknownTemplate
  | arity
  | type
  | cycle
  | depthLimit
deriving DecidableEq, Repr

structure Diagnostic where
  severity : Severity
  concern : Concern
  message : String
  place : Option Text.Place
deriving DecidableEq, Repr

namespace Diagnostic

def error (concern : Concern) (message : String) : Diagnostic :=
  ⟨.error, concern, message, none⟩

def warning (concern : Concern) (message : String) : Diagnostic :=
  ⟨.warning, concern, message, none⟩

def info (concern : Concern) (message : String) : Diagnostic := ⟨.info, concern, message, none⟩

def placed (d : Diagnostic) (place : Text.Place) : Diagnostic := { d with place := some place }

-- Names the text that the diagnostic came from. Without a place in it only the name is known.
def inSource (d : Diagnostic) (source : String) : Diagnostic :=
  let place := d.place.getD (.ofCoordinates 0 0 0)
  { d with place := some (place.inSource source) }

def isError (d : Diagnostic) : Bool := d.severity = .error

def isWarning (d : Diagnostic) : Bool := d.severity = .warning

-- Lines count from one, so a place on line zero is not shown.
def header (d : Diagnostic) : String :=
  match d.place with
  | none => ""
  | some place =>
    if 0 < place.line then place.describe ++ ": "
    else match place.source with
      | some source => source ++ ": "
      | none => ""

def render (d : Diagnostic) : String := d.header ++ d.severity.name ++ ": " ++ d.message

end Diagnostic

def ParseFault.concern : ParseFault → Concern
  | .malformedParameter _ => .malformedParameter
  | .duplicateParameter _ => .duplicateParameter
  | .undeclaredVariable _ => .undeclaredVariable
  | .unresolvedPrefix _ => .unresolvedPrefix
  | .unexpectedToken _ _ => .unexpectedToken
  | .invalidTerm _ => .invalidTerm
  | .notGround _ => .nonGroundInstance
  | .missingListExpansion _ | .expansionWithoutMode => .invalidExpansion

namespace SyntaxError

def concern : SyntaxError → Concern
  | .lexical _ => .lexical
  | .parse error => error.fault.concern

def bareMessage : SyntaxError → String
  | .lexical error => error.fault.message
  | .parse error => error.fault.message

def diagnostic (e : SyntaxError) (source : String) : Diagnostic :=
  ((Diagnostic.error e.concern e.bareMessage).placed e.place).inSource source

end SyntaxError

end Stottr

import Stottr.Diagnostic
import Stottr.Typing

namespace Stottr

inductive ExpansionFault where
  | unknownTemplate (template : Iri)
  | arity (template : Iri) (least most given : Nat)
  -- Without a parameter the call as a whole is rejected.
  | mismatch (template : Iri) (parameter : Option String) (value : Option Term) (reason : Mismatch)
  | cycle (path : List Iri)
  | depthLimit (limit : Nat) (template : Iri)
deriving DecidableEq, Repr

namespace ExpansionFault

def message : ExpansionFault → String
  | .unknownTemplate template => "unknown template " ++ template.render
  | .arity template least most given =>
    "template " ++ template.render ++ " takes " ++ toString most ++ " argument(s), " ++
      toString least ++ " required, but got " ++ toString given
  | .mismatch template (some parameter) (some value) reason =>
    "invalid argument " ++ value.render ++ " for parameter ?" ++ parameter ++ " of " ++
      template.render ++ ": " ++ reason.message
  | .mismatch template _ _ reason =>
    "invalid call of " ++ template.render ++ ": " ++ reason.message
  | .cycle path => "cyclic template call: " ++ Text.join " -> " (path.map Iri.render)
  | .depthLimit limit template =>
    "expansion depth limit of " ++ toString limit ++ " exceeded at " ++ template.render

def concern : ExpansionFault → Concern
  | .unknownTemplate _ => .unknownTemplate
  | .arity _ _ _ _ => .arity
  | .mismatch _ _ _ _ => .type
  | .cycle _ => .cycle
  | .depthLimit _ _ => .depthLimit

end ExpansionFault

structure ExpansionError where
  fault : ExpansionFault
  span : Text.Span
deriving DecidableEq, Repr

namespace ExpansionError

def message (e : ExpansionError) : String := e.fault.message

-- Calls that no text made have no place.
def diagnostic (e : ExpansionError) : Diagnostic :=
  let d := Diagnostic.error e.fault.concern e.message
  if 0 < e.span.line then d.placed e.span.place else d

end ExpansionError

end Stottr

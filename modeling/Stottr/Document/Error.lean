import Stottr.Token
import Stottr.Template.Argument

namespace Stottr

inductive Expected where
  | token (kind : TokenKind)
  -- Another item of a list, or its end.
  | commaOr (close : TokenKind)
  | templateName
  | term
  | prefixName
  | namespaceIri
  | expansionMode
deriving DecidableEq, Repr

def Expected.describe : Expected → String
  | .token kind => kind.describe
  | .commaOr close => close.describe ++ " or ','"
  | .templateName => "a template IRI"
  | .term => "a term"
  | .prefixName => "a prefix name such as 'ex:'"
  | .namespaceIri => "a namespace IRI"
  | .expansionMode => "'cross', 'zipMin' or 'zipMax'"

def describeFound : Option TokenKind → String
  | some kind => kind.describe
  | none => TokenStream.describeStop

inductive ParameterFault where
  | repeatedModifier
  | missingVariable (found : Option TokenKind)
  | missingType (found : Option TokenKind)
  | unknownType (name : Iri)
  | variableDefault
deriving DecidableEq, Repr

def ParameterFault.message : ParameterFault → String
  | .repeatedModifier => "repeated modifier"
  | .missingVariable found => "expected a parameter variable, found " ++ describeFound found
  | .missingType found => "expected a type, found " ++ describeFound found
  | .unknownType name => "unknown parameter type " ++ name.render
  | .variableDefault => "default value must be a constant term"

inductive Unground where
  | variable
  | expansion
deriving DecidableEq, Repr

def Unground.describe : Unground → String
  | .variable => "a variable"
  | .expansion => "'++'"

inductive ParseFault where
  | malformedParameter (fault : ParameterFault)
  | duplicateParameter (name : String)
  | undeclaredVariable (name : String)
  | unresolvedPrefix (label : String)
  | unexpectedToken (expected : Expected) (found : Option TokenKind)
  | invalidTerm (error : TermError)
  | notGround (part : Unground)
  | missingListExpansion (mode : ExpansionMode)
  | expansionWithoutMode
deriving DecidableEq, Repr

def ParseFault.message : ParseFault → String
  | .malformedParameter fault => "malformed parameter: " ++ fault.message
  | .duplicateParameter name => "duplicate parameter ?" ++ name
  | .undeclaredVariable name => "undeclared variable ?" ++ name
  | .unresolvedPrefix label => "unresolved prefix '" ++ label ++ ":'"
  | .unexpectedToken expected found =>
    "expected " ++ expected.describe ++ ", found " ++ describeFound found
  | .invalidTerm error => "invalid term: " ++ error.message
  | .notGround part => part.describe ++ " is not allowed in a top-level instance"
  | .missingListExpansion mode =>
    "expansion mode '" ++ mode.keyword ++ "' needs at least one '++' argument"
  | .expansionWithoutMode => "'++' argument without an expansion mode"

structure ParseError where
  fault : ParseFault
  line : Nat
  column : Nat
deriving DecidableEq, Repr

def ParseError.message (e : ParseError) : String :=
  e.fault.message ++ " at line " ++ toString e.line ++ ", column " ++ toString e.column

inductive SyntaxError where
  | lexical (error : LexError)
  | parse (error : ParseError)
deriving DecidableEq, Repr

namespace SyntaxError

def message : SyntaxError → String
  | .lexical error => error.message
  | .parse error => error.message

-- Parse errors are placed by line and column alone.
def place : SyntaxError → Text.Place
  | .lexical error =>
    .ofCoordinates error.position.line error.position.column error.position.offset
  | .parse error => .ofCoordinates error.line error.column 0

def report : List SyntaxError → String
  | [single] => single.message
  | errors =>
    toString errors.length ++ " syntax errors" ++
      String.join (errors.map fun e => "\n  " ++ e.message)

end SyntaxError

end Stottr

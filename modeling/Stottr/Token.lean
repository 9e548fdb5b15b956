import Stottr.Text.Position

namespace Stottr

-- An IRI as it is written: in full, or by a prefix that has not been looked up yet.
inductive WrittenIri where
  | full (text : String)
  | prefixed (label name : String)
deriving DecidableEq, Repr

def WrittenIri.describe : WrittenIri → String
  | .full text => "<" ++ text ++ ">"
  | .prefixed label name => label ++ ":" ++ name

inductive LiteralTag where
  | language (tag : String)
  | datatype (name : WrittenIri)
deriving DecidableEq, Repr

inductive TokenKind where
  | prefixKeyword
  | iri (name : WrittenIri)
  | blankNode (label : String)
  | literal (lexical : String) (tag : Option LiteralTag)
  | integer (digits : String)
  | decimal (digits : String)
  | variable (name : String)
  | word (word : String)
  | listType
  | nonEmptyListType
  | openBracket
  | closeBracket
  | openParen
  | closeParen
  | openBrace
  | closeBrace
  | comma
  | dot
  | doubleColon
  | pipe
  | equals
  | bang
  | question
  | closeAngle
  | plusPlus
deriving DecidableEq, Repr

namespace TokenKind

def describe : TokenKind → String
  | .prefixKeyword => "'@prefix'"
  | .iri name => "IRI " ++ name.describe
  | .blankNode label => "blank node _:" ++ label
  | .literal lexical _ => "literal \"" ++ lexical ++ "\""
  | .integer digits | .decimal digits => "number " ++ digits
  | .variable name => "variable ?" ++ name
  | .word text => "'" ++ text ++ "'"
  | .listType => "'List<'"
  | .nonEmptyListType => "'NEList<'"
  | .openBracket => "'['"
  | .closeBracket => "']'"
  | .openParen => "'('"
  | .closeParen => "')'"
  | .openBrace => "'\x7b'"
  | .closeBrace => "'\x7d'"
  | .comma => "','"
  | .dot => "'.'"
  | .doubleColon => "'::'"
  | .pipe => "'|'"
  | .equals => "'='"
  | .bang => "'!'"
  | .question => "'?'"
  | .closeAngle => "'>'"
  | .plusPlus => "'++'"

end TokenKind

structure Token where
  kind : TokenKind
  span : Text.Span
deriving DecidableEq, Repr

structure TokenStream where
  tokens : List Token
  stop : Text.Span
deriving DecidableEq, Repr

def TokenStream.describeStop : String := "end of input"

inductive LexFault where
  | unterminatedLiteral
  | unterminatedIri
  | invalidEscape
  | unexpectedChar (c : Char)
deriving DecidableEq, Repr

def LexFault.message : LexFault → String
  | .unterminatedLiteral => "unterminated literal"
  | .unterminatedIri => "unterminated IRI"
  | .invalidEscape => "invalid escape sequence in literal"
  | .unexpectedChar c => "unexpected character '" ++ String.singleton c ++ "'"

structure LexError where
  fault : LexFault
  position : Text.Position
deriving DecidableEq, Repr

namespace LexError

def message (e : LexError) : String :=
  e.fault.message ++ " at line " ++ toString e.position.line ++
    ", column " ++ toString e.position.column

def character (e : LexError) : Char :=
  match e.fault with
  | .unterminatedLiteral | .invalidEscape => '"'
  | .unterminatedIri => '<'
  | .unexpectedChar c => c

end LexError

end Stottr

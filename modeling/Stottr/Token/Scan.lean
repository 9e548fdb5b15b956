import Stottr.Token.Quoted

namespace Stottr.Token

open Text

-- A token, and how many characters belong to it after the first.
structure Lexeme where
  kind : TokenKind
  more : Nat
deriving DecidableEq, Repr

-- Why there is no token, and how many characters stand before the fault.
structure Misread where
  fault : LexFault
  before : Nat
deriving DecidableEq, Repr

def literalLexeme (rest : List Char) : Except Misread Lexeme :=
  match quotedBody? rest with
  | none =>
    .error ⟨if closesOnLine rest then .invalidEscape else .unterminatedLiteral, 0⟩
  | some (body, width) =>
    let lexical := String.ofList body
    match rest.drop width with
    | '@' :: tag =>
      match languageWidth? tag with
      | some more =>
        let language := LiteralTag.language (String.ofList (tag.take more))
        .ok ⟨.literal lexical (some language), width + 1 + more⟩
      | none => .error ⟨.unexpectedChar '@', width + 1⟩
    | '^' :: '^' :: tag =>
      match datatype? tag with
      | some (name, more) => .ok ⟨.literal lexical (some (.datatype name)), width + 2 + more⟩
      | none => .error ⟨.unexpectedChar '^', width + 1⟩
    | _ => .ok ⟨.literal lexical none, width⟩

-- An at sign begins nothing but this keyword, which no name character may continue.
def keywordLexeme? (rest : List Char) : Option Lexeme :=
  match rest with
  | 'p' :: 'r' :: 'e' :: 'f' :: 'i' :: 'x' :: after =>
    if (after.head?.map isNameChar).getD false then none else some ⟨.prefixKeyword, 6⟩
  | _ => none

def variableLexeme? (rest : List Char) : Option Lexeme :=
  match nameWidth? rest with
  | none => none
  | some 0 => some ⟨.question, 0⟩
  | some width => some ⟨.variable (String.ofList (rest.take width)), width⟩

def blankLexeme? (rest : List Char) : Option Lexeme :=
  match nameWidth? rest with
  | none | some 0 => none
  | some width => some ⟨.blankNode (String.ofList (rest.take width)), width + 1⟩

def numberLexeme (c : Char) (rest : List Char) : Lexeme :=
  let whole := (rest.takeWhile Char.isDigit).length
  match rest.drop whole with
  | '.' :: fraction =>
    match (fraction.takeWhile Char.isDigit).length with
    | 0 => ⟨.integer (String.ofList (c :: rest.take whole)), whole⟩
    | places =>
      let more := whole + 1 + places
      ⟨.decimal (String.ofList (c :: rest.take more)), more⟩
  | _ => ⟨.integer (String.ofList (c :: rest.take whole)), whole⟩

def wordLexeme? (cs : List Char) : Option Lexeme :=
  match nameWidth? cs with
  | none => none
  | some width =>
    let word := String.ofList (cs.take width)
    match width, cs.drop width with
    | 0, ':' :: ':' :: _ => none
    | more + 1, ':' :: ':' :: _ => some ⟨.word word, more⟩
    | _, ':' :: _ => (prefixedName? cs).map fun (name, total) => ⟨.iri name, total - 1⟩
    | 0, _ => none
    | more + 1, '<' :: _ =>
      if word = "List" then some ⟨.listType, more + 1⟩
      else if word = "NEList" then some ⟨.nonEmptyListType, more + 1⟩
      else some ⟨.word word, more⟩
    | more + 1, _ => some ⟨.word word, more⟩

def punctuation? (c : Char) (rest : List Char) : Option Lexeme :=
  match c, rest with
  | ':', ':' :: _ => some ⟨.doubleColon, 1⟩
  | '+', '+' :: _ => some ⟨.plusPlus, 1⟩
  | '[', _ => some ⟨.openBracket, 0⟩
  | ']', _ => some ⟨.closeBracket, 0⟩
  | '(', _ => some ⟨.openParen, 0⟩
  | ')', _ => some ⟨.closeParen, 0⟩
  | '\x7b', _ => some ⟨.openBrace, 0⟩
  | '\x7d', _ => some ⟨.closeBrace, 0⟩
  | ',', _ => some ⟨.comma, 0⟩
  | '.', _ => some ⟨.dot, 0⟩
  | '|', _ => some ⟨.pipe, 0⟩
  | '=', _ => some ⟨.equals, 0⟩
  | '!', _ => some ⟨.bang, 0⟩
  | '>', _ => some ⟨.closeAngle, 0⟩
  | _, _ => none

-- The tokens whose only fault is their first character.
def plainLexeme? (c : Char) (rest : List Char) : Option Lexeme :=
  let second := rest.head?
  if c = '@' then keywordLexeme? rest
  else if c = '?' then variableLexeme? rest
  else if c = '_' ∧ second = some ':' then blankLexeme? (rest.drop 1)
  else if (c = '+' ∨ c = '-') ∧ (second.map Char.isDigit).getD false then
    some (numberLexeme c rest)
  else if c.isDigit then some (numberLexeme c rest)
  else if c = ':' ∧ second ≠ some ':' then wordLexeme? (c :: rest)
  else if isAlphabetic c ∨ c = '_' then wordLexeme? (c :: rest)
  else punctuation? c rest

def lexeme (c : Char) (rest : List Char) : Except Misread Lexeme :=
  if c = '"' then literalLexeme rest
  else if c = '<' then
    match bracketed? rest with
    | some (name, width) => .ok ⟨.iri name, width⟩
    | none => .error ⟨.unterminatedIri, 0⟩
  else match plainLexeme? c rest with
    | some found => .ok found
    | none => .error ⟨.unexpectedChar c, 0⟩

def isSpace (c : Char) : Bool := c = ' ' || c = '\t' || c = '\r' || c = '\n'

def isLineEnd (c : Char) : Bool := c = '\r' || c = '\n'

-- The width of a comment, after its mark. A comment runs to the end of its line or of the text; a
-- carriage return that no line feed follows ends neither, and leaves no comment.
def commentWidth? (cs : List Char) : Option Nat :=
  let width := (cs.takeWhile (!isLineEnd ·)).length
  match cs.drop width with
  | [] => some width
  | '\n' :: _ => some width
  | '\r' :: '\n' :: _ => some width
  | _ => none

def triviaWidth (cs : List Char) : Nat :=
  match cs with
  | [] => 0
  | c :: rest =>
    if isSpace c then triviaWidth rest + 1
    else if c = '#' then
      match commentWidth? rest with
      | some width => triviaWidth (rest.drop width) + width + 1
      | none => 0
    else 0
termination_by cs.length
decreasing_by all_goals simp only [List.length_drop, List.length_cons]; omega

def scanFrom (p : Position) (cs : List Char) : Except LexError TokenStream :=
  let width := triviaWidth cs
  let first := p.after (cs.take width)
  match at_token : cs.drop width with
  | [] => .ok ⟨[], Span.between first first⟩
  | c :: rest =>
    match lexeme c rest with
    | .error misread => .error ⟨misread.fault, first.after ((c :: rest).take misread.before)⟩
    | .ok found =>
      let last := first.after (c :: rest.take found.more)
      have shorter : (rest.drop found.more).length < cs.length := by
        have tail := congrArg List.length at_token
        simp only [List.length_drop, List.length_cons] at tail ⊢
        omega
      match scanFrom last (rest.drop found.more) with
      | .error e => .error e
      | .ok stream =>
        .ok ⟨⟨found.kind, Span.between first last⟩ :: stream.tokens, stream.stop⟩
termination_by cs.length
decreasing_by exact shorter

def scan (text : String) : Except LexError TokenStream :=
  scanFrom Position.start text.toList

end Stottr.Token

import Stottr.Token.Name

namespace Stottr.Token

def unescape? : Char → Option Char
  | 'n' => some '\n'
  | 'r' => some '\r'
  | 't' => some '\t'
  | '\\' => some '\\'
  | '"' => some '"'
  | _ => none

-- The lexical form up to the closing quote, with the characters read. A literal stays on its line,
-- and a backslash stands only before a character that it escapes.
def quotedBody? : List Char → Option (List Char × Nat)
  | [] => none
  | '"' :: _ => some ([], 1)
  | '\\' :: [] => none
  | '\\' :: c :: rest =>
    match unescape? c, quotedBody? rest with
    | some d, some (body, width) => some (d :: body, width + 2)
    | _, _ => none
  | c :: rest =>
    if c = '\n' ∨ c = '\r' then none
    else match quotedBody? rest with
      | some (body, width) => some (c :: body, width + 1)
      | none => none

-- Whether a quote closes the literal on its own line, whatever its escapes.
def closesOnLine : List Char → Bool
  | [] => false
  | '"' :: _ => true
  | '\\' :: [] => false
  | '\\' :: _ :: rest => closesOnLine rest
  | c :: rest => if c = '\n' ∨ c = '\r' then false else closesOnLine rest

def subtagsWidth : List Char → Nat
  | [] => 0
  | c :: rest =>
    if c.isAlphanum then subtagsWidth rest + 1
    else match c, rest with
      | '-', d :: _ => if d.isAlphanum then subtagsWidth rest + 1 else 0
      | _, _ => 0

def languageWidth? (cs : List Char) : Option Nat :=
  match (cs.takeWhile Char.isAlpha).length with
  | 0 => none
  | letters =>
    match cs.drop letters with
    | '-' :: rest => some (letters + subtagsWidth ('-' :: rest))
    | _ => some letters

def datatype? : List Char → Option (WrittenIri × Nat)
  | '<' :: rest => (bracketed? rest).map fun (name, width) => (name, width + 1)
  | cs => prefixedName? cs

end Stottr.Token

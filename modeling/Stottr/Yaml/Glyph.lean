namespace Stottr.Yaml

structure Glyph where
  char : Char
  line : Nat
  column : Nat
  -- How many octets stand before it on its line.
  offset : Nat
deriving DecidableEq, Repr

-- Every end of line is the same character, except that separators of lines and of paragraphs stay
-- what they are.
def uniform : List Char → List Char
  | [] => []
  | '\r' :: '\n' :: rest => '\n' :: uniform rest
  | c :: rest => (if c = '\r' ∨ c = '\u0085' then '\n' else c) :: uniform rest

def isBreak (c : Char) : Bool := c = '\n' || c = '\u2028' || c = '\u2029'

def place (line column offset : Nat) : List Char → List Glyph
  | [] => []
  | c :: cs =>
    ⟨c, line, column, offset⟩ ::
      if isBreak c then place (line + 1) 0 0 cs
      else place line (column + 1) (offset + c.utf8Size) cs

def isReadable (c : Char) : Bool :=
  c = '\t' || c = '\n' || ('\x20' ≤ c && c ≤ '\x7e') ||
    ('\u00a0' ≤ c && c ≠ '\ufffe' && c ≠ '\uffff')

def glyphs? (text : String) : Option (List Glyph) :=
  let chars := uniform text.toList
  if chars.all isReadable then some (place 0 0 0 chars) else none

def isBlank (c : Char) : Bool := c = ' ' || c = '\t'

def atGap : List Glyph → Bool
  | [] => true
  | g :: _ => isBlank g.char || isBreak g.char

def startsWith (c : Char) : List Glyph → Bool
  | [] => false
  | g :: _ => g.char = c

def skipBlanks (gs : List Glyph) : List Glyph := gs.dropWhile fun g => isBlank g.char

def endsLine (gs : List Glyph) : Bool :=
  match skipBlanks gs with
  | [] => true
  | g :: _ => isBreak g.char || g.char = '#'

def nextLine (gs : List Glyph) : List Glyph := (gs.dropWhile fun g => !isBreak g.char).drop 1

-- A character that stands three times at the beginning of a line, and nothing beside it.
def isMark (c : Char) : List Glyph → Bool
  | ⟨a, _, 0, _⟩ :: ⟨b, _, _, _⟩ :: ⟨d, _, _, _⟩ :: rest => a = c && b = c && d = c && atGap rest
  | _ => false

def atBoundary (gs : List Glyph) : Bool := isMark '-' gs || isMark '.' gs

def isWordChar (c : Char) : Bool := c.isAlphanum || c = '_' || c = '-'

def word (gs : List Glyph) : List Char × List Glyph :=
  let chars := (gs.takeWhile fun g => isWordChar g.char).map Glyph.char
  (chars, gs.drop chars.length)

-- The next place where something is written, and whether a key may begin there. Blanks, ends of
-- lines and comments lie before it. A tab does not indent a line, except between braces, where the
-- layout is free. A mark of the byte order has no meaning at the beginning of a line.
def skip (free fresh comment : Bool) : List Glyph → Bool × List Glyph
  | [] => (fresh, [])
  | g :: rest =>
    if isBreak g.char then skip free (fresh || !free) false rest
    else if comment then skip free fresh true rest
    else if g.char = ' ' ∨ (g.char = '\t' ∧ (free ∨ !fresh)) then skip free fresh false rest
    else if g.char = '\ufeff' ∧ g.column = 0 then skip free fresh false rest
    else if g.char = '#' then skip free fresh true rest
    else (fresh, g :: rest)

end Stottr.Yaml

import Stottr.Yaml.Glyph

namespace Stottr.Yaml

inductive Style where
  | plain
  | quoted
  | literal
  | folded
deriving DecidableEq, Repr

structure Scalar where
  text : String
  style : Style
  tag : Option String
deriving DecidableEq, Repr

def Scalar.empty : Scalar := ⟨"", .plain, none⟩

-- White space between two parts of a scalar, which counts only if another part follows.
structure Gap where
  blanks : List Char
  breaks : List Char
  -- The end of a line was escaped.
  joined : Bool

namespace Gap

def none : Gap := ⟨[], [], false⟩

def isBroken (gap : Gap) : Bool := !gap.breaks.isEmpty

def isEmpty (gap : Gap) : Bool := gap.blanks.isEmpty && !gap.isBroken

def blank (gap : Gap) (c : Char) : Gap :=
  if gap.isBroken || gap.joined then gap else { gap with blanks := gap.blanks ++ [c] }

def newLine (gap : Gap) (c : Char) : Gap := { gap with breaks := gap.breaks ++ [c] }

def fold (gap : Gap) : List Char :=
  if gap.joined then gap.breaks
  else match gap.breaks with
    | [] => gap.blanks
    | ['\n'] => [' ']
    | '\n' :: more => more
    | breaks => breaks

end Gap

structure Piece where
  text : List Char
  fresh : Bool
  rest : List Glyph

def Piece.behind (front : List Char) (p : Piece) : Piece := { p with text := front ++ p.text }

def flowIndicators : List Char := [',', '[', ']', '\x7b', '\x7d']

-- A character that ends a plain scalar, given what follows it.
def endsPlain (free : Bool) (c : Char) (rest : List Glyph) : Bool :=
  (c = ':' && atGap rest) || (free && flowIndicators.contains c)

-- A colon between braces that neither ends a plain scalar nor belongs to one.
def isStray (free : Bool) (c : Char) (rest : List Glyph) : Bool :=
  free && c = ':' && ('?' :: flowIndicators).any fun d => startsWith d rest

-- Whether white space before the character was the last of a plain scalar.
def endsAfterGap (free : Bool) (floor : Nat) (gs : List Glyph) : Bool :=
  match gs with
  | [] => true
  | g :: _ => atBoundary gs || g.char = '#' || (!free && decide (g.column < floor))

-- A plain scalar. It goes on over the lines that are indented to the floor, and ends before a
-- comment; reading goes on after the white space behind it. A tab does not indent a line.
def plain (free : Bool) (floor : Nat) (gap : Gap) : List Glyph → Option Piece
  | [] => some ⟨[], gap.isBroken, []⟩
  | g :: rest =>
    if isBreak g.char then plain free floor (gap.newLine g.char) rest
    else if isBlank g.char then
      if g.char = '\t' ∧ gap.isBroken ∧ g.column < floor then none
      else plain free floor (gap.blank g.char) rest
    else if !gap.isEmpty && endsAfterGap free floor (g :: rest) then
      some ⟨[], gap.isBroken, g :: rest⟩
    else if isStray free g.char rest then none
    else if endsPlain free g.char rest then some ⟨[], gap.isBroken, g :: rest⟩
    else (plain free floor .none rest).map (Piece.behind (gap.fold ++ [g.char]))

def plainIndicators : List Char :=
  ['-', '?', ':', ',', '[', ']', '\x7b', '\x7d', '#', '&', '*', '!', '|', '>', '\'', '"', '%', '@',
    '\x60']

def startsPlain (free : Bool) (gs : List Glyph) : Bool :=
  match gs with
  | [] => false
  | g :: rest =>
    (!atGap gs && !plainIndicators.contains g.char) ||
    (g.char = '-' && !atGap rest) ||
    (!free && (g.char = '?' || g.char = ':') && !atGap rest)

def singleQuoted (gap : Gap) : List Glyph → Option Piece
  | [] => none
  | g :: rest =>
    if isBreak g.char then singleQuoted (gap.newLine g.char) rest
    else if isBlank g.char then singleQuoted (gap.blank g.char) rest
    else if atBoundary (g :: rest) then none
    else if g.char ≠ '\'' then
      (singleQuoted .none rest).map (Piece.behind (gap.fold ++ [g.char]))
    else match rest with
      | ⟨'\'', _, _, _⟩ :: rest => (singleQuoted .none rest).map (Piece.behind (gap.fold ++ ['\'']))
      | rest => some ⟨gap.fold, false, rest⟩

def escaped? (c : Char) : Option Char :=
  match c with
  | '0' => some '\x00'
  | 'a' => some '\x07'
  | 'b' => some '\x08'
  | 't' | '\t' => some '\t'
  | 'n' => some '\n'
  | 'v' => some '\x0b'
  | 'f' => some '\x0c'
  | 'r' => some '\r'
  | 'e' => some '\x1b'
  | ' ' => some ' '
  | '"' => some '"'
  | '/' => some '/'
  | '\\' => some '\\'
  | 'N' => some '\u0085'
  | '_' => some '\u00a0'
  | 'L' => some '\u2028'
  | 'P' => some '\u2029'
  | _ => none

def hexValue? (c : Char) : Option Nat :=
  if '0' ≤ c ∧ c ≤ '9' then some (c.toNat - '0'.toNat)
  else if 'a' ≤ c ∧ c ≤ 'f' then some (c.toNat - 'a'.toNat + 10)
  else if 'A' ≤ c ∧ c ≤ 'F' then some (c.toNat - 'A'.toNat + 10)
  else none

def charOfHex? (digits : List Char) : Option Char :=
  match digits.mapM hexValue? with
  | none => none
  | some values =>
    let code := values.foldl (fun n d => 16 * n + d) 0
    if code.isValidChar then some (Char.ofNat code) else none

def hexDigits (c : Char) : Nat :=
  match c with
  | 'x' => 2
  | 'u' => 4
  | 'U' => 8
  | _ => 0

def doubleQuoted (gap : Gap) (gs : List Glyph) : Option Piece :=
  match gs with
  | [] => none
  | g :: rest =>
    if isBreak g.char then doubleQuoted (gap.newLine g.char) rest
    else if isBlank g.char then doubleQuoted (gap.blank g.char) rest
    else if atBoundary (g :: rest) then none
    else if g.char = '"' then some ⟨gap.fold, false, rest⟩
    else if g.char ≠ '\\' then
      (doubleQuoted .none rest).map (Piece.behind (gap.fold ++ [g.char]))
    else match rest with
      | [] => none
      | e :: rest =>
        if isBreak e.char then (doubleQuoted ⟨[], [], true⟩ rest).map (Piece.behind gap.fold)
        else match hexDigits e.char with
          | 0 =>
            match escaped? e.char with
            | none => none
            | some c => (doubleQuoted .none rest).map (Piece.behind (gap.fold ++ [c]))
          | count =>
            if rest.length < count then none
            else match charOfHex? ((rest.take count).map Glyph.char) with
              | none => none
              | some c =>
                (doubleQuoted .none (rest.drop count)).map (Piece.behind (gap.fold ++ [c]))
termination_by gs.length
decreasing_by all_goals simp only [List.length_drop, List.length_cons]; omega

end Stottr.Yaml

import Stottr.Yaml.Scalar

namespace Stottr.Yaml.BlockScalar

inductive Chomp where
  | strip
  | clip
  | keep
deriving DecidableEq, Repr

structure Header where
  chomp : Chomp
  -- The indentation of the lines below that of the place where the scalar stands.
  indent : Option Nat

def chomp? (c : Char) : Option Chomp :=
  if c = '+' then some .keep else if c = '-' then some .strip else none

def indent? (c : Char) : Option Nat :=
  if '1' ≤ c ∧ c ≤ '9' then some (c.toNat - '0'.toNat) else none

def first? (read : Char → Option α) : List Glyph → Option α × List Glyph
  | [] => (none, [])
  | g :: rest =>
    match read g.char with
    | some found => (some found, rest)
    | none => (none, g :: rest)

-- The two parts of a header may stand in either order.
def header (gs : List Glyph) : Header × List Glyph :=
  match first? chomp? gs with
  | (some chomp, rest) =>
    let (indent, rest) := first? indent? rest
    (⟨chomp, indent⟩, rest)
  | (none, rest) =>
    let (indent, rest) := first? indent? rest
    match indent with
    | none => (⟨.clip, none⟩, rest)
    | some n =>
      let (chomp, rest) := first? chomp? rest
      (⟨chomp.getD .clip, some n⟩, rest)

-- The indentation of the lines when the header does not give it: that of the first line that is not
-- blank, or of a longer blank line before it. No tab comes before it is known.
def detect (least : Nat) : List Glyph → Option Nat
  | [] => some least
  | g :: rest =>
    if g.char = ' ' then detect (max least (g.column + 1)) rest
    else if g.char = '\t' then none
    else if isBreak g.char then detect least rest
    else some least

structure Waiting where
  -- That of the last line with a text, if there was such a line.
  ended : List Char
  blankLines : List Char
  -- The last line began with a blank, so it is not folded.
  indented : Bool

namespace Waiting

def none : Waiting := ⟨[], [], false⟩

def before (w : Waiting) (folded : Bool) (c : Char) : List Char :=
  if folded ∧ w.ended = ['\n'] ∧ !w.indented ∧ !isBlank c then
    if w.blankLines.isEmpty then [' '] else w.blankLines
  else w.ended ++ w.blankLines

def chomped (w : Waiting) (chomp : Chomp) : List Char :=
  match chomp with
  | .strip => []
  | .clip => w.ended
  | .keep => w.ended ++ w.blankLines

end Waiting

def lines (folded : Bool) (chomp : Chomp) (indent : Nat) (inside : Bool) (w : Waiting) :
    List Glyph → Option Piece
  | [] => some ⟨w.chomped chomp, true, []⟩
  | g :: rest =>
    if isBreak g.char then
      let w := if inside then { w with ended := [g.char] }
        else { w with blankLines := w.blankLines ++ [g.char] }
      lines folded chomp indent false w rest
    else if inside then
      (lines folded chomp indent true w rest).map (Piece.behind [g.char])
    else if g.column < indent ∧ g.char = ' ' then lines folded chomp indent false w rest
    else if g.column < indent ∧ g.char = '\t' then none
    else if g.column = indent then
      (lines folded chomp indent true ⟨[], [], isBlank g.char⟩ rest).map
        (Piece.behind (w.before folded g.char ++ [g.char]))
    else some ⟨w.chomped chomp, true, g :: rest⟩

def read? (folded : Bool) (floor : Nat) (gs : List Glyph) : Option Piece :=
  let (header, rest) := header gs
  let below := nextLine rest
  let indent := match header.indent with
    | some n => some (floor - 1 + n)
    | none => detect (max floor 1) below
  match indent, endsLine rest with
  | some indent, true => lines folded header.chomp indent false .none below
  | _, _ => none

end Stottr.Yaml.BlockScalar

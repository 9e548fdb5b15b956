import Stottr.Yaml.Token

namespace Stottr.Yaml

structure Start where
  -- How many tokens stand before it.
  before : Nat
  line : Nat
  column : Nat
  offset : Nat
  required : Bool
deriving Repr

-- A colon comes on the line of its key, and not too far behind.
def Start.reaches (start : Start) (g : Glyph) : Bool :=
  start.line = g.line && g.offset ≤ start.offset + 1024

-- A mapping in lines begins with the first of its keys, and that something was a key is known only
-- from the colon behind it. So the place where a key may have begun is kept.
structure Layout where
  -- The columns of the mappings in lines, the innermost of them first.
  columns : List Nat
  start : Option Start
  -- The same for each pair of braces that is open, as it was where the pair began.
  outer : List (Option Start)
  fresh : Bool
  tokens : List Token
deriving Repr

namespace Layout

def initial : Layout := ⟨[], none, [], true, []⟩

-- Between braces lines and columns have no meaning.
def free (l : Layout) : Bool := !l.outer.isEmpty

def floor (l : Layout) : Nat :=
  match l.columns with
  | [] => 0
  | column :: _ => column + 1

def emit (l : Layout) (token : Token) : Layout := { l with tokens := token :: l.tokens }

def insert (l : Layout) (before : Nat) (token : Token) : Layout :=
  let later := l.tokens.length - before
  { l with tokens := l.tokens.take later ++ token :: l.tokens.drop later }

def close (l : Layout) (column : Nat) : Layout :=
  if l.free then l
  else
    let ended := l.columns.takeWhile (column ≤ ·)
    { l with
      columns := l.columns.drop ended.length
      tokens := List.replicate ended.length .blockEnd ++ l.tokens }

def begin (l : Layout) (column before : Nat) : Layout :=
  if l.free ∨ column < l.floor then l
  else { l.insert before .blockMapping with columns := column :: l.columns }

-- Here no key can have begun any more.
def settle? (l : Layout) : Option Layout :=
  match l.start with
  | none => some l
  | some start => if start.required then none else some { l with start := none }

-- What begins with a glyph may turn out to be a key.
def mayStart? (l : Layout) (g : Glyph) : Option Layout :=
  if l.fresh then
    let required := !l.free && l.floor = g.column + 1
    let start := ⟨l.tokens.length, g.line, g.column, g.offset, required⟩
    l.settle?.map fun l => { l with start := some start }
  else some l

def lost (g : Glyph) (start : Start) : Bool := start.required && !start.reaches g

def reach? (l : Layout) (g : Glyph) : Option Layout :=
  let starts := l.start :: l.outer
  if starts.any fun start => start.any (lost g) then none
  else
    some { l with
      start := l.start.filter (·.reaches g)
      outer := l.outer.map fun start => start.filter (·.reaches g) }

def part? (l : Layout) (g : Glyph) (fresh : Bool) (token : Token) : Option Layout :=
  (l.mayStart? g).map fun l => { l.emit token with fresh := fresh }

def sign? (l : Layout) (fresh : Bool) (token : Token) : Option Layout :=
  l.settle?.map fun l => { l.emit token with fresh := fresh }

-- A token between documents, which ends every mapping in lines.
def boundary? (l : Layout) (token : Token) : Option Layout := (l.close 0).sign? false token

def openBrace? (l : Layout) (g : Glyph) : Option Layout :=
  (l.mayStart? g).map fun l =>
    { l.emit .flowMapping with start := none, outer := l.start :: l.outer, fresh := true }

def closeBrace? (l : Layout) : Option Layout :=
  (l.sign? false .flowEnd).map fun l =>
    match l.outer with
    | [] => l
    | start :: outer => { l with start := start, outer := outer }

-- A sign that a node follows. Outside braces it may begin a mapping.
def introduce? (l : Layout) (g : Glyph) (token : Token) : Option Layout :=
  if l.free then l.sign? false token
  else if l.fresh then (l.begin g.column l.tokens.length).sign? true token
  else none

def colon? (l : Layout) (g : Glyph) : Option Layout :=
  match l.start with
  | some start =>
    let l := (l.insert start.before .key).begin start.column start.before
    some { l.emit .value with start := none, fresh := false }
  | none => l.introduce? g .value

def scalar? (l : Layout) (g : Glyph) (style : Style) (piece : Option Piece) :
    Option (Layout × List Glyph) := do
  let piece ← piece
  let l ← l.part? g piece.fresh (.scalar style (String.ofList piece.text))
  some (l, piece.rest)

-- Scalars in lines cannot be keys.
def blockScalar? (l : Layout) (style : Style) (piece : Option Piece) :
    Option (Layout × List Glyph) := do
  let piece ← piece
  let l ← l.sign? piece.fresh (.scalar style (String.ofList piece.text))
  some (l, piece.rest)

def read? (l : Layout) (g : Glyph) (rest : List Glyph) : Option (Layout × List Glyph) :=
  let behind := fun (l : Layout) => (l, rest)
  let opens := l.free || atGap rest
  if g.char = '%' ∧ g.column = 0 then do
    let (token, rest) ← Token.directive? rest
    some (← l.boundary? token, rest)
  else if isMark '-' (g :: rest) then do some (← l.boundary? .documentStart, rest.drop 2)
  else if isMark '.' (g :: rest) then do some (← l.boundary? .documentEnd, rest.drop 2)
  else match g.char, opens with
    | '\x7b', _ => (l.openBrace? g).map behind
    | '\x7d', _ => l.closeBrace?.map behind
    | ',', _ => (l.sign? true .flowEntry).map behind
    | '?', true => (l.introduce? g .key).map behind
    | ':', true => (l.colon? g).map behind
    | '*', _ => do
      let (name, rest) ← Token.anchorName? rest
      some (← l.part? g false (.reference name), rest)
    | '&', _ => do
      let (name, rest) ← Token.anchorName? rest
      some (← l.part? g false (.anchor name), rest)
    | '!', _ => do
      let (tag, rest) ← Tag.read? l.free rest
      some (← l.part? g false (.tag tag), rest)
    | '\'', _ => l.scalar? g .quoted (singleQuoted .none rest)
    | '"', _ => l.scalar? g .quoted (doubleQuoted .none rest)
    | '|', _ =>
      if l.free then none else l.blockScalar? .literal (BlockScalar.read? false l.floor rest)
    | '>', _ =>
      if l.free then none else l.blockScalar? .folded (BlockScalar.read? true l.floor rest)
    | _, _ =>
      if startsPlain l.free (g :: rest) then
        l.scalar? g .plain (plain l.free l.floor .none (g :: rest))
      else none

-- Reads on to the end of the text. Every token takes at least one glyph, so as many steps as there
-- are glyphs will do.
def readAll? : Nat → Layout → List Glyph → Option (List Token)
  | 0, _, _ => none
  | fuel + 1, l, gs =>
    match skip l.free l.fresh false gs with
    | (_, []) => (l.close 0).settle?.map fun l => l.tokens.reverse
    | (fresh, g :: rest) => do
      let l ← { l with fresh := fresh }.reach? g
      let (l, rest) ← (l.close (g.column + 1)).read? g rest
      readAll? fuel l rest

end Layout

def tokens? (text : String) : Option (List Token) := do
  let gs ← glyphs? text
  Layout.readAll? (gs.length + 1) .initial gs

end Stottr.Yaml

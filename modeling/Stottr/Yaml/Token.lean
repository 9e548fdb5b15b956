import Stottr.Yaml.BlockScalar
import Stottr.Yaml.Tag

namespace Stottr.Yaml

-- Some signs of the structure are written, and some follow from the layout. Sequences have no use
-- in settings, and there are no signs for them.
inductive Token where
  | version (major minor : Nat)
  | handle (name text : String)
  | documentStart
  | documentEnd
  | blockMapping
  | blockEnd
  | flowMapping
  | flowEnd
  | flowEntry
  | key
  | value
  | reference (name : String)
  | anchor (name : String)
  | tag (tag : Tag)
  | scalar (style : Style) (text : String)
deriving DecidableEq, Repr

namespace Token

-- What may follow the name of an anchor without a gap.
def anchorStops : List Char := ['?', ':', ',', ']', '\x7d', '%', '@', '\x60']

def anchorName? (gs : List Glyph) : Option (String × List Glyph) :=
  let (name, rest) := word gs
  let closed := atGap rest || anchorStops.any fun c => startsWith c rest
  if name.isEmpty || !closed then none else some (String.ofList name, rest)

def number? (gs : List Glyph) : Option (Nat × List Glyph) :=
  let digits := (gs.takeWhile fun g => g.char.isDigit).map Glyph.char
  if digits.isEmpty || 9 < digits.length then none
  else
    some (digits.foldl (fun n d => 10 * n + (d.toNat - '0'.toNat)) 0, gs.drop digits.length)

def version? (gs : List Glyph) : Option (Token × List Glyph) :=
  match number? gs with
  | some (major, ⟨'.', _, _, _⟩ :: rest) =>
    (number? rest).map fun (minor, rest) => (.version major minor, rest)
  | _ => none

-- The handle of a directive, with its marks. Between two marks or after a single one stands a word.
def handleName? (gs : List Glyph) : Option (String × List Glyph) :=
  match gs with
  | ⟨'!', _, _, _⟩ :: rest =>
    match word rest with
    | (name, ⟨'!', _, _, _⟩ :: rest) => some ("!" ++ String.ofList name ++ "!", rest)
    | ([], rest) => some ("!", rest)
    | _ => none
  | _ => none

def handle? (gs : List Glyph) : Option (Token × List Glyph) :=
  match handleName? gs with
  | some (name, g :: rest) =>
    if isBlank g.char then
      match Tag.text? true (skipBlanks rest) with
      | some (text, rest) => if atGap rest then some (.handle name text, rest) else none
      | none => none
    else none
  | _ => none

def directive? (gs : List Glyph) : Option (Token × List Glyph) :=
  let (name, rest) := word gs
  let found := match String.ofList name, atGap rest with
    | "YAML", true => version? (skipBlanks rest)
    | "TAG", true => handle? (skipBlanks rest)
    | _, _ => none
  match found with
  | some (token, rest) => if endsLine rest then some (token, nextLine rest) else none
  | none => none

end Token

end Stottr.Yaml

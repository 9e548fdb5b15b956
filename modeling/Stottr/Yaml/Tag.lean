import Stottr.Yaml.Scalar

namespace Stottr.Yaml

-- A tag as it is written. One in angle brackets has no handle.
structure Tag where
  handle : String
  suffix : String
deriving DecidableEq, Repr

-- The texts of handles. Where there are several of one handle the first holds.
abbrev Handles := List (String × String)

namespace Tag

def ofNull : String := "tag:yaml.org,2002:null"

def ofBool : String := "tag:yaml.org,2002:bool"

def ofInt : String := "tag:yaml.org,2002:int"

def standardHandles : Handles := [("!", "!"), ("!!", "tag:yaml.org,2002:")]

def expand? (handles : Handles) (tag : Tag) : Option String :=
  if tag.handle = "" then some tag.suffix
  else (handles.lookup tag.handle).map (· ++ tag.suffix)

def following? (octet : Nat) : Option Nat :=
  if octet < 0x80 then some 0
  else if octet < 0xc0 then none
  else if octet < 0xe0 then some 1
  else if octet < 0xf0 then some 2
  else if octet < 0xf8 then some 3
  else none

-- How many octets are still to follow, if this one may come next.
def after? (due octet : Nat) : Option Nat :=
  match due with
  | 0 => following? octet
  | more + 1 => if 0x80 ≤ octet ∧ octet < 0xc0 then some more else none

def isUriChar (wide : Bool) (c : Char) : Bool :=
  isWordChar c || ";/?:@&=+$.!~*'()".toList.contains c || (wide && [',', '[', ']'].contains c)

-- Characters of a tag. Escapes stand for octets, each of which counts as the character with its
-- number, and spell whole characters; `due` is how many octets the present one still lacks.
def uri (wide : Bool) (due : Nat) : List Glyph → Option (List Char × List Glyph)
  | [] => if due = 0 then some ([], []) else none
  | g :: rest =>
    if g.char = '%' then
      match rest with
      | a :: b :: rest =>
        match hexValue? a.char, hexValue? b.char with
        | some high, some low =>
          let octet := 16 * high + low
          match after? due octet with
          | some due => (uri wide due rest).map fun (cs, rest) => (Char.ofNat octet :: cs, rest)
          | none => none
        | _, _ => none
      | _ => none
    else if due ≠ 0 then none
    else if isUriChar wide g.char then
      (uri wide 0 rest).map fun (cs, rest) => (g.char :: cs, rest)
    else some ([], g :: rest)

-- A text counts up to the first octet that is zero.
def counted (cs : List Char) : String := String.ofList (cs.takeWhile (· ≠ '\x00'))

def text? (wide : Bool) (gs : List Glyph) : Option (String × List Glyph) :=
  match uri wide 0 gs with
  | some (c :: cs, rest) => some (counted (c :: cs), rest)
  | _ => none

-- A tag after its mark. A mark alone is a tag too, for which no directive puts a text.
def body? (gs : List Glyph) : Option (Tag × List Glyph) :=
  match gs with
  | ⟨'<', _, _, _⟩ :: rest =>
    match text? true rest with
    | some (suffix, ⟨'>', _, _, _⟩ :: rest) => some (⟨"", suffix⟩, rest)
    | _ => none
  | gs =>
    match word gs with
    | (name, ⟨'!', _, _, _⟩ :: rest) =>
      let handle := "!" ++ String.ofList name ++ "!"
      (text? false rest).map fun (suffix, rest) => (⟨handle, suffix⟩, rest)
    | _ =>
      (uri false 0 gs).map fun (cs, rest) =>
        (if counted cs = "" then ⟨"", "!"⟩ else ⟨"!", counted cs⟩, rest)

def read? (free : Bool) (gs : List Glyph) : Option (Tag × List Glyph) :=
  match body? gs with
  | some (tag, rest) =>
    if atGap rest || (free && startsWith ',' rest) then some (tag, rest) else none
  | none => none

end Tag

end Stottr.Yaml

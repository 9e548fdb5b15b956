import Stottr.Yaml.Layout

namespace Stottr.Yaml

inductive Node where
  | scalar (anchor : Option String) (value : Scalar)
  | mapping (anchor : Option String) (entries : List (Node × Node))
  | reference (name : String)

namespace Node

def empty : Node := .scalar none .empty

structure Properties where
  anchor : Option String
  tag : Option String

def Properties.isEmpty (p : Properties) : Bool := p.anchor.isNone && p.tag.isNone

-- An anchor and a tag in either order, each of which may be left out.
def properties? (handles : Handles) : List Token → Option (Properties × List Token)
  | .anchor name :: .tag tag :: rest | .tag tag :: .anchor name :: rest =>
    (tag.expand? handles).map fun tag => (⟨some name, some tag⟩, rest)
  | .anchor name :: rest => some (⟨some name, none⟩, rest)
  | .tag tag :: rest => (tag.expand? handles).map fun tag => (⟨none, some tag⟩, rest)
  | rest => some (⟨none, none⟩, rest)

-- Where no node is written, the token in its place.
def endsBlockPart (token : Token) : Bool := [.key, .value, .blockEnd].contains token

def endsFlowKey (token : Token) : Bool := [.value, .flowEntry, .flowEnd].contains token

def endsFlowValue (token : Token) : Bool := [.flowEntry, .flowEnd].contains token

mutual

def read? (handles : Handles) : Nat → List Token → Option (Node × List Token)
  | 0, _ => none
  | _ + 1, .reference name :: rest => some (.reference name, rest)
  | fuel + 1, tokens => do
    let (p, rest) ← properties? handles tokens
    match rest with
    | .scalar style text :: rest =>
      some (.scalar p.anchor ⟨text, style, p.tag⟩, rest)
    | .blockMapping :: rest => do
      let (entries, rest) ← blockEntries? handles fuel rest
      some (.mapping p.anchor entries, rest)
    | .flowMapping :: rest => do
      let (entries, rest) ← flowEntries? handles fuel rest
      some (.mapping p.anchor entries, rest)
    | rest => if p.isEmpty then none else some (.scalar p.anchor ⟨"", .plain, p.tag⟩, rest)

-- A node, or an empty one where a token stands that ends its part of an entry.
def readPart? (handles : Handles) (ends : Token → Bool) :
    Nat → List Token → Option (Node × List Token)
  | 0, _ => none
  | fuel + 1, tokens =>
    if tokens.head?.any ends then some (empty, tokens) else read? handles fuel tokens

def readValue? (handles : Handles) (ends : Token → Bool) :
    Nat → List Token → Option (Node × List Token)
  | 0, _ => none
  | fuel + 1, .value :: rest => readPart? handles ends fuel rest
  | _ + 1, tokens => some (empty, tokens)

def blockEntries? (handles : Handles) :
    Nat → List Token → Option (List (Node × Node) × List Token)
  | 0, _ => none
  | _ + 1, .blockEnd :: rest => some ([], rest)
  | fuel + 1, .key :: rest => do
    let (key, rest) ← readPart? handles endsBlockPart fuel rest
    let (value, rest) ← readValue? handles endsBlockPart fuel rest
    let (entries, rest) ← blockEntries? handles fuel rest
    some ((key, value) :: entries, rest)
  | _ + 1, _ => none

-- An entry between braces. Without a sign before it a node is a key that has no value.
def flowEntry? (handles : Handles) : Nat → List Token → Option ((Node × Node) × List Token)
  | 0, _ => none
  | fuel + 1, .key :: rest => do
    let (key, rest) ← readPart? handles endsFlowKey fuel rest
    let (value, rest) ← readValue? handles endsFlowValue fuel rest
    some ((key, value), rest)
  | fuel + 1, tokens => do
    let (key, rest) ← read? handles fuel tokens
    some ((key, empty), rest)

-- The entries before a closing brace. A comma may stand before it.
def flowEntries? (handles : Handles) : Nat → List Token → Option (List (Node × Node) × List Token)
  | 0, _ => none
  | _ + 1, .flowEnd :: rest => some ([], rest)
  | fuel + 1, tokens => do
    let (entry, rest) ← flowEntry? handles fuel tokens
    match rest with
    | .flowEnd :: rest => some ([entry], rest)
    | .flowEntry :: rest => do
      let (entries, rest) ← flowEntries? handles fuel rest
      some (entry :: entries, rest)
    | _ => none

end

end Node

-- What a node stands for, with its references followed. Keys are scalars.
inductive Value where
  | scalar (value : Scalar)
  | mapping (entries : List (Scalar × Value))

structure Anchors where
  -- The number that each name has at present.
  numbers : List (String × Nat)
  -- What has a number, the latest first, if it is a scalar.
  scalars : List (Nat × Option Scalar)

namespace Anchors

def none : Anchors := ⟨[], []⟩

-- The number of an anchor is how many names there are before it, so that a name which is given for
-- a third time has the number of the second.
def add (a : Anchors) (name : Option String) (scalar : Option Scalar) : Anchors :=
  match name with
  | .none => a
  | some name =>
    let number := a.numbers.length
    ⟨(name, number) :: a.numbers.filter (·.1 ≠ name), (number, scalar) :: a.scalars⟩

mutual

def collect (a : Anchors) : Node → Anchors
  | .scalar anchor value => a.add anchor value
  | .mapping anchor entries => collectAll (a.add anchor .none) entries
  | .reference _ => a

def collectAll (a : Anchors) : List (Node × Node) → Anchors
  | [] => a
  | (key, value) :: rest => collectAll (collect (collect a key) value) rest

end

end Anchors

mutual

-- Follows the references of a node. A name has the number that it was last given before the
-- reference, and the number means what has it in the end. No reference is to a mapping, which could
-- stand for nothing in settings.
def Node.resolve? (final now : Anchors) : Node → Option (Value × Anchors)
  | .scalar anchor value => some (.scalar value, now.add anchor value)
  | .mapping anchor entries =>
    (resolveAll? final (now.add anchor none) entries).map fun (entries, now) =>
      (.mapping entries, now)
  | .reference name =>
    match (now.numbers.lookup name).bind fun number => final.scalars.lookup number with
    | some (some value) => some (.scalar value, now)
    | _ => none

def Node.resolveAll? (final now : Anchors) :
    List (Node × Node) → Option (List (Scalar × Value) × Anchors)
  | [] => some ([], now)
  | (key, node) :: rest =>
    match Node.resolve? final now key with
    | some (.scalar key, now) =>
      match Node.resolve? final now node with
      | none => none
      | some (value, now) =>
        (resolveAll? final now rest).map fun (rest, now) => ((key, value) :: rest, now)
    | _ => none

end

def Node.value? (node : Node) : Option Value :=
  (node.resolve? (Anchors.none.collect node) .none).map Prod.fst

end Stottr.Yaml

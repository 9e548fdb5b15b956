import Stottr.Namespaces
import Stottr.Yaml.Document

namespace Stottr

structure Settings where
  -- Bound on top of the standard prefixes, for every text of a session.
  namespaces : Namespaces
  standardLibrary : Bool
  maxDepth : Option Nat
  parallel : Bool

namespace Yaml.Scalar

def nullWords : List String := ["null", "Null", "NULL", "~"]

def saysAbsent (s : Scalar) : Bool := s.tag = some Tag.ofNull

-- A tag keeps a scalar from being absent, unless it says that it is.
def isAbsent (s : Scalar) : Bool :=
  s.style = .plain && ((s.text = "" && s.tag.isNone) ||
    (nullWords.contains s.text && (s.tag.isNone || s.saysAbsent)))

def isVoid (s : Scalar) : Bool := s.style = .plain && s.text = ""

-- Only what is written plainly stands for something other than its text, or what keeps its lines
-- and has the tag for it.
def standsFor (s : Scalar) (tag : String) : Bool :=
  s.style = .plain || (s.style = .literal && s.tag = some tag)

def bool? (s : Scalar) : Option Bool :=
  if !s.standsFor Tag.ofBool then none
  else if ["true", "True", "TRUE"].contains s.text then some true
  else if ["false", "False", "FALSE"].contains s.text then some false
  else none

def digit? (base : Nat) (c : Char) : Option Nat :=
  match hexValue? c with
  | some d => if d < base then some d else none
  | none => none

def ofDigits? (base : Nat) (digits : List Char) : Option Nat :=
  if digits.isEmpty then none
  else (digits.mapM (digit? base)).map (List.foldl (fun n d => base * n + d) 0)

-- Without its base in front, a number with a leading zero is a text.
def ofNumeral? : List Char → Option Nat
  | '0' :: 'x' :: digits => ofDigits? 16 digits
  | '0' :: 'o' :: digits => ofDigits? 8 digits
  | '0' :: 'b' :: digits => ofDigits? 2 digits
  | '0' :: _ :: _ => none
  | digits => ofDigits? 10 digits

def natural? (s : Scalar) : Option Nat :=
  if !s.standsFor Tag.ofInt then none
  else
    let numeral := match s.text.toList with
      | '+' :: rest => rest
      | chars => chars
    match ofNumeral? numeral with
    | some n => if n < UInt64.size then some n else none
    | none => none

end Yaml.Scalar

namespace Settings

open Yaml

def malformed : String := "Failed to parse OTTR configuration"

def default : Settings := ⟨Keyed.empty, true, none, false⟩

def allNamespaces (s : Settings) : Namespaces :=
  s.namespaces.items.foldl Keyed.insert Namespaces.standard

-- Prefixes and namespaces; of two with the same prefix the later one holds.
def bindings? (ns : Namespaces) : List (Scalar × Value) → Option Namespaces
  | [] => some ns
  | (key, .scalar value) :: rest => bindings? (ns.bind key.text value.text) rest
  | _ => none

def namespaces? : Value → Option Namespaces
  | .mapping entries => bindings? Keyed.empty entries
  | .scalar value => if value.isVoid then some Keyed.empty else none

def depth? (value : Scalar) : Option (Option Nat) :=
  if value.isAbsent then some none
  else if value.saysAbsent then none
  else value.natural?.map some

def assign? (s : Settings) (key : String) (value : Value) : Option Settings :=
  match key, value with
  | "prefixes", value => (namespaces? value).map fun ns => { s with namespaces := ns }
  | "standard_library", .scalar value =>
    value.bool?.map fun b => { s with standardLibrary := b }
  | "max_depth", .scalar value => (depth? value).map fun d => { s with maxDepth := d }
  | "parallel", .scalar value => value.bool?.map fun b => { s with parallel := b }
  | _, _ => none

def assignAll? (s : Settings) (seen : List String) : List (Scalar × Value) → Option Settings
  | [] => some s
  | (key, value) :: rest =>
    if seen.contains key.text then none
    else match s.assign? key.text value with
      | some s => assignAll? s (key.text :: seen) rest
      | none => none

def ofValue? : Value → Option Settings
  | .mapping entries => default.assignAll? [] entries
  | .scalar value => if value.isVoid then some default else none

def parse (text : String) : Option Settings :=
  match Yaml.Document.parse text with
  | none => none
  | some none => some default
  | some (some value) => ofValue? value

end Settings

end Stottr

import Stottr.Text.Blank

namespace Stottr

structure Iri where
  text : String
deriving DecidableEq, Repr, Inhabited

namespace Iri

inductive Defect where
  | empty
  | blank
  | forbidden
  | missingScheme
deriving DecidableEq, Repr

def Defect.reason : Defect → String
  | .empty => "empty IRI"
  | .blank => "whitespace is not allowed"
  | .forbidden => "forbidden character"
  | .missingScheme => "missing scheme"

def forbidden : List Char := ['<', '>', '"', '\x7b', '\x7d', '|', '^', '\x60', '\\']

def admits (c : Char) : Bool :=
  !Text.isBlank c && !forbidden.contains c

-- What is wrong with a text as an IRI. The first character that is not admitted decides, and a
-- scheme is any non-empty part before the first colon.
def defect (text : String) : Option Defect :=
  match text.toList with
  | [] => some .empty
  | c :: cs =>
    match (c :: cs).find? (!admits ·) with
    | some bad => some (if Text.isBlank bad then .blank else .forbidden)
    | none => if c ≠ ':' ∧ ':' ∈ cs then none else some .missingScheme

def parse (text : String) : Except Defect Iri :=
  match defect text with
  | none => .ok ⟨text⟩
  | some d => .error d

-- Nothing is checked of what the two make up, unlike in `parse`.
def inNamespace (space name : String) : Iri := ⟨space ++ name⟩

def render (iri : Iri) : String := "<" ++ iri.text ++ ">"

-- The namespace ends with the last hash or slash; without one the local part is empty.
def splitChars (cs : List Char) : List Char × List Char :=
  let back := cs.reverse
  let name := back.takeWhile fun c => c ≠ '#' && c ≠ '/'
  match back.drop name.length with
  | [] => (cs, [])
  | front => (front.reverse, name.reverse)

def split (iri : Iri) : String × String :=
  let (space, name) := splitChars iri.text.toList
  (String.ofList space, String.ofList name)

end Iri

inductive TermError where
  | invalidIri (text : String) (defect : Iri.Defect)
  | invalidLanguageTag (tag : String)
deriving DecidableEq, Repr

def TermError.message : TermError → String
  | .invalidIri text defect => "invalid IRI <" ++ text ++ ">: " ++ defect.reason
  | .invalidLanguageTag tag => "invalid language tag '" ++ tag ++ "'"

end Stottr

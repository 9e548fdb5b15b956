import Stottr.Iri
import Stottr.Text.Alphabetic
import Stottr.Text.Numeric
import Stottr.Token

namespace Stottr.Token

open Text

def isNameChar (c : Char) : Bool :=
  isAlphabetic c || isNumeric c || c = '_' || c = '-' || c = '.'

-- A dot ends a statement, so a name does not end in one.
def trimDots (cs : List Char) : List Char := (cs.reverse.dropWhile (· = '.')).reverse

def nameRun (cs : List Char) : List Char := trimDots (cs.takeWhile isNameChar)

def utf8Width (cs : List Char) : Nat := cs.foldr (fun c width => c.utf8Size + width) 0

-- Like every scanner it answers with the number of characters that belong to what it found.
def nameWidth? (cs : List Char) : Option Nat :=
  let width := utf8Width (nameRun cs)
  if (cs.take width).length = width then some width else none

theorem nameWidth?_eq_some_iff (cs : List Char) (width : Nat) :
    nameWidth? cs = some width ↔ width = utf8Width (nameRun cs) ∧ width ≤ cs.length := by
  unfold nameWidth?
  dsimp only
  rw [List.length_take]
  constructor
  · intro found
    split at found
    · rename_i fits
      cases found
      exact ⟨rfl, by omega⟩
    · cases found
  · rintro ⟨rfl, fits⟩
    rw [Nat.min_eq_left fits]
    simp

def prefixedName? (cs : List Char) : Option (WrittenIri × Nat) :=
  match nameWidth? cs with
  | none => none
  | some left =>
    match cs.drop left with
    | ':' :: rest =>
      match nameWidth? rest with
      | none => none
      | some right =>
        let name := WrittenIri.prefixed (String.ofList (cs.take left))
          (String.ofList (rest.take right))
        some (name, left + 1 + right)
    | _ => none

def bracketed? (cs : List Char) : Option (WrittenIri × Nat) :=
  let body := cs.takeWhile Iri.admits
  match cs.drop body.length with
  | '>' :: _ => some (.full (String.ofList body), body.length + 1)
  | _ => none

end Stottr.Token

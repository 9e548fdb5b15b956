import Stottr.Keyed
import Stottr.Vocabulary

namespace Stottr

structure Binding where
  label : String
  space : String
deriving DecidableEq, Repr

abbrev Namespaces := Keyed Binding Binding.label

namespace Namespaces

def bind (ns : Namespaces) (label space : String) : Namespaces := ns.insert ⟨label, space⟩

def space? (ns : Namespaces) (label : String) : Option String :=
  (ns.find? label).map Binding.space

def resolve (ns : Namespaces) (label name : String) : Option Iri :=
  (ns.space? label).map fun space => Iri.inNamespace space name

def standard : Namespaces :=
  Vocabulary.standardPrefixes.foldl (fun ns (label, space) => ns.bind label space) Keyed.empty

def remainder? : (front text : List Char) → Option (List Char)
  | [], text => some text
  | _ :: _, [] => none
  | c :: front, d :: text => if c = d then remainder? front text else none

def abbreviation? (iri : Iri) (b : Binding) : Option (Nat × String) :=
  if b.space = "" then none
  else (remainder? b.space.toList iri.text.toList).map fun name =>
    (b.space.utf8ByteSize, b.label ++ ":" ++ String.ofList name)

-- Of two candidates the later one wins unless the earlier leaves out more.
def better (best : Option (Nat × String)) (candidate : Nat × String) : Option (Nat × String) :=
  match best with
  | some held => if candidate.1 < held.1 then some held else some candidate
  | none => some candidate

def compact (ns : Namespaces) (iri : Iri) : Option String :=
  ((ns.items.filterMap (abbreviation? iri)).foldl better none).map Prod.snd

end Namespaces

end Stottr

import Stottr.Yaml.Node

namespace Stottr.Yaml.Document

def isHead : Token → Bool
  | .version _ _ | .handle _ _ | .documentStart => true
  | _ => false

-- The handles that hold in a document, from its directives. None of them repeats another, and the
-- version is one of two.
def handles? (versioned : Bool) (handles : Handles) :
    List Token → Option (Handles × List Token)
  | .version major minor :: rest =>
    if versioned ∨ major ≠ 1 ∨ (minor ≠ 1 ∧ minor ≠ 2) then none else handles? true handles rest
  | .handle name text :: rest =>
    if (handles.lookup name).isSome then none
    else handles? versioned ((name, text) :: handles) rest
  | rest => some (handles ++ Tag.standardHandles, rest)

def isVacant : List Token → Bool
  | [] => true
  | token :: _ => isHead token || token = .documentEnd

def node? (handles : Handles) (tokens : List Token) : Option (Node × List Token) :=
  Node.read? handles (4 * tokens.length + 4) tokens

def read? (tokens : List Token) : Option (Node × List Token) :=
  if tokens.head?.any isHead then do
    let (handles, rest) ← handles? false [] tokens
    match rest with
    | .documentStart :: rest =>
      if isVacant rest then some (.empty, rest) else node? handles rest
    | _ => none
  else node? Tag.standardHandles tokens

def parse (text : String) : Option (Option Value) := do
  let tokens ← tokens? text
  if tokens.isEmpty then some none
  else
    let (node, rest) ← read? tokens
    if rest.all (· = .documentEnd) then node.value?.map some else none

end Stottr.Yaml.Document

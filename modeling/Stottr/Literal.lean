import Stottr.Text.Join
import Stottr.Vocabulary

namespace Stottr

structure Literal where
  lexical : String
  datatype : Iri
  language : Option String
deriving DecidableEq, Repr, Inhabited

namespace Literal

def plain (lexical : String) : Literal := ⟨lexical, Vocabulary.string, none⟩

def typed (lexical : String) (datatype : Iri) : Literal := ⟨lexical, datatype, none⟩

def ofInteger (value : Int) : Literal := typed (toString value) Vocabulary.integer

def ofBoolean (value : Bool) : Literal :=
  typed (if value then "true" else "false") Vocabulary.boolean

-- One part of a language tag: between one and eight characters of a class.
def isSubtag (allowed : Char → Bool) (part : List Char) : Bool :=
  !part.isEmpty && part.length ≤ 8 && part.all allowed

def isLanguageTag (tag : List Char) : Bool :=
  match Text.segments '-' tag with
  | [] => false
  | primary :: others => isSubtag Char.isAlpha primary && others.all (isSubtag Char.isAlphanum)

-- A language-tagged string. Tags are compared without regard to case, so they are kept in lower
-- case.
def tagged (lexical tag : String) : Except TermError Literal :=
  if isLanguageTag tag.toList then
    .ok ⟨lexical, Vocabulary.langString, some (String.ofList (tag.toList.map Char.toLower))⟩
  else .error (.invalidLanguageTag tag)

def escape (c : Char) : List Char :=
  match c with
  | '"' => ['\\', '"']
  | '\\' => ['\\', '\\']
  | '\n' => ['\\', 'n']
  | '\r' => ['\\', 'r']
  | '\t' => ['\\', 't']
  | c => [c]

def quote (lexical : String) : String :=
  "\"" ++ String.ofList (lexical.toList.flatMap escape) ++ "\""

def render (l : Literal) : String :=
  match l.language with
  | some tag => quote l.lexical ++ "@" ++ tag
  | none =>
    if l.datatype = Vocabulary.string then quote l.lexical
    else quote l.lexical ++ "^^" ++ l.datatype.render

end Literal

end Stottr

import Stottr.Term
import Stottr.Text.JsonString

namespace Stottr

open Text

inductive Format where
  | ntriples
  | json
deriving DecidableEq, Repr

namespace Term

-- A field of an object; its value is already written.
def jsonField (name value : String) : String := JsonString.quote name ++ ":" ++ value

def jsonObject (fields : List String) : String := "\x7b" ++ Text.join "," fields ++ "\x7d"

def jsonTagged (kind value : String) : String :=
  jsonObject [jsonField "type" (JsonString.quote kind), jsonField "value" value]

def jsonLiteral (l : Literal) : String :=
  let language := match l.language with
    | some tag => [jsonField "language" (JsonString.quote tag)]
    | Option.none => []
  jsonObject (jsonField "lexical" (JsonString.quote l.lexical) ::
    jsonField "datatype" (JsonString.quote l.datatype.text) :: language)

mutual

def toJson : Term → String
  | .iri name => jsonTagged "iri" (JsonString.quote name.text)
  | .blank node => jsonTagged "blank_node" (JsonString.quote node.label)
  | .literal value => jsonTagged "literal" (jsonLiteral value)
  | .list items => jsonTagged "list" ("[" ++ Text.join "," (toJsonAll items) ++ "]")
  | .none => jsonObject [jsonField "type" (JsonString.quote "none")]

def toJsonAll : List Term → List String
  | [] => []
  | t :: ts => t.toJson :: toJsonAll ts

end

end Term

def Statement.toJson (s : Statement) : String :=
  Term.jsonObject [Term.jsonField "subject" s.subject.toJson,
    Term.jsonField "predicate" s.predicate.toJson, Term.jsonField "object" s.object.toJson]

namespace Format

def line (format : Format) (s : Statement) : String :=
  match format with
  | .ntriples => s.render ++ "\n"
  | .json => s.toJson ++ "\n"

def write (format : Format) (statements : List Statement) : String :=
  String.join (statements.map format.line)

end Format

end Stottr

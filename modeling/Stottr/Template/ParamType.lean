import Stottr.Vocabulary

namespace Stottr

inductive ParamType where
  | resource
  | iri
  | literal
  | datatype (name : Iri)
  | list (element : ParamType)
  | nonEmptyList (element : ParamType)
deriving DecidableEq, Repr, Inhabited

namespace ParamType

-- Classes and properties are named by IRIs, so these types ask for no more than an IRI.
def iriTypes : List (String × String) := [
  (Vocabulary.ottr, "IRI"),
  (Vocabulary.rdfs, "Class"), (Vocabulary.rdfs, "Datatype"),
  (Vocabulary.rdf, "Property"),
  (Vocabulary.owl, "Class"), (Vocabulary.owl, "ObjectProperty"),
  (Vocabulary.owl, "DatatypeProperty"), (Vocabulary.owl, "AnnotationProperty"),
  (Vocabulary.owl, "NamedIndividual")]

def rdfDatatypes : List String := ["langString", "HTML", "XMLLiteral"]

def ofIri? (name : Iri) : Option ParamType :=
  let (space, part) := name.split
  if name = Vocabulary.resource then some .resource
  else if name = Vocabulary.anyLiteral then some .literal
  else if iriTypes.contains (space, part) then some .iri
  else if space = Vocabulary.xsd ∧ part ≠ "" then some (.datatype name)
  else if space = Vocabulary.rdf ∧ rdfDatatypes.contains part then some (.datatype name)
  else none

def element? : ParamType → Option ParamType
  | .list element | .nonEmptyList element => some element
  | _ => none

def isList (type : ParamType) : Bool := type.element?.isSome

def renderDatatype (name : Iri) : String :=
  let (space, part) := name.split
  if space = Vocabulary.xsd then "xsd:" ++ part
  else if space = Vocabulary.rdf then "rdf:" ++ part
  else name.render

def render : ParamType → String
  | .resource => "rdfs:Resource"
  | .iri => "ottr:IRI"
  | .literal => "rdfs:Literal"
  | .datatype name => renderDatatype name
  | .list element => "List<" ++ element.render ++ ">"
  | .nonEmptyList element => "NEList<" ++ element.render ++ ">"

end ParamType

end Stottr

import Stottr.Iri

namespace Stottr.Vocabulary

def ottr : String := "http://ns.ottr.xyz/0.4/"
def rdf : String := "http://www.w3.org/1999/02/22-rdf-syntax-ns#"
def rdfs : String := "http://www.w3.org/2000/01/rdf-schema#"
def xsd : String := "http://www.w3.org/2001/XMLSchema#"
def owl : String := "http://www.w3.org/2002/07/owl#"
def foaf : String := "http://xmlns.com/foaf/0.1/"
def dc : String := "http://purl.org/dc/elements/1.1/"
def schema : String := "http://schema.org/"
def rdfTemplates : String := "http://tpl.ottr.xyz/rdf/0.1/"
def rdfsTemplates : String := "http://tpl.ottr.xyz/rdfs/0.1/"
def axioms : String := "http://tpl.ottr.xyz/owl/axiom/0.1/"
def restrictions : String := "http://tpl.ottr.xyz/owl/restriction/0.1/"

def triple : Iri := .inNamespace ottr "Triple"
def cross : Iri := .inNamespace ottr "Cross"
def absent : Iri := .inNamespace ottr "none"

def resource : Iri := .inNamespace rdfs "Resource"
def anyLiteral : Iri := .inNamespace rdfs "Literal"
def langString : Iri := .inNamespace rdf "langString"
def string : Iri := .inNamespace xsd "string"
def integer : Iri := .inNamespace xsd "integer"
def decimal : Iri := .inNamespace xsd "decimal"
def boolean : Iri := .inNamespace xsd "boolean"

-- The prefixes that every text may use without declaring them.
def standardPrefixes : List (String × String) := [
  ("ottr", ottr), ("rdf", rdf), ("rdfs", rdfs), ("xsd", xsd), ("owl", owl), ("foaf", foaf),
  ("dc", dc), ("schema", schema), ("o-rdf", rdfTemplates), ("o-rdfs", rdfsTemplates),
  ("ax", axioms), ("rstr", restrictions)]

end Stottr.Vocabulary

import Stottr.Text.Join

namespace Stottr.Library

def standardLines : List String := [
  "",
  "@prefix o-rdf: <http://tpl.ottr.xyz/rdf/0.1/> .",
  "@prefix o-rdfs: <http://tpl.ottr.xyz/rdfs/0.1/> .",
  "",
  "o-rdf:Type[ ottr:IRI ?entity, ottr:IRI ?type ] :: \x7b",
  "    ottr:Triple(?entity, rdf:type, ?type)",
  "\x7d .",
  "",
  "o-rdfs:Label[ ottr:IRI ?iri, ?label ] :: \x7b",
  "    ottr:Triple(?iri, rdfs:label, ?label)",
  "\x7d .",
  "",
  "o-rdfs:ResourceDescription[ ottr:IRI ?iri, ? ?label, ? ?comment, ? ?seeAlso, ? ?isDefinedBy ] :: \x7b",
  "    o-rdfs:Label(?iri, ?label),",
  "    ottr:Triple(?iri, rdfs:comment, ?comment),",
  "    ottr:Triple(?iri, rdfs:seeAlso, ?seeAlso),",
  "    ottr:Triple(?iri, rdfs:isDefinedBy, ?isDefinedBy)",
  "\x7d .",
  "",
  "o-rdfs:TypedResourceDescription[ ottr:IRI ?iri, ottr:IRI ?type, ? ?label, ? ?comment, ? ?seeAlso, ? ?isDefinedBy ] :: \x7b",
  "    ottr:Triple(?iri, rdf:type, ?type),",
  "    o-rdfs:ResourceDescription(?iri, ?label, ?comment, ?seeAlso, ?isDefinedBy)",
  "\x7d .",
  ""]

def standardText : String := Text.join "\n" standardLines

end Stottr.Library

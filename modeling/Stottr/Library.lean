import Stottr.Diagnostic
import Stottr.Document
import Stottr.Library.Standard

namespace Stottr

abbrev Library := Keyed Template fun t => t.iri.text

inductive LoadError where
  | redefinition (template : Iri) (span : Text.Span)
  | malformed (errors : List SyntaxError)
deriving DecidableEq, Repr

namespace LoadError

def message : LoadError → String
  | .redefinition template _ => "template " ++ template.render ++ " is already defined"
  | .malformed errors => SyntaxError.report errors

def diagnostics (source : String) : LoadError → List Diagnostic
  | .redefinition template span =>
    [((Diagnostic.error .redefinition (message (.redefinition template span))).placed
      span.place).inSource source]
  | .malformed errors => errors.map fun e => e.diagnostic source

def report (errors : List LoadError) : String := Text.join "\n" (errors.map message)

end LoadError

namespace Library

def baseParameter (name : String) (index : Nat) (type : ParamType) (nonBlank : Bool) : Parameter :=
  ⟨name, index, type, nonBlank, false, none, .nowhere⟩

def triple : Template :=
  ⟨Vocabulary.triple,
    [baseParameter "subject" 0 .iri false, baseParameter "predicate" 1 .iri true,
      baseParameter "object" 2 .resource false],
    .statement ⟨.variable 0, .variable 1, .variable 2⟩, .nowhere⟩

-- The cross-product primitive, which no call may name.
def cross : Template := ⟨Vocabulary.cross, [], .crossProduct, .nowhere⟩

def base : Library := (Keyed.empty.insert triple).insert cross

def get? (lib : Library) (iri : Iri) : Option Template := lib.find? iri.text

theorem iri_of_get? (lib : Library) (iri : Iri) (t : Template) (found : lib.get? iri = some t) :
    t.iri = iri := by
  have same := lib.key_of_find? iri.text t found
  obtain ⟨⟨text⟩, _⟩ := t
  obtain ⟨other⟩ := iri
  exact congrArg Iri.mk same

def register (lib : Library) (t : Template) : Except LoadError Library :=
  match lib.get? t.iri with
  | some _ => .error (.redefinition t.iri t.span)
  | none => .ok (lib.insert t)

structure Registration where
  library : Library
  accepted : Nat
  errors : List LoadError

def registerAll (lib : Library) : List Template → Registration
  | [] => ⟨lib, 0, []⟩
  | t :: ts =>
    match lib.register t with
    | .ok grown =>
      let later := grown.registerAll ts
      { later with accepted := later.accepted + 1 }
    | .error e =>
      let later := lib.registerAll ts
      { later with errors := e :: later.errors }

structure Load extends Registration where
  namespaces : Namespaces

-- Registers the templates of a text. A text with syntax errors changes nothing, its own prefix
-- declarations included.
def load (lib : Library) (ns : Namespaces) (text : String) : Load :=
  let reading := Document.templates ns text
  match reading.outcome with
  | .error errors => ⟨⟨lib, 0, [.malformed errors]⟩, ns⟩
  | .ok templates => ⟨lib.registerAll templates, reading.namespaces⟩

def loadStandard (lib : Library) : Registration :=
  (lib.load Namespaces.standard standardText).toRegistration

structure Dangling where
  template : Iri
  missing : Iri
  span : Text.Span
deriving DecidableEq, Repr

def dangling (lib : Library) : List Dangling :=
  lib.items.flatMap fun t =>
    (t.calls.filter fun call => (lib.get? call.template).isNone).map fun call =>
      ⟨t.iri, call.template, call.span⟩

def signatures (lib : Library) : List String := lib.items.map Template.signature

def baseTemplates (lib : Library) : List Template := lib.items.filter Template.isBase

end Library

end Stottr

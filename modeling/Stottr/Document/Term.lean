import Stottr.Document.Parsed
import Stottr.Template

namespace Stottr.Document

variable (r : Reader)

def literal (lexical : String) (tag : Option LiteralTag) (span : Text.Span) :
    Except ParseError Literal :=
  match tag with
  | none => .ok (.plain lexical)
  | some (.language tag) =>
    match Literal.tagged lexical tag with
    | .ok value => .ok value
    | .error e => errorAt (.invalidTerm e) span
  | some (.datatype name) => do
    let datatype ← r.resolve name span
    .ok (.typed lexical datatype)

def word? (word : String) : Option Term :=
  if word = "none" then some .none
  else if word = "true" then some (.literal (.ofBoolean true))
  else if word = "false" then some (.literal (.ofBoolean false))
  else none

def ofName (iri : Iri) : Term := if iri = Vocabulary.absent then .none else .iri iri

-- The term that a single token stands for. The parameters are those that a variable may name; where
-- there are none to name, only constants are read.
def simpleTerm (scope : Option (List Parameter)) (t : Token) : Except ParseError Argument :=
  match t.kind with
  | .iri name => do
    let iri ← r.resolve name t.span
    .ok (.concrete (ofName iri))
  | .blankNode label => .ok (.concrete (.blank ⟨label⟩))
  | .literal lexical tag => do
    let value ← literal r lexical tag t.span
    .ok (.concrete (.literal value))
  | .integer digits => .ok (.concrete (.literal (.typed digits Vocabulary.integer)))
  | .decimal digits => .ok (.concrete (.literal (.typed digits Vocabulary.decimal)))
  | .variable name =>
    match scope with
    | none => errorAt (.notGround .variable) t.span
    | some parameters =>
      match parameters.find? fun p => p.name = name with
      | some p => .ok (.variable p.index)
      | none => errorAt (.undeclaredVariable name) t.span
  | .word word =>
    match word? word with
    | some value => .ok (.concrete value)
    | none => errorAt (.unexpectedToken .term (some t.kind)) t.span
  | other => errorAt (.unexpectedToken .term (some other)) t.span

def term (scope : Option (List Parameter)) (ts : List Token) : Result Argument ts :=
  match ts with
  | [] => r.unexpected .term []
  | t :: rest =>
    if t.kind = .openParen then do
      let items ← r.separated .closeParen (t :: rest)
        (fun _ us fewer => have := fewer; term scope us) [] rest (by simp)
      .ok (items.after (Argument.ofList items.value) (by simp))
    else do
      let value ← simpleTerm r scope t
      .ok (.single value t rest)
termination_by ts.length
decreasing_by exact this

def constant (ts : List Token) : Result Term ts :=
  match accept? .plusPlus ts with
  | some _ => errorAt (.notGround .expansion) (r.here ts)
  | none => do
    let found ← term r none ts
    match found.value.constant? with
    | some value => .ok (found.map fun _ => value)
    | none => errorAt (.notGround .variable) (r.here ts)

def argument (scope : List Parameter) (ts : List Token) : Result Argument ts :=
  match accept? .plusPlus ts with
  | some mark => do
    let found ← term r (some scope) mark.rest
    .ok (found.after (.expand found.value) (Nat.le_of_lt mark.shorter))
  | none => term r (some scope) ts

end Stottr.Document

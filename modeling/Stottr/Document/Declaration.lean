import Stottr.Document.Signature

namespace Stottr.Document

variable (r : Reader)

-- The name of a prefix is a prefixed name with nothing after the colon.
def prefixLabel (ts : List Token) : Result String ts :=
  match ts with
  | [] => r.unexpected .prefixName []
  | t :: rest =>
    match t.kind with
    | .iri (.prefixed label "") => .ok (.single label t rest)
    | _ => r.unexpected .prefixName (t :: rest)

def namespaceText (ts : List Token) : Result String ts :=
  match ts with
  | [] => r.unexpected .namespaceIri []
  | t :: rest =>
    match t.kind with
    | .iri (.full space) => .ok (.single space t rest)
    | _ => r.unexpected .namespaceIri (t :: rest)

-- A prefix declaration. The namespace is taken as it is written.
def binding (ts : List Token) : Result Binding ts := do
  let keyword ← r.expect .prefixKeyword ts
  let label ← prefixLabel r keyword.rest
  let space ← namespaceText r label.rest
  let dot ← r.expect .dot space.rest
  have front := Nat.lt_trans space.shorter (Nat.lt_trans label.shorter keyword.shorter)
  .ok (dot.after ⟨label.value, space.value⟩ (Nat.le_of_lt front))

structure Moded (ts : List Token) where
  mode : Option ExpansionMode
  rest : List Token
  within : rest.length ≤ ts.length

theorem within_self (ts : List Token) : ts.length ≤ ts.length := Nat.le_refl _

def moded (ts : List Token) : Except ParseError (Moded ts) :=
  match ts with
  | t :: bar :: rest =>
    match t.kind, bar.kind with
    | .word word, .pipe =>
      match ExpansionMode.ofKeyword? word with
      | some mode => .ok ⟨some mode, rest, Nat.le_trans (Nat.le_succ _) (Nat.le_succ _)⟩
      | none => r.unexpected .expansionMode ts
    | _, _ => .ok ⟨none, t :: bar :: rest, Nat.le_refl _⟩
  | ts => .ok ⟨none, ts, within_self ts⟩

-- A mode and arguments to expand come together or not at all.
def checkMode (mode : Option ExpansionMode) (arguments : List Argument) (span : Text.Span) :
    Except ParseError Unit :=
  match mode, arguments.any Argument.isExpand with
  | some mode, false => errorAt (.missingListExpansion mode) span
  | none, true => errorAt .expansionWithoutMode span
  | _, _ => .ok ()

def call (scope : List Parameter) (ts : List Token) : Result Call ts := do
  let start := r.here ts
  let moded ← moded r ts
  let template ← r.name moded.rest
  let opening ← r.expect .openParen template.rest
  have front := Nat.lt_of_lt_of_le (Nat.lt_trans opening.shorter template.shorter) moded.within
  let arguments ← r.separated .closeParen ts (fun _ us _ => argument r scope us) [] opening.rest
    front
  let _ ← checkMode moded.mode arguments.value start
  .ok (arguments.after
    ⟨template.value, arguments.value, moded.mode, start.through arguments.last⟩
    (Nat.le_of_lt front))

def template (ts : List Token) : Result Template ts := do
  let start := r.here ts
  let iri ← r.name ts
  let bracket ← r.expect .openBracket iri.rest
  let parameters ← r.separated .closeBracket iri.rest (fun found us _ => newParameter r found us)
    [] bracket.rest bracket.shorter
  let colons ← r.expect .doubleColon parameters.rest
  let brace ← r.expect .openBrace colons.rest
  let calls ← r.separated .closeBrace colons.rest (fun _ us _ => call r parameters.value us) []
    brace.rest brace.shorter
  let dot ← r.expect .dot calls.rest
  have head := Nat.lt_trans parameters.shorter (Nat.lt_trans bracket.shorter iri.shorter)
  have body := Nat.lt_trans calls.shorter (Nat.lt_trans brace.shorter colons.shorter)
  .ok (dot.after ⟨iri.value, parameters.value, .calls calls.value, start.through dot.last⟩
    (Nat.le_of_lt (Nat.lt_trans body head)))

def groundInstance (ts : List Token) : Result Instance ts := do
  let start := r.here ts
  let template ← r.name ts
  let opening ← r.expect .openParen template.rest
  let arguments ← r.separated .closeParen template.rest (fun _ us _ => constant r us) []
    opening.rest opening.shorter
  let dot ← r.expect .dot arguments.rest
  have front := Nat.lt_trans arguments.shorter (Nat.lt_trans opening.shorter template.shorter)
  .ok (dot.after ⟨template.value, arguments.value, start.through dot.last⟩ (Nat.le_of_lt front))

inductive Declared (α : Type) where
  | binding (b : Binding)
  | item (value : α)

def declaration {α : Type} (item : (ts : List Token) → Result α ts) (ts : List Token) :
    Result (Declared α) ts :=
  if (ts.head?.map Token.kind) = some .prefixKeyword then do
    let found ← binding r ts
    .ok (found.map .binding)
  else do
    let found ← item ts
    .ok (found.map .item)

end Stottr.Document

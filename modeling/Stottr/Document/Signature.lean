import Stottr.Document.Term

namespace Stottr.Document

variable (r : Reader)

def paramType (ts : List Token) : Result ParamType ts :=
  match ts with
  | [] => r.fail (fun found => .malformedParameter (.missingType found)) []
  | t :: rest =>
    match t.kind with
    | .listType => do
      let element ← paramType rest
      let close ← r.expect .closeAngle element.rest
      .ok (close.after (.list element.value) (by have := element.shorter; simp; omega))
    | .nonEmptyListType => do
      let element ← paramType rest
      let close ← r.expect .closeAngle element.rest
      .ok (close.after (.nonEmptyList element.value) (by have := element.shorter; simp; omega))
    | .iri name => do
      let iri ← r.resolve name t.span
      match ParamType.ofIri? iri with
      | some type => .ok (.single type t rest)
      | none => errorAt (.malformedParameter (.unknownType iri)) t.span
    | _ => r.fail (fun found => .malformedParameter (.missingType found)) (t :: rest)

-- The marks in front of a parameter, each of them at most once.
structure Marks (ts : List Token) where
  nonBlank : Bool
  optional : Bool
  rest : List Token
  within : rest.length ≤ ts.length

def Marks.behind {t : Token} {rest : List Token} (m : Marks rest) : Marks (t :: rest) :=
  { m with within := by have := m.within; simp; omega }

def marks (nonBlank optional : Bool) : (ts : List Token) → Except ParseError (Marks ts)
  | [] => .ok ⟨nonBlank, optional, [], Nat.le_refl _⟩
  | t :: rest =>
    if t.kind = .bang then
      if nonBlank then errorAt (.malformedParameter .repeatedModifier) t.span
      else do
        let found ← marks true optional rest
        .ok found.behind
    else if t.kind = .question then
      if optional then errorAt (.malformedParameter .repeatedModifier) t.span
      else do
        let found ← marks nonBlank true rest
        .ok found.behind
    else .ok ⟨nonBlank, optional, t :: rest, Nat.le_refl _⟩

-- A parameter without a type takes any term.
structure Typed (ts : List Token) where
  type : ParamType
  rest : List Token
  within : rest.length ≤ ts.length

def opensType : TokenKind → Bool
  | .iri _ | .listType | .nonEmptyListType => true
  | _ => false

def typed (ts : List Token) : Except ParseError (Typed ts) :=
  if (ts.head?.map fun t => opensType t.kind).getD false then do
    let found ← paramType r ts
    .ok ⟨found.value, found.rest, Nat.le_of_lt found.shorter⟩
  else .ok ⟨.resource, ts, Nat.le_refl _⟩

def variableName (ts : List Token) : Result String ts :=
  match ts with
  | [] => r.fail (fun found => .malformedParameter (.missingVariable found)) []
  | t :: rest =>
    match t.kind with
    | .variable name => .ok (.single name t rest)
    | _ => r.fail (fun found => .malformedParameter (.missingVariable found)) (t :: rest)

-- A default value. That it must be constant is a rule of parameters, so a variable in it is
-- reported as a fault of the parameter, at the beginning of the value.
def defaultValue (ts : List Token) : Result Term ts :=
  match constant r ts with
  | .ok found => .ok found
  | .error e =>
    match e.fault with
    | .notGround _ => errorAt (.malformedParameter .variableDefault) (r.here ts)
    | _ => .error e

def parameter (index : Nat) (ts : List Token) : Result Parameter ts := do
  let marks ← marks false false ts
  let typed ← typed r marks.rest
  let name ← variableName r typed.rest
  have front : name.rest.length < ts.length :=
    Nat.lt_of_lt_of_le name.shorter (Nat.le_trans typed.within marks.within)
  let make := fun (default : Option Term) (last : Text.Span) => Parameter.mk name.value index
    typed.type marks.nonBlank marks.optional default ((r.here ts).through last)
  match accept? .equals name.rest with
  | none => .ok ⟨make none name.last, name.last, name.rest, front⟩
  | some equals => do
    let value ← defaultValue r equals.rest
    .ok (value.after (make (some value.value) value.last)
      (Nat.le_of_lt (Nat.lt_trans equals.shorter front)))

def newParameter (found : List Parameter) (ts : List Token) : Result Parameter ts := do
  let one ← parameter r found.length ts
  if found.any fun p => p.name = one.value.name then
    errorAt (.duplicateParameter one.value.name) one.value.span
  else .ok one

end Stottr.Document

import Stottr.Document.Error
import Stottr.Namespaces

namespace Stottr.Document

-- What the tokens of a declaration are read against: the prefixes in force before it, and the place
-- where its text ends.
structure Reader where
  namespaces : Namespaces
  stop : Text.Span

-- Something found at the front of `ts`, the span of its last token, and the tokens after it.
structure Parsed (α : Type) (ts : List Token) where
  value : α
  last : Text.Span
  rest : List Token
  shorter : rest.length < ts.length

abbrev Result (α : Type) (ts : List Token) := Except ParseError (Parsed α ts)

def Parsed.map {α β : Type} {ts : List Token} (p : Parsed α ts) (f : α → β) : Parsed β ts :=
  { p with value := f p.value }

def Parsed.after {α β : Type} {ts us : List Token} (p : Parsed α us) (value : β)
    (front : us.length ≤ ts.length) : Parsed β ts :=
  ⟨value, p.last, p.rest, Nat.lt_of_lt_of_le p.shorter front⟩

def Parsed.single {α : Type} (value : α) (t : Token) (rest : List Token) :
    Parsed α (t :: rest) :=
  ⟨value, t.span, rest, by simp⟩

def errorAt {α : Type} (fault : ParseFault) (span : Text.Span) : Except ParseError α :=
  .error ⟨fault, span.line, span.column⟩

namespace Reader

variable (r : Reader)

def here : List Token → Text.Span
  | [] => r.stop
  | t :: _ => t.span

def fail {α : Type} (fault : Option TokenKind → ParseFault) (ts : List Token) :
    Except ParseError α :=
  errorAt (fault (ts.head?.map Token.kind)) (r.here ts)

def unexpected {α : Type} (expected : Expected) (ts : List Token) : Except ParseError α :=
  r.fail (.unexpectedToken expected) ts

def resolve (name : WrittenIri) (span : Text.Span) : Except ParseError Iri :=
  match name with
  | .full text =>
    match Iri.parse text with
    | .ok iri => .ok iri
    | .error defect => errorAt (.invalidTerm (.invalidIri text defect)) span
  | .prefixed label name =>
    match r.namespaces.resolve label name with
    | some iri => .ok iri
    | none => errorAt (.unresolvedPrefix label) span

end Reader

def accept? (kind : TokenKind) : (ts : List Token) → Option (Parsed Unit ts)
  | [] => none
  | t :: rest => if t.kind = kind then some (.single () t rest) else none

namespace Reader

variable (r : Reader)

def expectAs (expected : Expected) (kind : TokenKind) (ts : List Token) : Result Unit ts :=
  match accept? kind ts with
  | some found => .ok found
  | none => r.unexpected expected ts

def expect (kind : TokenKind) (ts : List Token) : Result Unit ts :=
  r.expectAs (.token kind) kind ts

-- Items with commas between them, up to the closing token, which a comma may precede. An item is
-- read in view of those before it, the latest of them first, and from fewer tokens than the whole
-- began with.
def separated {α : Type} (close : TokenKind) (outer : List Token)
    (item : List α → (us : List Token) → us.length < outer.length → Result α us)
    (found : List α) (ts : List Token) (within : ts.length < outer.length) : Result (List α) ts :=
  match accept? close ts with
  | some stop => .ok (stop.map fun _ => found.reverse)
  | none => do
    let one ← item found ts within
    match accept? .comma one.rest with
    | some comma =>
      have shorter : comma.rest.length < ts.length := Nat.lt_trans comma.shorter one.shorter
      let all ← separated close outer item (one.value :: found) comma.rest
        (Nat.lt_trans shorter within)
      .ok (all.after all.value (Nat.le_of_lt shorter))
    | none => do
      let stop ← r.expectAs (.commaOr close) close one.rest
      .ok (stop.after (one.value :: found).reverse (Nat.le_of_lt one.shorter))
termination_by ts.length

def name (ts : List Token) : Result Iri ts :=
  match ts with
  | [] => r.unexpected .templateName []
  | t :: rest =>
    match t.kind with
    | .iri name => do
      let iri ← r.resolve name t.span
      .ok (.single iri t rest)
    | _ => r.unexpected .templateName (t :: rest)

end Reader

end Stottr.Document

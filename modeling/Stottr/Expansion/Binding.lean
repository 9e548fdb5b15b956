import Stottr.Expansion.Error

namespace Stottr

-- The values of the parameters of a call, by position.
abbrev Environment := List Term

namespace Argument

mutual

-- What an argument denotes. Positions that the environment does not have are absent values.
def evaluate (env : Environment) (fresh : String → BlankNode) : Argument → Term
  | .concrete value => value.relabel fresh
  | .variable index => env.getD index .none
  | .list items => .list (evaluateAll env fresh items)
  | .expand inner => inner.evaluate env fresh

def evaluateAll (env : Environment) (fresh : String → BlankNode) : List Argument → List Term
  | [] => []
  | a :: as => a.evaluate env fresh :: evaluateAll env fresh as

end

end Argument

-- A statement pattern is not a call, so labels written in it stand as they are.
def Pattern.statement (pattern : Pattern) (env : Environment) : Statement :=
  let value := fun a : Argument => a.evaluate env BlankNode.mk
  ⟨value pattern.subject, value pattern.predicate, value pattern.object⟩

namespace Parameter

-- The value of a parameter. A default takes the place of an argument that is left out or absent.
def fill (p : Parameter) (fresh : String → BlankNode) (given : Option Term) : Term :=
  match given, p.default with
  | none, some value | some .none, some value => value.relabel fresh
  | some value, _ => value
  | none, none => .none

end Parameter

namespace Template

def fillAll (fresh : String → BlankNode) : List Parameter → List Term → Environment
  | [], _ => []
  | p :: ps, given => p.fill fresh given.head? :: fillAll fresh ps given.tail

theorem length_fillAll (fresh : String → BlankNode) (ps : List Parameter) (given : List Term) :
    (fillAll fresh ps given).length = ps.length := by
  induction ps generalizing given with
  | nil => rfl
  | cons p ps ih => simp [fillAll, ih]

def bind (t : Template) (given : List Term) (span : Text.Span) (fresh : String → BlankNode) :
    Except ExpansionError Environment :=
  if t.arity < given.length ∨ given.length < t.minArity then
    .error ⟨.arity t.iri t.minArity t.arity given.length, span⟩
  else .ok (fillAll fresh t.parameters given)

structure Misfit where
  parameter : Parameter
  value : Term
  reason : Mismatch

def Misfit.error (m : Misfit) (t : Template) (span : Text.Span) : ExpansionError :=
  ⟨.mismatch t.iri (some m.parameter.name) (some m.value) m.reason, span⟩

-- Checks the values in the order of the parameters; the first misfit decides.
def checkValues (t : Template) (env : Environment) : Except Misfit Unit :=
  firstFailure (fun (p, value) =>
    match p.check value with
    | .ok () => .ok ()
    | .error reason => .error ⟨p, value, reason⟩) (t.parameters.zip env)

end Template

end Stottr

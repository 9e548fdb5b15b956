import Stottr.BlankNode
import Stottr.Literal

namespace Stottr

inductive Term where
  | iri (name : Iri)
  | blank (node : BlankNode)
  | literal (value : Literal)
  | list (items : List Term)
  | none
deriving Repr, Inhabited

inductive Term.Kind where
  | iri
  | blank
  | literal
  | list
  | none
deriving DecidableEq, Repr

def Term.Kind.name : Term.Kind → String
  | .iri => "IRI"
  | .blank => "blank node"
  | .literal => "literal"
  | .list => "list"
  | .none => "none"

namespace Term

def kind : Term → Kind
  | .iri _ => .iri
  | .blank _ => .blank
  | .literal _ => .literal
  | .list _ => .list
  | .none => .none

def isNone : Term → Bool
  | .none => true
  | _ => false

def isBlank : Term → Bool
  | .blank _ => true
  | _ => false

def items? : Term → Option (List Term)
  | .list items => some items
  | _ => Option.none

mutual

def render : Term → String
  | .iri name => name.render
  | .blank node => node.render
  | .literal value => value.render
  | .list items => "(" ++ Text.join ", " (renderAll items) ++ ")"
  | .none => Vocabulary.absent.render

def renderAll : List Term → List String
  | [] => []
  | t :: ts => t.render :: renderAll ts

end

theorem renderAll_eq_map (ts : List Term) : renderAll ts = ts.map render := by
  induction ts with
  | nil => rfl
  | cons t ts ih => simp [renderAll, ih]

mutual

def hasBlank : Term → Bool
  | .blank _ => true
  | .list items => anyHasBlank items
  | _ => false

def anyHasBlank : List Term → Bool
  | [] => false
  | t :: ts => t.hasBlank || anyHasBlank ts

end

mutual

def relabel (fresh : String → BlankNode) : Term → Term
  | .blank node => .blank (fresh node.label)
  | .list items => .list (relabelAll fresh items)
  | .iri name => .iri name
  | .literal value => .literal value
  | .none => .none

def relabelAll (fresh : String → BlankNode) : List Term → List Term
  | [] => []
  | t :: ts => t.relabel fresh :: relabelAll fresh ts

end

theorem relabelAll_eq_map (fresh : String → BlankNode) (ts : List Term) :
    relabelAll fresh ts = ts.map (relabel fresh) := by
  induction ts with
  | nil => rfl
  | cons t ts ih => simp [relabelAll, ih]

mutual

def decEq : (a b : Term) → Decidable (a = b)
  | .iri a, .iri b => decidable_of_iff (a = b) (by simp)
  | .blank a, .blank b => decidable_of_iff (a = b) (by simp)
  | .literal a, .literal b => decidable_of_iff (a = b) (by simp)
  | .list as, .list bs =>
    match decEqAll as bs with
    | isTrue h => isTrue (by rw [h])
    | isFalse h => isFalse (by simpa using h)
  | .none, .none => isTrue rfl
  | .iri _, .blank _ | .iri _, .literal _ | .iri _, .list _ | .iri _, .none
  | .blank _, .iri _ | .blank _, .literal _ | .blank _, .list _ | .blank _, .none
  | .literal _, .iri _ | .literal _, .blank _ | .literal _, .list _ | .literal _, .none
  | .list _, .iri _ | .list _, .blank _ | .list _, .literal _ | .list _, .none
  | .none, .iri _ | .none, .blank _ | .none, .literal _ | .none, .list _ => isFalse nofun

def decEqAll : (as bs : List Term) → Decidable (as = bs)
  | [], [] => isTrue rfl
  | [], _ :: _ => isFalse nofun
  | _ :: _, [] => isFalse nofun
  | a :: as, b :: bs =>
    match decEq a b, decEqAll as bs with
    | isTrue h, isTrue t => isTrue (by rw [h, t])
    | isFalse h, _ => isFalse fun e => h (List.cons.inj e).1
    | _, isFalse t => isFalse fun e => t (List.cons.inj e).2

end

instance : DecidableEq Term := decEq

end Term

structure Statement where
  subject : Term
  predicate : Term
  object : Term
deriving DecidableEq, Repr, Inhabited

def Statement.render (s : Statement) : String :=
  s.subject.render ++ " " ++ s.predicate.render ++ " " ++ s.object.render ++ " ."

end Stottr

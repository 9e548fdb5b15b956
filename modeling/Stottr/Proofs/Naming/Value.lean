import Stottr.Expansion

namespace Stottr.Naming

-- Terms whose blank nodes are of any kind.
inductive Value (ν : Type) where
  | iri (name : Iri)
  | blank (node : ν)
  | literal (value : Literal)
  | list (items : List (Value ν))
  | none

variable {ν : Type}

namespace Value

mutual

def ofTerm (name : String → ν) : Term → Value ν
  | .iri name => .iri name
  | .blank node => .blank (name node.label)
  | .literal value => .literal value
  | .list items => .list (ofTerms name items)
  | .none => .none

def ofTerms (name : String → ν) : List Term → List (Value ν)
  | [] => []
  | t :: ts => ofTerm name t :: ofTerms name ts

end

mutual

def render (name : ν → BlankNode) : Value ν → Term
  | .iri name => .iri name
  | .blank node => .blank (name node)
  | .literal value => .literal value
  | .list items => .list (renderAll name items)
  | .none => .none

def renderAll (name : ν → BlankNode) : List (Value ν) → List Term
  | [] => []
  | v :: vs => v.render name :: renderAll name vs

end

mutual

def nodes : Value ν → List ν
  | .blank node => [node]
  | .list items => nodesAll items
  | .iri _ => []
  | .literal _ => []
  | .none => []

def nodesAll : List (Value ν) → List ν
  | [] => []
  | v :: vs => v.nodes ++ nodesAll vs

end

theorem renderAll_eq_map (name : ν → BlankNode) (vs : List (Value ν)) :
    renderAll name vs = vs.map (render name) := by
  induction vs with
  | nil => rfl
  | cons v vs ih => simp [renderAll, ih]

theorem nodesAll_eq_flatMap (vs : List (Value ν)) : nodesAll vs = vs.flatMap nodes := by
  induction vs with
  | nil => rfl
  | cons v vs ih => simp [nodesAll, ih]

mutual

theorem render_ofTerm (name : ν → BlankNode) (own : String → ν) (t : Term) :
    (ofTerm own t).render name = t.relabel fun label => name (own label) := by
  cases t with
  | iri | blank | literal | none => rfl
  | list items => simp only [ofTerm, render, Term.relabel, renderAll_ofTerms]

theorem renderAll_ofTerms (name : ν → BlankNode) (own : String → ν) (ts : List Term) :
    renderAll name (ofTerms own ts) = Term.relabelAll (fun label => name (own label)) ts := by
  cases ts with
  | nil => rfl
  | cons t ts => simp only [ofTerms, renderAll, Term.relabelAll, render_ofTerm, renderAll_ofTerms]

end

def Within (P : ν → Prop) (v : Value ν) : Prop := ∀ node ∈ v.nodes, P node

theorem within_none (P : ν → Prop) : (none : Value ν).Within P := by
  intro node member
  cases member

theorem within_list {P : ν → Prop} {items : List (Value ν)} :
    (list items).Within P ↔ ∀ v ∈ items, v.Within P := by
  simp only [Within, nodes, nodesAll_eq_flatMap, List.mem_flatMap]
  constructor
  · intro every v member node inside
    exact every node ⟨v, member, inside⟩
  · rintro every node ⟨v, member, inside⟩
    exact every v member node inside

mutual

theorem within_ofTerm {P : ν → Prop} {own : String → ν} (written : ∀ label, P (own label))
    (t : Term) : (ofTerm own t).Within P := by
  cases t with
  | iri | literal | none =>
    intro node member
    cases member
  | blank b =>
    intro node member
    rw [List.mem_singleton.mp member]
    exact written b.label
  | list items => exact within_list.mpr (within_ofTerms written items)

theorem within_ofTerms {P : ν → Prop} {own : String → ν} (written : ∀ label, P (own label))
    (ts : List Term) : ∀ v ∈ ofTerms own ts, v.Within P := by
  cases ts with
  | nil =>
    intro v member
    cases member
  | cons t ts =>
    intro v member
    rcases List.mem_cons.mp member with rfl | later
    · exact within_ofTerm written t
    · exact within_ofTerms written ts v later

end

end Value

end Stottr.Naming

namespace Stottr

namespace Term

mutual

def nodes : Term → List BlankNode
  | .blank node => [node]
  | .list items => nodesAll items
  | .iri _ => []
  | .literal _ => []
  | .none => []

def nodesAll : List Term → List BlankNode
  | [] => []
  | t :: ts => t.nodes ++ nodesAll ts

end

-- What is left of a term when the names of its nodes are taken away.
def shape (t : Term) : Term := t.relabel fun _ => ⟨""⟩

mutual

theorem shape_relabel (fresh : String → BlankNode) (t : Term) :
    (t.relabel fresh).shape = t.shape := by
  cases t with
  | iri | blank | literal | none => rfl
  | list items => simp only [shape, relabel, relabelAll_relabelAll]

theorem relabelAll_relabelAll (fresh : String → BlankNode) (ts : List Term) :
    relabelAll (fun _ => ⟨""⟩) (relabelAll fresh ts) = relabelAll (fun _ => ⟨""⟩) ts := by
  cases ts with
  | nil => rfl
  | cons t ts =>
    have head : (t.relabel fresh).shape = t.shape := shape_relabel fresh t
    simp only [shape] at head
    simp only [relabelAll, head, relabelAll_relabelAll]

end

mutual

theorem hasBlank_relabel (fresh : String → BlankNode) (t : Term) :
    (t.relabel fresh).hasBlank = t.hasBlank := by
  cases t with
  | iri | blank | literal | none => rfl
  | list items => simp only [relabel, hasBlank, anyHasBlank_relabelAll]

theorem anyHasBlank_relabelAll (fresh : String → BlankNode) (ts : List Term) :
    anyHasBlank (relabelAll fresh ts) = anyHasBlank ts := by
  cases ts with
  | nil => rfl
  | cons t ts => simp only [relabelAll, anyHasBlank, hasBlank_relabel, anyHasBlank_relabelAll]

end

theorem isNone_relabel (fresh : String → BlankNode) (t : Term) :
    (t.relabel fresh).isNone = t.isNone := by
  cases t <;> rfl

end Term

def Statement.nodes (st : Statement) : List BlankNode :=
  st.subject.nodes ++ st.predicate.nodes ++ st.object.nodes

namespace Naming.Value

variable {ν : Type}

mutual

theorem nodes_render (name : ν → BlankNode) (v : Value ν) :
    (v.render name).nodes = v.nodes.map name := by
  cases v with
  | iri | blank | literal | none => rfl
  | list items => simp only [render, Term.nodes, nodes, nodesAll_renderAll]

theorem nodesAll_renderAll (name : ν → BlankNode) (vs : List (Value ν)) :
    Term.nodesAll (renderAll name vs) = (nodesAll vs).map name := by
  cases vs with
  | nil => rfl
  | cons v vs =>
    simp only [renderAll, Term.nodesAll, nodesAll, nodes_render, nodesAll_renderAll,
      List.map_append]

end

end Naming.Value

theorem firstFailure_map {α β ε : Type} (f : α → β) (check : β → Except ε Unit) (items : List α) :
    firstFailure check (items.map f) = firstFailure (fun a => check (f a)) items := by
  induction items with
  | nil => rfl
  | cons a rest ih => simp only [List.map_cons, firstFailure, ih]

theorem ParamType.check_relabel (type : ParamType) (fresh : String → BlankNode) (t : Term) :
    type.check (t.relabel fresh) = type.check t := by
  have members : ∀ element : ParamType, (∀ u, element.check (u.relabel fresh) = element.check u) →
      ∀ items : List Term,
      firstFailure element.check ((Term.relabelAll fresh items).filter (!·.isNone)) =
        firstFailure element.check (items.filter (!·.isNone)) := by
    intro element each items
    have kept : (fun u : Term => !(u.relabel fresh).isNone) = fun u => !u.isNone := by
      funext u
      rw [Term.isNone_relabel]
    rw [Term.relabelAll_eq_map, List.filter_map, firstFailure_map]
    simp only [Function.comp_def, kept, each]
  induction type generalizing t with
  | resource | iri | literal | datatype => cases t <;> rfl
  | list element ih =>
    cases t with
    | list items => exact members element ih items
    | iri | blank | literal | none => rfl
  | nonEmptyList element ih =>
    cases t with
    | list items =>
      cases items with
      | nil => rfl
      | cons u us => exact members element ih (u :: us)
    | iri | blank | literal | none => rfl

theorem Parameter.check_relabel (p : Parameter) (fresh : String → BlankNode) (t : Term) :
    p.check (t.relabel fresh) = p.check t := by
  simp only [check, Term.isNone_relabel, Term.hasBlank_relabel, ParamType.check_relabel]

theorem Parameter.check_shape (p : Parameter) {t u : Term} (alike : t.shape = u.shape) :
    p.check t = p.check u := by
  rw [← p.check_relabel (fun _ => ⟨""⟩) t, ← p.check_relabel (fun _ => ⟨""⟩) u]
  exact congrArg p.check alike

end Stottr

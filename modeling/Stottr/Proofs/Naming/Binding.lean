import Stottr.Proofs.Expansion.Course
import Stottr.Proofs.Naming.Value

namespace Stottr

theorem Parameter.shape_fill (p : Parameter) (fresh fresh' : String → BlankNode)
    (given : Option Term) : (p.fill fresh given).shape = (p.fill fresh' given).shape := by
  unfold fill
  split
  · rw [Term.shape_relabel, Term.shape_relabel]
  · rw [Term.shape_relabel, Term.shape_relabel]
  · rfl
  · rfl

theorem Parameter.fill_plain {p : Parameter} (plain : p.default = none)
    (fresh : String → BlankNode) (given : Option Term) : p.fill fresh given = given.getD .none := by
  cases given with
  | none => simp only [fill, plain, Option.getD_none]
  | some t => cases t <;> simp only [fill, plain, Option.getD_some]

namespace Template

theorem shape_fillAll (fresh fresh' : String → BlankNode) (ps : List Parameter)
    (given : List Term) :
    (fillAll fresh ps given).map Term.shape = (fillAll fresh' ps given).map Term.shape := by
  induction ps generalizing given with
  | nil => rfl
  | cons p ps ih =>
    simp only [fillAll, List.map_cons, p.shape_fill fresh fresh', ih given.tail]

theorem fillAll_plain {ps : List Parameter} (plain : ∀ p ∈ ps, p.default = none)
    (fresh fresh' : String → BlankNode) (given : List Term) :
    fillAll fresh ps given = fillAll fresh' ps given := by
  induction ps generalizing given with
  | nil => rfl
  | cons p ps ih =>
    have held := plain p (by simp)
    have others := ih (fun p member => plain p (List.mem_cons_of_mem _ member)) given.tail
    simp only [fillAll, Parameter.fill_plain held, others]

theorem bind_plain {t : Template} (plain : ∀ p ∈ t.parameters, p.default = none)
    (given : List Term) (span : Text.Span) (fresh fresh' : String → BlankNode) :
    t.bind given span fresh = t.bind given span fresh' := by
  unfold bind
  rw [fillAll_plain plain fresh fresh']

-- What the checks say of an environment, without the value that is not fit.
def verdict (t : Template) (env : Environment) : Option (Parameter × Mismatch) :=
  match t.checkValues env with
  | .ok () => none
  | .error m => some (m.parameter, m.reason)

theorem checkValues_of_verdict {t : Template} {env : Environment} (fit : t.verdict env = none) :
    t.checkValues env = .ok () := by
  unfold verdict at fit
  split at fit
  · assumption
  · cases fit

theorem misfit_of_verdict {t : Template} {env : Environment} {found : Parameter × Mismatch}
    (unfit : t.verdict env = some found) :
    ∃ m, t.checkValues env = .error m ∧ m.parameter = found.1 ∧ m.reason = found.2 := by
  unfold verdict at unfit
  split at unfit
  · cases unfit
  · rename_i m checked
    cases unfit
    exact ⟨m, checked, rfl, rfl⟩

theorem verdict_shape (t : Template) {env env' : Environment}
    (alike : env.map Term.shape = env'.map Term.shape) : t.verdict env = t.verdict env' := by
  unfold verdict checkValues
  generalize t.parameters = ps
  induction ps generalizing env env' with
  | nil => rfl
  | cons p ps ih =>
    cases env with
    | nil =>
      cases env' with
      | nil => rfl
      | cons => cases alike
    | cons u us =>
      cases env' with
      | nil => cases alike
      | cons v vs =>
        obtain ⟨first, others⟩ := List.cons.inj alike
        simp only [List.zip_cons_cons, firstFailure, p.check_shape first]
        cases p.check v with
        | ok => exact ih others
        | error reason => rfl

theorem bind_verdict (t : Template) (given : List Term) (span : Text.Span)
    (fresh fresh' : String → BlankNode) :
    (t.bind given span fresh).map t.verdict = (t.bind given span fresh').map t.verdict := by
  unfold bind
  split
  · rfl
  · simp only [Except.map, t.verdict_shape (shape_fillAll fresh fresh' _ _)]

end Template

namespace Naming

variable {ν : Type}

abbrev Values (ν : Type) := List (Value ν)

def Values.render (name : ν → BlankNode) (values : Values ν) : List Term :=
  values.map (Value.render name)

mutual

def evaluate (env : Values ν) (own : String → ν) : Argument → Value ν
  | .concrete value => .ofTerm own value
  | .variable index => env.getD index .none
  | .list items => .list (evaluateAll env own items)
  | .expand inner => evaluate env own inner

def evaluateAll (env : Values ν) (own : String → ν) : List Argument → Values ν
  | [] => []
  | a :: as => evaluate env own a :: evaluateAll env own as

end

mutual

theorem render_evaluate (name : ν → BlankNode) (env : Values ν) (own : String → ν)
    (a : Argument) : (evaluate env own a).render name =
      a.evaluate (env.render name) fun label => name (own label) := by
  match a with
  | .concrete value => exact Value.render_ofTerm name own value
  | .variable index =>
    simp only [evaluate, Argument.evaluate, Values.render, List.getD_eq_getElem?_getD,
      List.getElem?_map]
    cases env[index]? <;> rfl
  | .list items => simp only [evaluate, Argument.evaluate, Value.render, renderAll_evaluateAll]
  | .expand inner => simp only [evaluate, Argument.evaluate, render_evaluate]

theorem renderAll_evaluateAll (name : ν → BlankNode) (env : Values ν) (own : String → ν)
    (as : List Argument) : Value.renderAll name (evaluateAll env own as) =
      Argument.evaluateAll (env.render name) (fun label => name (own label)) as := by
  cases as with
  | nil => rfl
  | cons a as =>
    simp only [evaluateAll, Argument.evaluateAll, Value.renderAll, render_evaluate,
      renderAll_evaluateAll]

end

theorem within_getD {P : ν → Prop} {env : Values ν} (passed : ∀ v ∈ env, v.Within P)
    (index : Nat) : (env.getD index .none).Within P := by
  rw [List.getD_eq_getElem?_getD]
  cases held : env[index]? with
  | none => exact Value.within_none P
  | some v => exact passed v (List.mem_of_getElem? held)

mutual

theorem within_evaluate {P : ν → Prop} {env : Values ν} {own : String → ν}
    (passed : ∀ v ∈ env, v.Within P) (written : ∀ label, P (own label)) (a : Argument) :
    (evaluate env own a).Within P := by
  match a with
  | .concrete value => exact Value.within_ofTerm written value
  | .variable index => exact within_getD passed index
  | .list items => exact Value.within_list.mpr (within_evaluateAll passed written items)
  | .expand inner => exact within_evaluate passed written inner

theorem within_evaluateAll {P : ν → Prop} {env : Values ν} {own : String → ν}
    (passed : ∀ v ∈ env, v.Within P) (written : ∀ label, P (own label)) (as : List Argument) :
    ∀ v ∈ evaluateAll env own as, v.Within P := by
  cases as with
  | nil =>
    intro v member
    cases member
  | cons a as =>
    intro v member
    rcases List.mem_cons.mp member with rfl | later
    · exact within_evaluate passed written a
    · exact within_evaluateAll passed written as v later

end

def fill (p : Parameter) (own : String → ν) (given : Option (Value ν)) : Value ν :=
  match given, p.default with
  | none, some value | some .none, some value => .ofTerm own value
  | some value, _ => value
  | none, none => .none

theorem render_fill (name : ν → BlankNode) (p : Parameter) (own : String → ν)
    (given : Option (Value ν)) : (fill p own given).render name =
      p.fill (fun label => name (own label)) (given.map (Value.render name)) := by
  cases given with
  | none =>
    cases held : p.default <;>
      simp [fill, Parameter.fill, held, Value.render_ofTerm, Value.render]
  | some v =>
    cases held : p.default <;> cases v <;>
      simp [fill, Parameter.fill, held, Value.render_ofTerm, Value.render]

theorem fill_cases (p : Parameter) (own : String → ν) (given : Option (Value ν)) :
    fill p own given = .none ∨ given = some (fill p own given) ∨
      ∃ value, p.default = some value ∧ fill p own given = .ofTerm own value := by
  unfold fill
  split
  · rename_i value held
    exact .inr (.inr ⟨value, held, rfl⟩)
  · rename_i value held
    exact .inr (.inr ⟨value, held, rfl⟩)
  · exact .inr (.inl rfl)
  · exact .inl rfl

def fillAll (own : String → ν) : List Parameter → Values ν → Values ν
  | [], _ => []
  | p :: ps, given => fill p own given.head? :: fillAll own ps given.tail

theorem render_fillAll (name : ν → BlankNode) (own : String → ν) (ps : List Parameter)
    (given : Values ν) : (fillAll own ps given).render name =
      Template.fillAll (fun label => name (own label)) ps (given.render name) := by
  induction ps generalizing given with
  | nil => rfl
  | cons p ps ih =>
    have first := render_fill name p own given.head?
    have others := ih given.tail
    simp only [Values.render] at others
    simp only [fillAll, Template.fillAll, Values.render, List.map_cons, first, others,
      List.head?_map, List.map_tail]

theorem within_fillAll {P : ν → Prop} {own : String → ν} {ps : List Parameter}
    (written : ∀ p ∈ ps, p.default.isSome → ∀ label, P (own label)) (given : Values ν)
    (passed : ∀ v ∈ given, v.Within P) : ∀ v ∈ fillAll own ps given, v.Within P := by
  induction ps generalizing given with
  | nil =>
    intro v member
    cases member
  | cons p ps ih =>
    have first : (fill p own given.head?).Within P := by
      rcases fill_cases p own given.head? with absent | here | ⟨value, held, same⟩
      · rw [absent]
        exact Value.within_none P
      · exact passed _ (List.mem_of_mem_head? here)
      · rw [same]
        exact Value.within_ofTerm (written p (by simp) (by simp [held])) value
    intro v member
    rcases List.mem_cons.mp member with rfl | later
    · exact first
    · refine ih (fun p member => written p (List.mem_cons_of_mem _ member)) given.tail ?_ v later
      intro v member
      exact passed v (List.mem_of_mem_tail member)

def bind (t : Template) (given : Values ν) (span : Text.Span) (own : String → ν) :
    Except ExpansionError (Values ν) :=
  if t.arity < given.length ∨ given.length < t.minArity then
    .error ⟨.arity t.iri t.minArity t.arity given.length, span⟩
  else .ok (fillAll own t.parameters given)

theorem within_bind {P : ν → Prop} {own : String → ν} {t : Template} {given env : Values ν}
    {span : Text.Span} (written : ∀ p ∈ t.parameters, p.default.isSome → ∀ label, P (own label))
    (binding : bind t given span own = .ok env) (passed : ∀ v ∈ given, v.Within P) :
    ∀ v ∈ env, v.Within P := by
  unfold bind at binding
  split at binding
  · cases binding
  · cases binding
    exact within_fillAll written given passed

theorem render_bind (name : ν → BlankNode) (t : Template) (given : Values ν) (span : Text.Span)
    (own : String → ν) : (bind t given span own).map (Values.render name) =
      t.bind (given.render name) span fun label => name (own label) := by
  have length : (given.render name).length = given.length := List.length_map _
  unfold bind Template.bind
  rw [length]
  split
  · rfl
  · simp only [Except.map, render_fillAll]

structure Misfit (ν : Type) where
  parameter : Parameter
  value : Value ν
  reason : Mismatch

def Value.shape (v : Value ν) : Term := v.render fun _ => ⟨""⟩

mutual

theorem Value.shape_render (name : ν → BlankNode) (v : Value ν) :
    (v.render name).shape = v.shape := by
  cases v with
  | iri | blank | literal | none => rfl
  | list items => simp only [shape, Term.shape, render, Term.relabel, relabelAll_renderAll]

theorem Value.relabelAll_renderAll (name : ν → BlankNode) (vs : Values ν) :
    Term.relabelAll (fun _ => ⟨""⟩) (renderAll name vs) = renderAll (fun _ => ⟨""⟩) vs := by
  cases vs with
  | nil => rfl
  | cons v vs =>
    have head : (v.render name).shape = v.shape := shape_render name v
    simp only [shape, Term.shape] at head
    simp only [renderAll, Term.relabelAll, head, relabelAll_renderAll]

end

def misfit? : List (Parameter × Value ν) → Option (Misfit ν)
  | [] => none
  | (p, v) :: rest =>
    match p.check v.shape with
    | .ok () => misfit? rest
    | .error reason => some ⟨p, v, reason⟩

theorem checkValues_render (name : ν → BlankNode) (t : Template) (env : Values ν) :
    t.checkValues (env.render name) =
      match misfit? (t.parameters.zip env) with
      | none => .ok ()
      | some m => .error ⟨m.parameter, m.value.render name, m.reason⟩ := by
  unfold Template.checkValues
  generalize t.parameters = ps
  induction ps generalizing env with
  | nil => rfl
  | cons p ps ih =>
    cases env with
    | nil => rfl
    | cons v vs =>
      have same : p.check (v.render name) = p.check v.shape :=
        p.check_shape (by rw [v.shape_render]; exact (v.shape_render _).symm)
      simp only [Values.render, List.map_cons, List.zip_cons_cons, firstFailure, misfit?, same]
      cases p.check v.shape with
      | ok => exact ih vs
      | error reason => rfl

theorem checkValues_of_fit (name : ν → BlankNode) {t : Template} {env : Values ν}
    (checked : misfit? (t.parameters.zip env) = none) :
    t.checkValues (env.render name) = .ok () := by
  rw [checkValues_render, checked]

theorem checkValues_of_misfit (name : ν → BlankNode) {t : Template} {env : Values ν}
    {m : Misfit ν} (checked : misfit? (t.parameters.zip env) = some m) :
    t.checkValues (env.render name) = .error ⟨m.parameter, m.value.render name, m.reason⟩ := by
  rw [checkValues_render, checked]

def verdict (t : Template) (env : Values ν) : Option (Parameter × Mismatch) :=
  (misfit? (t.parameters.zip env)).map fun m => (m.parameter, m.reason)

theorem verdict_render (name : ν → BlankNode) (t : Template) (env : Values ν) :
    t.verdict (env.render name) = verdict t env := by
  unfold Template.verdict verdict
  rw [checkValues_render]
  cases misfit? (t.parameters.zip env) <;> rfl

end Naming

end Stottr

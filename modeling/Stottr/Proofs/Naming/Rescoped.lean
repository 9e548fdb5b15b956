import Stottr.Proofs.Naming.Faithful

namespace Stottr

def cutLast : List Char → Option (List Char × List Char)
  | [] => none
  | c :: rest =>
    match cutLast rest with
    | some (front, back) => some (c :: front, back)
    | none => if c = '_' then some ([], rest) else none

theorem cutLast_eq_none {text : List Char} (plain : '_' ∉ text) : cutLast text = none := by
  induction text with
  | nil => rfl
  | cons c rest ih =>
    have first : c ≠ '_' := fun same => plain (same ▸ List.mem_cons_self)
    have others : '_' ∉ rest := fun inside => plain (List.mem_cons_of_mem c inside)
    rw [cutLast, ih others]
    exact if_neg first

theorem cutLast_append (front : List Char) {back : List Char} (plain : '_' ∉ back) :
    cutLast (front ++ '_' :: back) = some (front, back) := by
  induction front with
  | nil => rw [List.nil_append, cutLast, cutLast_eq_none plain, if_pos rfl]
  | cons c front ih => rw [List.cons_append, cutLast, ih]

namespace BlankNode

-- The name of the node with one scope in the place of another. A name that has no scope, or a third
-- one, stays as it is.
def rescope (s t : Scope) (node : BlankNode) : BlankNode :=
  match cutLast node.label.toList with
  | none => node
  | some (front, mark) =>
    match cutLast front with
    | none => node
    | some (label, scope) =>
      if scope = s.render.toList then marked (String.ofList label) t (String.ofList mark) else node

theorem rescope_marked (label : String) (s t : Scope) {mark : String} (plain : '_' ∉ mark.toList) :
    (marked label s mark).rescope s t = marked label t mark := by
  unfold rescope
  rw [toList_marked, cutLast_append _ plain]
  dsimp only
  rw [cutLast_append _ s.underscore_not_mem_render]
  simp

theorem rescope_ofCall (label : String) (s t : Scope) (call : Nat) :
    (ofCall label s call).rescope s t = ofCall label t call := by
  rw [ofCall_eq_marked, rescope_marked label s t (underscore_not_mem_toString call)]
  rfl

theorem rescope_ofInstance (label : String) (s t : Scope) :
    (ofInstance label s).rescope s t = ofInstance label t := by
  rw [ofInstance_eq_marked, rescope_marked label s t (by decide), ofInstance_eq_marked]

end BlankNode

def Term.rename (f : BlankNode → BlankNode) (t : Term) : Term := t.relabel fun label => f ⟨label⟩

def Statement.rename (f : BlankNode → BlankNode) (st : Statement) : Statement :=
  ⟨st.subject.rename f, st.predicate.rename f, st.object.rename f⟩

namespace ExpansionFault

def value? : ExpansionFault → Option Term
  | .mismatch _ _ value _ => value
  | _ => none

def rename (f : BlankNode → BlankNode) : ExpansionFault → ExpansionFault
  | .mismatch template parameter value reason =>
    .mismatch template parameter (value.map (Term.rename f)) reason
  | other => other

theorem rename_of_value? {fault : ExpansionFault} (plain : fault.value? = none)
    (f : BlankNode → BlankNode) : fault.rename f = fault := by
  cases fault with
  | mismatch template parameter value reason =>
    cases value with
    | none => rfl
    | some t => cases plain
  | unknownTemplate | arity | cycle | depthLimit => rfl

end ExpansionFault

def ExpansionError.rename (f : BlankNode → BlankNode) (e : ExpansionError) : ExpansionError :=
  { e with fault := e.fault.rename f }

def renamed (f : BlankNode → BlankNode) :
    Except ExpansionError (List Statement) → Except ExpansionError (List Statement)
  | .ok statements => .ok (statements.map (Statement.rename f))
  | .error e => .error (e.rename f)

def nodesOf : Except ExpansionError (List Statement) → List BlankNode
  | .ok statements => statements.flatMap Statement.nodes
  | .error e => (e.fault.value?.map Term.nodes).getD []

namespace Naming

variable {ν : Type}

mutual

theorem Value.rename_render (f : BlankNode → BlankNode) (name : ν → BlankNode) (v : Value ν) :
    (v.render name).rename f = v.render fun node => f (name node) := by
  cases v with
  | iri | blank | literal | none => rfl
  | list items => simp only [Term.rename, render, Term.relabel, relabelAll_render f name items]

theorem Value.relabelAll_render (f : BlankNode → BlankNode) (name : ν → BlankNode)
    (vs : Values ν) : Term.relabelAll (fun label => f ⟨label⟩) (renderAll name vs) =
      renderAll (fun node => f (name node)) vs := by
  cases vs with
  | nil => rfl
  | cons v vs =>
    have head : (v.render name).rename f = _ := rename_render f name v
    simp only [Term.rename] at head
    simp only [renderAll, Term.relabelAll, head, relabelAll_render f name vs]

end

theorem Fact.rename_render (f : BlankNode → BlankNode) (name : ν → BlankNode) (fact : Fact ν) :
    (fact.render name).rename f = fact.render fun node => f (name node) := by
  simp only [render, Statement.rename, Value.rename_render]

-- A failure that carries no node carries no term at all.
def Failure.Bare : Failure ν → Prop
  | .plain e => e.fault.value? = none
  | .unfit .. => True

theorem Failure.rename_render (f : BlankNode → BlankNode) (name : ν → BlankNode) {e : Failure ν}
    (bare : e.Bare) : (e.render name).rename f = e.render fun node => f (name node) := by
  cases e with
  | plain e =>
    simp only [render, ExpansionError.rename, ExpansionFault.rename_of_value? bare]
  | unfit template parameter value reason span =>
    simp only [render, ExpansionError.rename, ExpansionFault.rename, Option.map_some,
      Value.rename_render]

theorem bare_of_slots {target : Template} {span : Text.Span} {value : Argument → Value ν}
    {position : Nat} {arguments : List Argument} {e : Failure ν}
    (failed : slots? target span value position arguments = .error e) : e.Bare := by
  induction arguments generalizing position with
  | nil => cases failed
  | cons a rest ih =>
    unfold slots? at failed
    dsimp only at failed
    split at failed
    · split at failed
      · exact ih (error_of_map failed)
      · cases failed
      · cases failed
        trivial
    · exact ih (error_of_map failed)

theorem bare_of_rows {inner : Call} {target : Template} {value : Argument → Value ν}
    {e : Failure ν} (failed : rows inner target value = .error e) : e.Bare := by
  unfold rows at failed
  split at failed
  · cases failed
  · split at failed
    · rename_i unslotted
      cases failed
      exact bare_of_slots unslotted
    · cases failed
    · cases failed

theorem bare_of_bind {t : Template} {given : Values ν} {span : Text.Span} {own : String → ν}
    {e : ExpansionError} (failed : bind t given span own = .error e) :
    e.fault.value? = none := by
  unfold bind at failed
  split at failed
  · cases failed
    rfl
  · cases failed

namespace Account

theorem error_of_inTurn {α : Type} {step : Nat → α → Account} {k : Nat} {items : List α}
    {e : Failure Origin} (failed : (inTurn step k items).outcome = .error e) :
    ∃ j, ∃ a ∈ items, (step j a).outcome = .error e := by
  induction items generalizing k with
  | nil => cases failed
  | cons a rest ih =>
    unfold inTurn andThen at failed
    split at failed
    · exact ⟨k, a, List.mem_cons_self, failed⟩
    · obtain ⟨j, b, member, here⟩ := ih (error_of_map failed)
      exact ⟨j, b, List.mem_cons_of_mem a member, here⟩

theorem renamed_statements {a : Account} (bare : ∀ e, a.outcome = .error e → e.Bare)
    (f : BlankNode → BlankNode) (name : Origin → BlankNode) :
    renamed f (a.statements name) = a.statements fun node => f (name node) := by
  unfold statements
  cases failed : a.outcome with
  | ok facts =>
    simp only [renamed, List.map_map, Function.comp_def, Fact.rename_render]
  | error e => exact congrArg Except.error (Failure.rename_render f name (bare e failed))

theorem named_of_statements {a : Account} (bare : ∀ e, a.outcome = .error e → e.Bare)
    {name : Origin → BlankNode} {node : BlankNode} (member : node ∈ nodesOf (a.statements name)) :
    ∃ origin, name origin = node := by
  cases result : a.statements name with
  | ok statements =>
    rw [result, nodesOf, nodes_of_statements result] at member
    obtain ⟨origin, _, same⟩ := List.mem_map.mp member
    exact ⟨origin, same⟩
  | error e =>
    unfold statements at result member
    cases failed : a.outcome with
    | ok facts =>
      rw [failed] at result
      cases result
    | error failure =>
      rw [failed] at member
      cases failure with
      | plain e =>
        have none : e.fault.value? = none := bare _ failed
        simp [nodesOf, Failure.render, none] at member
      | unfit template parameter value reason span =>
        have inside : node ∈ (value.render name).nodes := member
        rw [Value.nodes_render] at inside
        obtain ⟨origin, _, same⟩ := List.mem_map.mp inside
        exact ⟨origin, same⟩

end Account

variable {lib : Library} {limit : Option Nat}

theorem call_bare (path : List Iri) (here : Position) (atTop : Bool) (span : Text.Span)
    (target : lib.Entry) (arguments : Values Origin) :
    ∀ e, (call lib limit path here atTop span target arguments).outcome = .error e → e.Bare := by
  induction path using Expansion.path_induction lib generalizing
    here atTop span target arguments with
  | step path ih =>
    have way := course lib limit path here atTop span target arguments
    generalize call lib limit path here atTop span target arguments = account at way ⊢
    intro e failed
    cases way with
    | unbound binding =>
      cases failed
      exact bare_of_bind binding
    | skipped | statement => cases failed
    | unfit =>
      cases failed
      trivial
    | direct | deep | cyclic =>
      cases failed
      rfl
    | entered binding checked body above fresh =>
      obtain ⟨k, inner, _, failed⟩ := Account.error_of_inTurn failed
      unfold perform at failed
      split at failed
      · cases failed
        rfl
      · split at failed
        · rename_i unmade
          cases failed
          exact bare_of_rows unmade
        · obtain ⟨j, row, _, failed⟩ := Account.error_of_inTurn failed
          exact ih target.val target.property fresh _ _ _ _ _ e failed

theorem rescope_name (s t : Scope) (number : Position → Nat) (node : Origin) :
    (node.name s number).rescope s t = node.name t number := by
  cases node with
  | given label => exact BlankNode.rescope_ofInstance label s t
  | written call label => exact BlankNode.rescope_ofCall label s t _

end Naming

namespace Library

open Naming

variable {lib : Library}

theorem account_bare (limit : Option Nat) (i : Instance) :
    ∀ e, (lib.account limit i).outcome = .error e → e.Bare := by
  unfold account
  split
  · intro e failed
    cases failed
    rfl
  · exact call_bare _ _ _ _ _ _

theorem expand_carries (texts : lib.FromTexts) (limit : Option Nat) (i : Instance) (s : Scope) :
    ∀ node ∈ nodesOf (lib.expand limit i s), node.Carries s := by
  rw [expand_account texts]
  intro node member
  obtain ⟨origin, rfl⟩ := Account.named_of_statements (account_bare limit i) member
  exact carries_name s _ origin

theorem expand_rescope (texts : lib.FromTexts) (limit : Option Nat) (i : Instance)
    (s t : Scope) :
    lib.expand limit i t = renamed (BlankNode.rescope s t) (lib.expand limit i s) := by
  rw [expand_account texts, expand_account texts,
    Account.renamed_statements (account_bare limit i)]
  simp only [rescope_name]

end Library

end Stottr

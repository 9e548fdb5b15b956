import Stottr.Proofs.Document.Derived

namespace Stottr.Document

variable {α : Type} {ns : Namespaces} {ts : List Token}

def binding? : List Token → Option Binding
  | keyword :: name :: space :: _ =>
    match keyword.kind, name.kind, space.kind with
    | .prefixKeyword, .iri (.prefixed label ""), .iri (.full text) => some ⟨label, text⟩
    | _, _, _ => none
  | _ => none

def bindings : List Token → List Binding
  | [] => []
  | t :: rest => (binding? (t :: rest)).toList ++ bindings rest

def bindAll (ns : Namespaces) (declared : List Binding) : Namespaces :=
  declared.foldl (fun ns b => ns.bind b.label b.space) ns

theorem binding?_eq_none {t : Token} {rest : List Token} (other : t.kind ≠ .prefixKeyword) :
    binding? (t :: rest) = none := by
  unfold binding?
  split
  · rename_i same
    cases same
    split
    · rename_i keyword _ _
      exact absurd keyword other
    · rfl
  · rfl

theorem bindings_append_of_free (free : ∀ t ∈ ts, t.kind ≠ .prefixKeyword) (rest : List Token) :
    bindings (ts ++ rest) = bindings rest := by
  induction ts with
  | nil => rfl
  | cons t ts ih =>
    obtain ⟨other, free⟩ := List.forall_mem_cons.mp free
    rw [List.cons_append, bindings, binding?_eq_none other, ih free]
    rfl

theorem BindingRun.bindings {b : Binding} (run : BindingRun ts b) (rest : List Token) :
    bindings (ts ++ rest) = b :: bindings rest := by
  cases run with
  | @binding keyword name space dot label text begins named spaced stops =>
    have first : binding? (keyword :: name :: space :: dot :: rest) = some ⟨label, text⟩ := by
      simp only [binding?, begins, named, spaced]
    have free : ∀ t ∈ [name, space, dot], t.kind ≠ .prefixKeyword := by
      simp [named, spaced, stops]
    have others := bindings_append_of_free free rest
    simp only [List.cons_append, List.nil_append] at others ⊢
    rw [Document.bindings, first, others]
    rfl

-- What is in force after the declarations of a text are its bindings, carried out in order.
theorem Declarations.namespaces {Run : Namespaces → List Token → α → Prop} {after : Namespaces}
    {items : List α} (inner : ∀ ns us a, Run ns us a → Inner us)
    (run : Declarations Run ns ts items after) : after = bindAll ns (bindings ts) := by
  induction run with
  | done => rfl
  | binding bound _ ih =>
    rw [bound.bindings, ih]
    rfl
  | item one _ ih =>
    have free := fun t member => (inner _ _ _ one t member).2
    rw [bindings_append_of_free free, ih]

end Stottr.Document

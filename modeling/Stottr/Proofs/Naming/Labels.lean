import Stottr.Term

namespace Stottr

theorem append_underscore_inj {front front' back back' : List Char} (plain : '_' ∉ back)
    (plain' : '_' ∉ back') (same : front ++ '_' :: back = front' ++ '_' :: back') :
    front = front' ∧ back = back' := by
  rcases List.append_eq_append_iff.mp same with ⟨middle, longer, rest⟩ | ⟨middle, longer, rest⟩
  · cases middle with
    | nil =>
      cases rest
      exact ⟨by simpa using longer.symm, rfl⟩
    | cons c middle =>
      cases rest
      simp at plain
  · cases middle with
    | nil =>
      cases rest
      exact ⟨by simpa using longer, rfl⟩
    | cons c middle =>
      cases rest
      simp at plain'

theorem underscore_not_mem_toString (n : Nat) : '_' ∉ (toString n).toList := by
  simp [Nat.underscore_not_in_toDigits]

theorem toString_injective {m n : Nat} (same : toString m = toString n) : m = n := by
  have digits := congrArg (fun text : String => Nat.ofDigitChars 10 text.toList 0) same
  simpa [Nat.toString_eq_ofList_toDigits] using digits

namespace Scope

theorem render_injective {s t : Scope} (same : s.render = t.render) : s = t := by
  obtain ⟨s⟩ := s
  obtain ⟨t⟩ := t
  exact congrArg Scope.mk (UInt64.toNat_inj.mp (toString_injective same))

theorem underscore_not_mem_render (s : Scope) : '_' ∉ s.render.toList :=
  underscore_not_mem_toString _

end Scope

namespace BlankNode

-- The shape of every name: calls mark theirs with a number, top-level instances with a letter.
def marked (label : String) (scope : Scope) (mark : String) : BlankNode :=
  ⟨label ++ "_" ++ scope.render ++ "_" ++ mark⟩

theorem ofCall_eq_marked (label : String) (scope : Scope) (call : Nat) :
    ofCall label scope call = marked label scope (toString call) := rfl

theorem ofInstance_eq_marked (label : String) (scope : Scope) :
    ofInstance label scope = marked label scope "i" := by
  simp only [ofInstance, marked, String.append_assoc]
  rfl

theorem toList_marked (label : String) (scope : Scope) (mark : String) :
    (marked label scope mark).label.toList =
      (label.toList ++ '_' :: scope.render.toList) ++ '_' :: mark.toList := by
  simp [marked]

theorem marked_inj {label label' : String} {scope scope' : Scope} {mark mark' : String}
    (plain : '_' ∉ mark.toList) (plain' : '_' ∉ mark'.toList)
    (same : marked label scope mark = marked label' scope' mark') :
    label = label' ∧ scope = scope' ∧ mark = mark' := by
  have texts := congrArg (fun node => node.label.toList) same
  rw [toList_marked, toList_marked] at texts
  obtain ⟨front, marks⟩ := append_underscore_inj plain plain' texts
  obtain ⟨labels, scopes⟩ := append_underscore_inj scope.underscore_not_mem_render
    scope'.underscore_not_mem_render front
  exact ⟨String.toList_inj.mp labels, Scope.render_injective (String.toList_inj.mp scopes),
    String.toList_inj.mp marks⟩

theorem ofCall_inj {label label' : String} {scope scope' : Scope} {call call' : Nat}
    (same : ofCall label scope call = ofCall label' scope' call') :
    label = label' ∧ scope = scope' ∧ call = call' := by
  obtain ⟨labels, scopes, marks⟩ := marked_inj (underscore_not_mem_toString call)
    (underscore_not_mem_toString call') same
  exact ⟨labels, scopes, toString_injective marks⟩

theorem ofInstance_inj {label label' : String} {scope scope' : Scope}
    (same : ofInstance label scope = ofInstance label' scope') :
    label = label' ∧ scope = scope' := by
  rw [ofInstance_eq_marked, ofInstance_eq_marked] at same
  obtain ⟨labels, scopes, _⟩ := marked_inj (by decide) (by decide) same
  exact ⟨labels, scopes⟩

-- A number never ends in a letter.
theorem ofCall_ne_ofInstance (label label' : String) (scope scope' : Scope) (call : Nat) :
    ofCall label scope call ≠ ofInstance label' scope' := by
  intro same
  rw [ofInstance_eq_marked, ofCall_eq_marked] at same
  obtain ⟨_, _, marks⟩ := marked_inj (underscore_not_mem_toString call) (by decide) same
  have letter : 'i' ∈ (toString call).toList := by rw [marks]; decide
  have digit : 'i'.isDigit = true :=
    Nat.isDigit_of_mem_toDigits (b := 10) (by decide) (by decide) (by simpa using letter)
  cases digit

theorem names_injective :
    (∀ (label label' : String) (scope scope' : Scope) (call call' : Nat),
      ofCall label scope call = ofCall label' scope' call' ↔
        label = label' ∧ scope = scope' ∧ call = call') ∧
    (∀ (label label' : String) (scope scope' : Scope),
      ofInstance label scope = ofInstance label' scope' ↔ label = label' ∧ scope = scope') ∧
    ∀ (label label' : String) (scope scope' : Scope) (call : Nat),
      ofCall label scope call ≠ ofInstance label' scope' := by
  refine ⟨?_, ?_, ofCall_ne_ofInstance⟩
  · intro label label' scope scope' call call'
    refine ⟨ofCall_inj, ?_⟩
    rintro ⟨rfl, rfl, rfl⟩
    rfl
  · intro label label' scope scope'
    refine ⟨ofInstance_inj, ?_⟩
    rintro ⟨rfl, rfl⟩
    rfl

example : ofCall "b_0" ⟨0⟩ 0 ≠ ofCall "b" ⟨0⟩ 0 ∧ ofInstance "b_0" ⟨0⟩ ≠ ofCall "b" ⟨0⟩ 0 := by
  decide +kernel

def Carries (node : BlankNode) (scope : Scope) : Prop :=
  ∃ label mark, '_' ∉ mark.toList ∧ node = marked label scope mark

theorem carries_ofCall (label : String) (scope : Scope) (call : Nat) :
    (ofCall label scope call).Carries scope :=
  ⟨label, toString call, underscore_not_mem_toString call, ofCall_eq_marked ..⟩

theorem carries_ofInstance (label : String) (scope : Scope) :
    (ofInstance label scope).Carries scope :=
  ⟨label, "i", by decide, ofInstance_eq_marked ..⟩

theorem Carries.unique {node : BlankNode} {scope scope' : Scope} (one : node.Carries scope)
    (other : node.Carries scope') : scope = scope' := by
  obtain ⟨label, mark, plain, rfl⟩ := one
  obtain ⟨label', mark', plain', same⟩ := other
  exact (marked_inj plain plain' same).2.1

end BlankNode

end Stottr

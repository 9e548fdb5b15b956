import Stottr.Template.Argument

namespace Stottr

namespace Combination

-- One row for each choice of a member from every list; the last list varies fastest.
def cross {α : Type} : List (List α) → List (List α)
  | [] => [[]]
  | items :: lists => items.flatMap fun a => (cross lists).map (a :: ·)

def zip {α : Type} (filler : α) (lists : List (List α)) (rows : Nat) : List (List α) :=
  (List.range rows).map fun k => lists.map fun items => items.getD k filler

def shortest {α : Type} : List (List α) → Nat
  | [] => 0
  | [items] => items.length
  | items :: lists => min items.length (shortest lists)

def longest {α : Type} : List (List α) → Nat
  | [] => 0
  | items :: lists => max items.length (longest lists)

end Combination

def ExpansionMode.combine (mode : ExpansionMode) (lists : List (List Term)) : List (List Term) :=
  match mode with
  | .cross => Combination.cross lists
  | .zipMin => Combination.zip .none lists (Combination.shortest lists)
  | .zipMax => Combination.zip .none lists (Combination.longest lists)

theorem Combination.length_cross {α : Type} (lists : List (List α)) :
    (Combination.cross lists).length = lists.foldr (fun items count => items.length * count) 1 := by
  induction lists with
  | nil => rfl
  | cons items lists ih =>
    simp only [Combination.cross, List.length_flatMap, List.length_map, ih, List.map_const',
      List.sum_replicate_nat, List.foldr_cons]

end Stottr

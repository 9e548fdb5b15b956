import Stottr.Proofs.Naming.Binding

namespace Stottr

namespace Combination

variable {α β : Type}

theorem cross_map (f : α → β) (lists : List (List α)) :
    cross (lists.map (List.map f)) = (cross lists).map (List.map f) := by
  induction lists with
  | nil => rfl
  | cons items lists ih =>
    simp only [List.map_cons, cross, ih, List.flatMap_map, List.map_flatMap, List.map_map,
      Function.comp_def]

theorem zip_map (f : α → β) (filler : α) (lists : List (List α)) (rows : Nat) :
    zip (f filler) (lists.map (List.map f)) rows = (zip filler lists rows).map (List.map f) := by
  simp only [zip, List.map_map, Function.comp_def, List.getD_eq_getElem?_getD, List.getElem?_map,
    Option.getD_map]

theorem shortest_map (f : α → β) (lists : List (List α)) :
    shortest (lists.map (List.map f)) = shortest lists := by
  induction lists using shortest.induct with
  | case1 => rfl
  | case2 items => exact List.length_map f
  | case3 items lists _ ih =>
    cases lists with
    | nil => exact List.length_map f
    | cons other lists =>
      simp only [List.map_cons, shortest, List.length_map] at ih ⊢
      rw [ih]

theorem longest_map (f : α → β) (lists : List (List α)) :
    longest (lists.map (List.map f)) = longest lists := by
  induction lists with
  | nil => rfl
  | cons items lists ih => simp only [List.map_cons, longest, ih, List.length_map]

theorem mem_cross {lists : List (List α)} {row : List α} (chosen : row ∈ cross lists) :
    ∀ a ∈ row, ∃ items ∈ lists, a ∈ items := by
  induction lists generalizing row with
  | nil =>
    intro a member
    rw [List.mem_singleton.mp chosen] at member
    cases member
  | cons items lists ih =>
    obtain ⟨first, here, chosen⟩ := List.mem_flatMap.mp chosen
    obtain ⟨others, below, rfl⟩ := List.mem_map.mp chosen
    intro a member
    rcases List.mem_cons.mp member with rfl | later
    · exact ⟨items, by simp, here⟩
    · obtain ⟨source, listed, inside⟩ := ih below a later
      exact ⟨source, List.mem_cons_of_mem _ listed, inside⟩

theorem mem_zip {filler : α} {lists : List (List α)} {rows : Nat} {row : List α}
    (chosen : row ∈ zip filler lists rows) :
    ∀ a ∈ row, a = filler ∨ ∃ items ∈ lists, a ∈ items := by
  obtain ⟨k, _, rfl⟩ := List.mem_map.mp chosen
  intro a member
  obtain ⟨items, listed, rfl⟩ := List.mem_map.mp member
  rw [List.getD_eq_getElem?_getD]
  cases held : items[k]? with
  | none => exact .inl rfl
  | some b => exact .inr ⟨items, listed, List.mem_of_getElem? held⟩

end Combination

namespace Naming

variable {ν : Type}

-- An error that shows a value shows the names of its nodes.
inductive Failure (ν : Type) where
  | plain (e : ExpansionError)
  | unfit (template : Iri) (parameter : Option String) (value : Value ν) (reason : Mismatch)
    (span : Text.Span)

def Failure.render (name : ν → BlankNode) : Failure ν → ExpansionError
  | .plain e => e
  | .unfit template parameter value reason span =>
    ⟨.mismatch template parameter (some (value.render name)) reason, span⟩

inductive Slot (ν : Type) where
  | fixed (value : Value ν)
  | spread (items : Values ν)

namespace Slot

def items? : Slot ν → Option (Values ν)
  | .fixed _ => none
  | .spread items => some items

def fill : List (Slot ν) → Values ν → Values ν
  | [], _ => []
  | .fixed value :: slots, row => value :: fill slots row
  | .spread _ :: slots, row => row.headD .none :: fill slots row.tail

def render (name : ν → BlankNode) : Slot ν → Expansion.Slot
  | .fixed value => .fixed (value.render name)
  | .spread items => .spread (Values.render name items)

theorem render_fill (name : ν → BlankNode) (slots : List (Slot ν)) (row : Values ν) :
    (fill slots row).render name =
      Expansion.Slot.fill (slots.map (render name)) (row.render name) := by
  induction slots generalizing row with
  | nil => rfl
  | cons slot slots ih =>
    cases slot with
    | fixed value => exact congrArg (value.render name :: ·) (ih row)
    | spread items =>
      cases row with
      | nil => exact congrArg (Term.none :: ·) (ih [])
      | cons v row => exact congrArg (v.render name :: ·) (ih row)

theorem items?_render (name : ν → BlankNode) (slots : List (Slot ν)) :
    (slots.map (render name)).filterMap Expansion.Slot.items? =
      (slots.filterMap items?).map (Values.render name) := by
  induction slots with
  | nil => rfl
  | cons slot slots ih =>
    cases slot with
    | fixed value => exact ih
    | spread items => exact congrArg (items.render name :: ·) ih

def Within (P : ν → Prop) : Slot ν → Prop
  | .fixed value => value.Within P
  | .spread items => ∀ v ∈ items, v.Within P

theorem within_fill {P : ν → Prop} {slots : List (Slot ν)} {row : Values ν}
    (each : ∀ slot ∈ slots, slot.Within P) (members : ∀ v ∈ row, v.Within P) :
    ∀ v ∈ fill slots row, v.Within P := by
  induction slots generalizing row with
  | nil =>
    intro v member
    cases member
  | cons slot slots ih =>
    have others := fun slot member => each slot (List.mem_cons_of_mem _ member)
    intro v member
    cases slot with
    | fixed value =>
      rcases List.mem_cons.mp member with rfl | later
      · exact each (.fixed _) (by simp)
      · exact ih others members v later
    | spread items =>
      rcases List.mem_cons.mp member with rfl | later
      · cases row with
        | nil => exact Value.within_none P
        | cons u row => exact members u (by simp)
      · exact ih others (fun v inside => members v (List.mem_of_mem_tail inside)) v later

theorem within_items {P : ν → Prop} {slots : List (Slot ν)}
    (each : ∀ slot ∈ slots, slot.Within P) :
    ∀ items ∈ slots.filterMap items?, ∀ v ∈ items, v.Within P := by
  intro items listed
  obtain ⟨slot, member, spread⟩ := List.mem_filterMap.mp listed
  cases slot with
  | fixed => cases spread
  | spread =>
    cases spread
    exact each _ member

end Slot

def Value.kind (v : Value ν) : Term.Kind := v.shape.kind

def slots? (target : Template) (span : Text.Span) (value : Argument → Value ν) (position : Nat) :
    List Argument → Except (Failure ν) (Option (List (Slot ν)))
  | [] => .ok (some [])
  | a :: rest =>
    let later := fun slot =>
      (slots? target span value (position + 1) rest).map (Option.map (slot :: ·))
    match a with
    | .expand inner =>
      match value inner with
      | .list items => later (.spread items)
      | .none => .ok none
      | other =>
        let parameter := target.parameters[position]?.map Parameter.name
        .error (.unfit target.iri parameter other (.expectedList other.kind) span)
    | plain => later (.fixed (value plain))

def combine (mode : ExpansionMode) (lists : List (Values ν)) : List (Values ν) :=
  match mode with
  | .cross => Combination.cross lists
  | .zipMin => Combination.zip .none lists (Combination.shortest lists)
  | .zipMax => Combination.zip .none lists (Combination.longest lists)

def rows (call : Call) (target : Template) (value : Argument → Value ν) :
    Except (Failure ν) (List (Values ν)) :=
  match call.mode with
  | none => .ok [call.arguments.map value]
  | some mode =>
    match slots? target call.span value 0 call.arguments with
    | .error e => .error e
    | .ok none => .ok []
    | .ok (some slots) => .ok ((combine mode (slots.filterMap Slot.items?)).map (Slot.fill slots))

def render (name : ν → BlankNode) {α β : Type} (later : α → β) :
    Except (Failure ν) α → Except ExpansionError β
  | .ok a => .ok (later a)
  | .error e => .error (e.render name)

theorem render_slots (name : ν → BlankNode) (target : Template) (span : Text.Span)
    (value : Argument → Value ν) (position : Nat) (arguments : List Argument) :
    render name (Option.map (List.map (Slot.render name)))
        (slots? target span value position arguments) =
      Expansion.slots? target span (fun a => (value a).render name) position arguments := by
  induction arguments generalizing position with
  | nil => rfl
  | cons a rest ih =>
    have below := ih (position + 1)
    unfold slots? Expansion.slots?
    rw [← below]
    generalize slots? target span value (position + 1) rest = others
    rcases a with value | index | items | inner
    · rcases others with e | _ | slots <;> rfl
    · rcases others with e | _ | slots <;> rfl
    · rcases others with e | _ | slots <;> rfl
    · dsimp only
      cases value inner with
      | list items =>
        simp only [Value.render, Value.renderAll_eq_map]
        rcases others with e | _ | slots <;> rfl
      | none => rfl
      | iri | blank | literal => rfl

theorem combine_render (name : ν → BlankNode) (mode : ExpansionMode) (lists : List (Values ν)) :
    mode.combine (lists.map (Values.render name)) =
      (combine mode lists).map (Values.render name) := by
  cases mode with
  | cross => exact Combination.cross_map (Value.render name) lists
  | zipMin =>
    simp only [ExpansionMode.combine, combine]
    rw [← Combination.shortest_map (Value.render name) lists]
    exact Combination.zip_map (Value.render name) .none lists _
  | zipMax =>
    simp only [ExpansionMode.combine, combine]
    rw [← Combination.longest_map (Value.render name) lists]
    exact Combination.zip_map (Value.render name) .none lists _

theorem render_rows (name : ν → BlankNode) (call : Call) (target : Template) (env : Values ν)
    (own : String → ν) :
    render name (List.map (Values.render name)) (rows call target (evaluate env own)) =
      Expansion.rows call target
        (Argument.evaluate (env.render name) fun label => name (own label)) := by
  have same : (Argument.evaluate (env.render name) fun label => name (own label)) =
      fun a => (evaluate env own a).render name := by
    funext a
    exact (render_evaluate name env own a).symm
  rw [same]
  unfold rows Expansion.rows
  cases call.mode with
  | none => simp [render, Values.render]
  | some mode =>
    have slots := render_slots name target call.span (evaluate env own) 0 call.arguments
    dsimp only
    rw [← slots]
    cases slots? target call.span (evaluate env own) 0 call.arguments with
    | error e => rfl
    | ok found =>
      cases found with
      | none => rfl
      | some slots =>
        simp only [render, Option.map_some, Slot.items?_render, combine_render, List.map_map,
          Function.comp_def, Slot.render_fill]

theorem within_slots {P : ν → Prop} {target : Template} {span : Text.Span}
    {value : Argument → Value ν} (each : ∀ a, (value a).Within P) (position : Nat)
    (arguments : List Argument) {slots : List (Slot ν)}
    (found : slots? target span value position arguments = .ok (some slots)) :
    ∀ slot ∈ slots, slot.Within P := by
  induction arguments generalizing position slots with
  | nil =>
    cases found
    intro slot member
    cases member
  | cons a rest ih =>
    have later : ∀ first : Slot ν, first.Within P →
        (slots? target span value (position + 1) rest).map (Option.map (first :: ·)) =
          .ok (some slots) → ∀ slot ∈ slots, slot.Within P := by
      intro first here found
      cases below : slots? target span value (position + 1) rest with
      | error e =>
        rw [below] at found
        cases found
      | ok others =>
        rw [below] at found
        obtain ⟨others, rfl, rfl⟩ := Option.map_eq_some_iff.mp (Except.ok.inj found)
        intro slot member
        rcases List.mem_cons.mp member with rfl | behind
        · exact here
        · exact ih (position + 1) below slot behind
    rcases a with term | index | items | inner
    · exact later (.fixed _) (each _) found
    · exact later (.fixed _) (each _) found
    · exact later (.fixed _) (each _) found
    · have inside := each inner
      unfold slots? at found
      dsimp only at found
      cases held : value inner with
      | list items =>
        rw [held] at found inside
        exact later (.spread items) (Value.within_list.mp inside) found
      | none | iri | blank | literal =>
        rw [held] at found
        cases found

theorem within_combine {P : ν → Prop} {mode : ExpansionMode} {lists : List (Values ν)}
    (each : ∀ items ∈ lists, ∀ v ∈ items, v.Within P) :
    ∀ row ∈ combine mode lists, ∀ v ∈ row, v.Within P := by
  have zipped : ∀ count, ∀ row ∈ Combination.zip .none lists count, ∀ v ∈ row, v.Within P := by
    intro count row chosen v member
    rcases Combination.mem_zip chosen v member with rfl | ⟨items, listed, inside⟩
    · exact Value.within_none P
    · exact each items listed v inside
  cases mode with
  | cross =>
    intro row chosen v member
    obtain ⟨items, listed, inside⟩ := Combination.mem_cross chosen v member
    exact each items listed v inside
  | zipMin => exact zipped _
  | zipMax => exact zipped _

theorem within_rows {P : ν → Prop} {call : Call} {target : Template} {value : Argument → Value ν}
    (each : ∀ a, (value a).Within P) {found : List (Values ν)}
    (made : rows call target value = .ok found) : ∀ row ∈ found, ∀ v ∈ row, v.Within P := by
  unfold rows at made
  split at made
  · cases made
    intro row chosen v member
    rw [List.mem_singleton.mp chosen] at member
    obtain ⟨a, _, rfl⟩ := List.mem_map.mp member
    exact each a
  · split at made
    · cases made
    · cases made
      intro row chosen
      cases chosen
    · rename_i slots listed
      cases made
      have fit := within_slots each 0 _ listed
      intro row chosen
      obtain ⟨members, combined, rfl⟩ := List.mem_map.mp chosen
      exact Slot.within_fill fit (within_combine (Slot.within_items fit) members combined)

end Naming

end Stottr

namespace Stottr

-- Items filed under a text of their own, one to a text. The order is that of code points, which is
-- that of the bytes in UTF-8.
structure Keyed (α : Type) (key : α → String) where
  items : List α
  ascending : items.Pairwise fun a b => key a < key b

namespace Keyed

variable {α : Type} {key : α → String}

def empty : Keyed α key := ⟨[], .nil⟩

def find? (m : Keyed α key) (k : String) : Option α :=
  m.items.find? fun a => key a = k

def contains (m : Keyed α key) (k : String) : Bool := (m.find? k).isSome

-- An item already filed under the same text gives way.
def insertInto (key : α → String) (a : α) : List α → List α
  | [] => [a]
  | b :: bs =>
    if key a < key b then a :: b :: bs
    else if key a = key b then a :: bs
    else b :: insertInto key a bs

theorem mem_insertInto (a c : α) (items : List α) :
    c ∈ insertInto key a items → c = a ∨ c ∈ items := by
  induction items with
  | nil => simp [insertInto]
  | cons b bs ih =>
    intro member
    unfold insertInto at member
    split at member
    · simpa using member
    · split at member
      · rcases List.mem_cons.mp member with rfl | old
        · exact .inl rfl
        · exact .inr (List.mem_cons_of_mem _ old)
      · rcases List.mem_cons.mp member with rfl | old
        · exact .inr (by simp)
        · rcases ih old with same | older
          · exact .inl same
          · exact .inr (List.mem_cons_of_mem _ older)

theorem insertInto_ascending (a : α) (items : List α)
    (sorted : items.Pairwise fun a b => key a < key b) :
    (insertInto key a items).Pairwise fun a b => key a < key b := by
  induction items with
  | nil => simp [insertInto]
  | cons b bs ih =>
    rw [List.pairwise_cons] at sorted
    unfold insertInto
    split
    · rename_i less
      refine List.pairwise_cons.mpr ⟨?_, List.pairwise_cons.mpr sorted⟩
      intro c member
      rcases List.mem_cons.mp member with rfl | later
      · exact less
      · exact String.lt_trans less (sorted.1 c later)
    · split
      · rename_i same
        exact List.pairwise_cons.mpr ⟨fun c later => same ▸ sorted.1 c later, sorted.2⟩
      · rename_i notLess different
        refine List.pairwise_cons.mpr ⟨?_, ih sorted.2⟩
        intro c member
        rcases mem_insertInto a c bs member with rfl | later
        · rcases Std.lt_trichotomy (key c) (key b) with less | same | greater
          · exact absurd less notLess
          · exact absurd same different
          · exact greater
        · exact sorted.1 c later

def insert (m : Keyed α key) (a : α) : Keyed α key :=
  ⟨insertInto key a m.items, insertInto_ascending a m.items m.ascending⟩

def ofList (items : List α) : Keyed α key := items.foldl insert empty

def size (m : Keyed α key) : Nat := m.items.length

theorem key_of_find? (m : Keyed α key) (k : String) (a : α) (found : m.find? k = some a) :
    key a = k := by
  simpa using List.find?_some found

theorem mem_of_find? (m : Keyed α key) (k : String) (a : α) (found : m.find? k = some a) :
    a ∈ m.items :=
  List.mem_of_find?_eq_some found

theorem find?_of_mem (m : Keyed α key) (a : α) (member : a ∈ m.items) :
    m.find? (key a) = some a := by
  obtain ⟨items, sorted⟩ := m
  unfold find?
  dsimp only at member ⊢
  induction items with
  | nil => cases member
  | cons b bs ih =>
    rw [List.pairwise_cons] at sorted
    rcases List.mem_cons.mp member with rfl | later
    · simp
    · have less := sorted.1 a later
      have different : key b ≠ key a := fun same => String.lt_irrefl _ (same ▸ less)
      simpa [different] using ih sorted.2 later

theorem find?_insertInto (a : α) (items : List α) (k : String)
    (sorted : items.Pairwise fun a b => key a < key b) :
    (insertInto key a items).find? (fun c => key c = k) =
      if key a = k then some a else items.find? fun c => key c = k := by
  induction items with
  | nil => by_cases h : key a = k <;> simp [insertInto, h]
  | cons b bs ih =>
    rw [List.pairwise_cons] at sorted
    unfold insertInto
    split
    · by_cases h : key a = k <;> simp [h]
    · split
      · rename_i same
        by_cases h : key a = k
        · simp [h]
        · simp [h, same ▸ h]
      · rename_i different
        by_cases hb : key b = k
        · have ha : key a ≠ k := fun h => different (h.trans hb.symm)
          simp [hb, ha]
        · simpa [hb] using ih sorted.2

theorem find?_insert (m : Keyed α key) (a : α) (k : String) :
    (m.insert a).find? k = if key a = k then some a else m.find? k :=
  find?_insertInto a m.items k m.ascending

end Keyed

end Stottr

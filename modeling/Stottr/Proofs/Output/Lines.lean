import Mathlib.Data.List.Basic
import Stottr.Output

namespace Stottr

namespace Text

theorem segments_append {separator : Char} {cs : List Char} (absent : separator ∉ cs)
    (rest : List Char) :
    segments separator (cs ++ separator :: rest) = cs :: segments separator rest := by
  induction cs with
  | nil => rw [List.nil_append, segments, if_pos rfl]
  | cons c cs ih =>
    obtain ⟨other, absent⟩ := List.ne_and_not_mem_of_not_mem_cons absent
    rw [List.cons_append, segments, if_neg (Ne.symm other), ih absent]

theorem append_cons_inj {separator : Char} {front front' back back' : List Char}
    (absent : separator ∉ front) (absent' : separator ∉ front')
    (same : front ++ separator :: back = front' ++ separator :: back') :
    front = front' ∧ back = back' := by
  induction front generalizing front' with
  | nil =>
    cases front' with
    | nil => exact ⟨rfl, (List.cons.inj same).2⟩
    | cons c front' => simp [(List.cons.inj same).1] at absent'
  | cons c front ih =>
    cases front' with
    | nil => simp [(List.cons.inj same).1] at absent
    | cons d front' =>
      obtain ⟨rfl, rest⟩ := List.cons.inj same
      obtain ⟨rfl, backs⟩ := ih (List.not_mem_of_not_mem_cons absent)
        (List.not_mem_of_not_mem_cons absent') rest
      exact ⟨rfl, backs⟩

theorem length_segments (separator : Char) (cs : List Char) :
    (segments separator cs).length = cs.count separator + 1 := by
  induction cs with
  | nil => rfl
  | cons c cs ih =>
    unfold segments
    split
    · rename_i same
      rw [List.length_cons, ih, same, List.count_cons_self]
    · rename_i other
      rw [List.count_cons_of_ne other, ← ih]
      split
      · rename_i none
        exact absurd none (segments_ne_nil separator cs)
      · rename_i split
        rw [split]
        rfl

theorem mem_segments (separator : Char) {c : Char} {cs : List Char} (member : c ∈ cs) :
    c = separator ∨ ∃ part ∈ segments separator cs, c ∈ part := by
  induction cs with
  | nil => cases member
  | cons d cs ih =>
    unfold segments
    split
    · rename_i same
      rcases List.mem_cons.mp member with rfl | member
      · exact .inl same
      · refine (ih member).imp_right ?_
        rintro ⟨part, listed, inside⟩
        exact ⟨part, List.mem_cons_of_mem _ listed, inside⟩
    · split
      · rename_i none
        exact absurd none (segments_ne_nil separator cs)
      · rename_i first others parts
        rw [parts] at ih
        rcases List.mem_cons.mp member with rfl | member
        · exact .inr ⟨_, List.mem_cons_self, List.mem_cons_self⟩
        · refine (ih member).imp_right ?_
          rintro ⟨part, listed, inside⟩
          rcases List.mem_cons.mp listed with rfl | listed
          · exact ⟨_, List.mem_cons_self, List.mem_cons_of_mem _ inside⟩
          · exact ⟨part, List.mem_cons_of_mem _ listed, inside⟩

def InLine (cs : List Char) : Prop := ∀ c ∈ cs, c ≠ '\n' ∧ c ≠ '\r'

@[simp] theorem inLine_append {cs ds : List Char} : InLine (cs ++ ds) ↔ InLine cs ∧ InLine ds :=
  List.forall_mem_append

@[simp] theorem inLine_cons {c : Char} {cs : List Char} :
    InLine (c :: cs) ↔ (c ≠ '\n' ∧ c ≠ '\r') ∧ InLine cs :=
  List.forall_mem_cons

@[simp] theorem inLine_nil : InLine [] := nofun

@[simp] theorem inLine_flatMap {α : Type} {f : α → List Char} {items : List α} :
    InLine (items.flatMap f) ↔ ∀ item ∈ items, InLine (f item) :=
  List.forall_mem_flatMap

theorem inLine_of_visible {cs : List Char} (visible : ∀ c ∈ cs, isBlank c = false) : InLine cs := by
  intro c member
  have shown := visible c member
  constructor <;> rintro rfl <;> cases shown

end Text

namespace Format

def body (format : Format) (s : Statement) : String :=
  match format with
  | .ntriples => s.render
  | .json => s.toJson

variable {format : Format} {statements others : List Statement}

theorem line_eq (format : Format) (s : Statement) : format.line s = format.body s ++ "\n" := by
  cases format <;> rfl

@[simp] theorem write_nil (format : Format) : (format.write []).toList = [] := by
  simp [write]

@[simp] theorem write_cons (format : Format) (s : Statement) (statements : List Statement) :
    (format.write (s :: statements)).toList =
      (format.body s).toList ++ '\n' :: (format.write statements).toList := by
  simp [write, line_eq, List.append_assoc]

theorem segments_write (inLine : ∀ s ∈ statements, '\n' ∉ (format.body s).toList) :
    Text.segments '\n' (format.write statements).toList =
      statements.map (fun s => (format.body s).toList) ++ [[]] := by
  induction statements with
  | nil => rw [write_nil]; rfl
  | cons s statements ih =>
    obtain ⟨first, others⟩ := List.forall_mem_cons.mp inLine
    rw [write_cons, Text.segments_append first, ih others]
    rfl

theorem count_write (inLine : ∀ s ∈ statements, '\n' ∉ (format.body s).toList) :
    (format.write statements).toList.count '\n' = statements.length := by
  have lines := congrArg List.length (segments_write inLine)
  rw [Text.length_segments] at lines
  simpa using lines

theorem write_inj (Kept : Statement → Prop)
    (inLine : ∀ s, Kept s → '\n' ∉ (format.body s).toList)
    (apart : ∀ s t, Kept s → Kept t → format.body s = format.body t → s = t)
    (first : ∀ s ∈ statements, Kept s) (second : ∀ s ∈ others, Kept s)
    (same : (format.write statements).toList = (format.write others).toList) :
    statements = others := by
  induction statements generalizing others with
  | nil =>
    cases others with
    | nil => rfl
    | cons t others => simp at same
  | cons s statements ih =>
    cases others with
    | nil => simp at same
    | cons t others =>
      obtain ⟨keptS, first⟩ := List.forall_mem_cons.mp first
      obtain ⟨keptT, second⟩ := List.forall_mem_cons.mp second
      rw [write_cons, write_cons] at same
      obtain ⟨head, tail⟩ := Text.append_cons_inj (inLine s keptS) (inLine t keptT) same
      rw [apart s t keptS keptT (String.toList_inj.mp head), ih first second tail]

end Format

end Stottr

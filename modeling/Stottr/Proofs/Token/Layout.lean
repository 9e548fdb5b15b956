import Stottr.Proofs.Token.Names

namespace Stottr.Token

def LineEnds (cs : List Char) : Prop :=
  (∃ more, cs = '\n' :: more) ∨ ∃ more, cs = '\r' :: '\n' :: more

-- What may stand in front of a token, or else at the end of a text, which may end in a comment.
inductive Layout (atEnd : Bool) : List Char → Prop where
  | nil : Layout atEnd []
  | space {c : Char} {cs : List Char} (blank : isSpace c = true) (later : Layout atEnd cs) :
    Layout atEnd (c :: cs)
  | comment {note cs : List Char} (inLine : ∀ c ∈ note, isLineEnd c = false) (ends : LineEnds cs)
    (later : Layout atEnd cs) : Layout atEnd ('#' :: (note ++ cs))
  | last {note : List Char} (isLast : atEnd = true) (inLine : ∀ c ∈ note, isLineEnd c = false) :
    Layout atEnd ('#' :: note)

theorem LineEnds.append {cs : List Char} (ends : LineEnds cs) (behind : List Char) :
    LineEnds (cs ++ behind) := by
  rcases ends with ⟨more, rfl⟩ | ⟨more, rfl⟩
  · exact .inl ⟨more ++ behind, rfl⟩
  · exact .inr ⟨more ++ behind, rfl⟩

section Forms

variable {run note : List Char}

theorem layout_of_spaces (blank : ∀ c ∈ run, isSpace c = true) : Layout false run := by
  induction run with
  | nil => exact .nil
  | cons c run ih =>
    obtain ⟨first, others⟩ := List.forall_mem_cons.mp blank
    exact .space first (ih others)

theorem layout_of_comment (inLine : ∀ c ∈ note, isLineEnd c = false) :
    Layout false ('#' :: (note ++ ['\n'])) :=
  .comment inLine (.inl ⟨[], rfl⟩) (.space rfl .nil)

end Forms

theorem inLine_takeWhile (cs : List Char) :
    ∀ c ∈ cs.takeWhile (!isLineEnd ·), isLineEnd c = false := by
  intro c member
  simpa using List.mem_takeWhile_imp member

theorem commentWidth?_eq_some_iff {cs : List Char} {width : Nat} :
    commentWidth? cs = some width ↔ width = (cs.takeWhile (!isLineEnd ·)).length ∧
      (cs.drop width = [] ∨ LineEnds (cs.drop width)) := by
  unfold commentWidth?
  dsimp only
  constructor
  · intro found
    split at found
    · rename_i none
      cases found
      exact ⟨rfl, .inl none⟩
    · rename_i more feed
      cases found
      exact ⟨rfl, .inr (.inl ⟨more, feed⟩)⟩
    · rename_i more feed
      cases found
      exact ⟨rfl, .inr (.inr ⟨more, feed⟩)⟩
    · cases found
  · rintro ⟨rfl, none | ⟨more, feed⟩ | ⟨more, feed⟩⟩
    · rw [none]
    · rw [feed]
      rfl
    · rw [feed]
      rfl

theorem takeWhile_note {note cs : List Char} (inLine : ∀ c ∈ note, isLineEnd c = false)
    (stops : ∀ c ∈ cs.head?, isLineEnd c = true) :
    (note ++ cs).takeWhile (!isLineEnd ·) = note :=
  takeWhile_append_stop (fun c member => by simp [inLine c member])
    (fun c first => by simp [stops c first])

theorem triviaWidth_of_comment {note cs : List Char} (inLine : ∀ c ∈ note, isLineEnd c = false)
    (ends : cs = [] ∨ LineEnds cs) :
    triviaWidth ('#' :: (note ++ cs)) = triviaWidth cs + note.length + 1 := by
  have stops : ∀ c ∈ cs.head?, isLineEnd c = true := by
    rcases ends with rfl | ⟨more, rfl⟩ | ⟨more, rfl⟩ <;> rintro c ⟨⟩ <;> rfl
  have measured : commentWidth? (note ++ cs) = some note.length := by
    rw [commentWidth?_eq_some_iff, takeWhile_note inLine stops, List.drop_left]
    exact ⟨rfl, ends⟩
  rw [triviaWidth, if_neg (by decide), if_pos rfl, measured]
  dsimp only
  rw [List.drop_left]

theorem Layout.width {front : List Char} (layout : Layout false front) (behind : List Char) :
    triviaWidth (front ++ behind) = front.length + triviaWidth behind := by
  induction layout with
  | nil => simp
  | @space c cs blank _ ih =>
    rw [List.cons_append, triviaWidth_of_space blank, ih, List.length_cons]
    omega
  | @comment note cs inLine ends _ ih =>
    rw [List.cons_append, List.append_assoc, triviaWidth_of_comment inLine
      (.inr (ends.append behind)), ih, List.length_cons, List.length_append]
    omega
  | last isLast => cases isLast

theorem LineEnds.take_trivia {cs : List Char} (ends : LineEnds cs) :
    LineEnds (cs.take (triviaWidth cs)) := by
  rcases ends with ⟨more, rfl⟩ | ⟨more, rfl⟩
  · rw [triviaWidth_of_space rfl]
    exact .inl ⟨_, rfl⟩
  · rw [triviaWidth_of_space rfl, triviaWidth_of_space rfl]
    exact .inr ⟨_, rfl⟩

theorem layout_trivia (cs : List Char) :
    Layout (cs.drop (triviaWidth cs)).isEmpty (cs.take (triviaWidth cs)) := by
  fun_induction triviaWidth cs with
  | case1 => exact .nil
  | case2 c rest blank ih => exact .space blank ih
  | case3 rest width measured _ ih =>
    obtain ⟨run, behind⟩ := commentWidth?_eq_some_iff.mp measured
    have note : rest.take width = rest.takeWhile (!isLineEnd ·) := by
      rw [run]
      exact (List.prefix_iff_eq_take.mp (List.takeWhile_prefix _)).symm
    rw [List.drop_drop] at ih
    rw [List.drop_succ_cons, List.take_succ_cons, Nat.add_comm _ width, List.take_add, note]
    rcases behind with none | ends
    · rw [none, List.take_nil, List.append_nil]
      refine .last ?_ (inLine_takeWhile rest)
      rw [← List.drop_drop, none, List.drop_nil, List.isEmpty_nil]
    · exact .comment (inLine_takeWhile rest) ends.take_trivia ih
  | case4 => exact .nil
  | case5 => exact .nil

theorem layout_of_starts {cs : List Char} {c : Char} {rest : List Char}
    (starts : cs.drop (triviaWidth cs) = c :: rest) :
    Layout false (cs.take (triviaWidth cs)) := by
  have layout := layout_trivia cs
  rwa [starts, List.isEmpty_cons] at layout

-- Where a token or a fault is found, nothing more could have been passed over.
theorem triviaWidth_of_starts {cs : List Char} {c : Char} {rest : List Char}
    (starts : cs.drop (triviaWidth cs) = c :: rest) : triviaWidth (c :: rest) = 0 := by
  have width := (layout_of_starts starts).width (c :: rest)
  have inside : triviaWidth cs ≤ cs.length := by
    have tail := congrArg List.length starts
    rw [List.length_drop, List.length_cons] at tail
    omega
  rw [← starts, List.take_append_drop, List.length_take_of_le inside, starts] at width
  omega

end Stottr.Token

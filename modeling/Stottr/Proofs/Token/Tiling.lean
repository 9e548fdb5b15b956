import Stottr.Proofs.Token.Lookahead

namespace Stottr

namespace Text.Position

-- The position behind a stretch of text from the start: the bytes of the stretch, one more than its
-- line feeds, and one more than its characters since the last of them.
def behind (front : List Char) : Position where
  offset := (String.ofList front).utf8ByteSize
  line := 1 + front.count '\n'
  column := 1 + (front.rtakeWhile (· ≠ '\n')).length

theorem start_after (front : List Char) : start.after front = behind front := by
  induction front using List.reverseRecOn with
  | nil => rfl
  | append_singleton front c ih =>
    rw [after_append, ih, after_cons, after_nil]
    by_cases feed : c = '\n'
    · subst feed
      simp [next, behind, Nat.add_assoc]
      rfl
    · simp [next, behind, feed, Nat.add_assoc]

theorem behind_append_offset (front spelled : List Char) :
    (behind (front ++ spelled)).offset = (behind front).offset + (behind spelled).offset := by
  rw [behind, String.ofList_append, String.utf8ByteSize_append]
  rfl

theorem behind_cons_offset_pos (c : Char) (spelled : List Char) :
    0 < (behind (c :: spelled)).offset := by
  rw [← List.singleton_append, behind_append_offset]
  exact Nat.add_pos_left (by simpa [behind] using c.utf8Size_pos) _

end Text.Position

namespace Token

open Text

-- The text of a token is read as the token, and as nothing else.
def Alone (spelled : List Char) (kind : TokenKind) : Prop :=
  ∃ stream, scan (String.ofList spelled) = .ok stream ∧ stream.tokens.map Token.kind = [kind]

-- The text behind `front` is made of tokens with layout around them. Every span tells where its
-- token stands, and the last one is the place where the text ends.
inductive Tiles : List Char → List Char → List Token → Span → Prop where
  | stop {front gap : List Char} {stop : Span} (layout : Layout true gap)
    (located : stop = Span.between (.behind (front ++ gap)) (.behind (front ++ gap))) :
    Tiles front gap [] stop
  | token {front gap spelled after : List Char} {t : Token} {later : List Token} {stop : Span}
    (layout : Layout false gap) (notEmpty : spelled ≠ [])
    (located : t.span = Span.between (.behind (front ++ gap)) (.behind (front ++ gap ++ spelled)))
    (alone : Alone spelled t.kind) (remainder : Tiles (front ++ gap ++ spelled) after later stop) :
    Tiles front (gap ++ spelled ++ after) (t :: later) stop

theorem lexeme_alone {c : Char} {rest : List Char} {found : Lexeme}
    (read : lexeme c rest = .ok found) :
    lexeme c (rest.take found.more ++ []) = .ok ⟨found.kind, (rest.take found.more).length⟩ := by
  have length : (rest.take found.more).length = found.more :=
    List.length_take_of_le (lexeme_fits read)
  rw [← List.take_append_drop found.more rest] at read
  have torn : (rest.take found.more).drop found.more = [] := List.drop_eq_nil_of_le length.le
  rw [lexeme_kept read length.ge parted_nil (by rw [torn]; exact nofun), length]

theorem alone_of_lexeme {c : Char} {rest : List Char} {found : Lexeme}
    (read : lexeme c rest = .ok found) : Alone (c :: rest.take found.more) found.kind := by
  obtain ⟨notSpace, notHash⟩ := lexeme_starts read
  have reads := readsAs_token notSpace notHash (lexeme_alone read) reads_nil .start
  rw [List.append_nil] at reads
  rwa [Alone, exists_scan_iff, String.toList_ofList]

theorem tiles_of_scanFrom {front cs : List Char} {stream : TokenStream}
    (accepted : scanFrom (Position.start.after front) cs = .ok stream) :
    Tiles front cs stream.tokens stream.stop := by
  generalize origin : Position.start.after front = p at accepted
  fun_induction scanFrom p cs generalizing front stream
  case case1 p cs width first blank =>
    cases accepted
    have layout := layout_trivia cs
    have whole : cs.take (triviaWidth cs) = cs :=
      List.take_of_length_le (List.drop_eq_nil_iff.mp blank)
    have ends : first = .behind (front ++ cs) := by
      rw [← Position.start_after, Position.after_append, origin, ← whole]
    rw [blank, List.isEmpty_nil, whole] at layout
    refine .stop layout ?_
    rw [ends]
  case case2 => cases accepted
  case case3 => cases accepted
  case case4 p cs width first c rest starts found read last shorter later remainder ih =>
    cases accepted
    have begins : first = .behind (front ++ cs.take (triviaWidth cs)) := by
      rw [← Position.start_after, Position.after_append, origin]
    have ends :
        last = .behind (front ++ cs.take (triviaWidth cs) ++ c :: rest.take found.more) := by
      rw [← Position.start_after, Position.after_append, Position.start_after, ← begins]
    have tiles : Tiles front
        (cs.take (triviaWidth cs) ++ (c :: rest.take found.more) ++ rest.drop found.more)
        (⟨found.kind, Span.between first last⟩ :: later.tokens) later.stop := by
      refine .token (layout_of_starts starts) (List.cons_ne_nil _ _) ?_ (alone_of_lexeme read)
        (ih ?_ remainder)
      · rw [← begins, ← ends]
      · rw [Position.start_after, ends]
    rwa [← lexeme_parts starts found.more] at tiles

section Order

variable {front cs : List Char} {tokens : List Token} {stop : Span}

theorem Tiles.starts (tiles : Tiles front cs tokens stop) :
    ∀ t ∈ tokens, (Position.behind front).offset ≤ t.span.start ∧ t.span.start < t.span.stop := by
  induction tiles with
  | stop => exact nofun
  | @token front gap spelled after t later stop layout notEmpty located alone remainder ih =>
    obtain ⟨c, rest, rfl⟩ := List.exists_cons_of_ne_nil notEmpty
    have positive := Position.behind_cons_offset_pos c rest
    have gaps := Position.behind_append_offset front gap
    have through := Position.behind_append_offset (front ++ gap) (c :: rest)
    intro t' member
    rcases List.mem_cons.mp member with rfl | member
    · rw [located]
      dsimp only [Span.between]
      omega
    · obtain ⟨later, some⟩ := ih t' member
      exact ⟨by omega, some⟩

theorem Tiles.pairwise (tiles : Tiles front cs tokens stop) :
    tokens.Pairwise fun t u => t.span.stop ≤ u.span.start := by
  induction tiles with
  | stop => exact .nil
  | token layout notEmpty located alone remainder ih =>
    refine .cons (fun u member => ?_) ih
    rw [located]
    exact (remainder.starts u member).1

theorem Tiles.stop_eq (tiles : Tiles front cs tokens stop) :
    stop = Span.between (.behind (front ++ cs)) (.behind (front ++ cs)) := by
  induction tiles with
  | stop layout located => exact located
  | token layout notEmpty located alone remainder ih =>
    rw [ih]
    simp only [List.append_assoc]

end Order

-- Tokens tile their text, in the order in which they stand there.
theorem tiles_of_scan {text : String} {stream : TokenStream} (accepted : scan text = .ok stream) :
    Tiles [] text.toList stream.tokens stream.stop ∧
      (∀ t ∈ stream.tokens, t.span.start < t.span.stop) ∧
      (stream.tokens.Pairwise fun t u => t.span.stop ≤ u.span.start) ∧
      stream.stop.start = text.utf8ByteSize ∧ stream.stop.stop = text.utf8ByteSize := by
  have tiles : Tiles [] text.toList stream.tokens stream.stop := @tiles_of_scanFrom [] _ _ accepted
  have ends := tiles.stop_eq
  rw [List.nil_append] at ends
  refine ⟨tiles, fun t member => (tiles.starts t member).2, tiles.pairwise, ?_, ?_⟩
  · rw [ends]
    simp [Span.between, Position.behind]
  · rw [ends]
    simp [Span.between, Position.behind]

theorem tiles_of_scan_lines :
    ∃ stream, scan "é :: x # note\n \"b\"@en" = .ok stream ∧
      stream.tokens.map Token.span =
        [⟨0, 3, 1, 1⟩, ⟨3, 5, 1, 3⟩, ⟨6, 7, 1, 6⟩, ⟨16, 22, 2, 2⟩] ∧
      Tiles [] "é :: x # note\n \"b\"@en".toList stream.tokens stream.stop ∧
      (∀ t ∈ stream.tokens, t.span.start < t.span.stop) ∧
      (stream.tokens.Pairwise fun t u => t.span.stop ≤ u.span.start) ∧
      stream.stop.start = 22 ∧ stream.stop.stop = 22 := by
  have accepted : scan "é :: x # note\n \"b\"@en" =
      .ok ⟨[⟨.word "é ", ⟨0, 3, 1, 1⟩⟩, ⟨.doubleColon, ⟨3, 5, 1, 3⟩⟩, ⟨.word "x", ⟨6, 7, 1, 6⟩⟩,
        ⟨.literal "b" (some (.language "en")), ⟨16, 22, 2, 2⟩⟩], ⟨22, 22, 2, 8⟩⟩ := by
    decide +kernel
  exact ⟨_, accepted, rfl, tiles_of_scan accepted⟩

end Token

end Stottr

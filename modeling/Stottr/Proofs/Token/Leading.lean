import Stottr.Proofs.Token.Tiling

namespace Stottr.Token

open Text

-- A stretch of text that is read as these tokens, from a position on, in front of `gone`. It ends
-- where the last of them does.
inductive Leads (gone : List Char) : Position → List Char → List Token → Prop where
  | nil {p : Position} : Leads gone p [] []
  | token {p first last : Position} {gap spelled kept : List Char} {c : Char} {kind : TokenKind}
    {later : List Token} (layout : Layout false gap)
    (read : lexeme c (spelled ++ (kept ++ gone)) = .ok ⟨kind, spelled.length⟩)
    (before : first = p.after gap) (through : last = first.after (c :: spelled))
    (remainder : Leads gone last kept later) :
    Leads gone p (gap ++ c :: (spelled ++ kept)) (⟨kind, Span.between first last⟩ :: later)

variable {kept gone behind : List Char} {p : Position} {earlier : List Token}

theorem parts_of_lexeme {cs : List Char} {c : Char} {rest : List Char} {found : Lexeme}
    (starts : cs.drop (triviaWidth cs) = c :: rest) (read : lexeme c rest = .ok found) :
    ∃ gap spelled, Layout false gap ∧ gap = cs.take (triviaWidth cs) ∧
      spelled = rest.take found.more ∧ cs = gap ++ c :: (spelled ++ rest.drop found.more) ∧
      lexeme c (spelled ++ rest.drop found.more) = .ok ⟨found.kind, spelled.length⟩ := by
  refine ⟨_, _, layout_of_starts starts, rfl, rfl, ?_, ?_⟩
  · rw [List.take_append_drop, ← starts, List.take_append_drop]
  · rw [List.take_append_drop, List.length_take_of_le (lexeme_fits read)]
    exact read

theorem scans_of_parts {gap spelled : List Char} {c : Char} {kind : TokenKind}
    {first last : Position} {later : List Token} (layout : Layout false gap)
    (read : lexeme c (spelled ++ behind) = .ok ⟨kind, spelled.length⟩)
    (before : first = p.after gap) (through : last = first.after (c :: spelled))
    (remainder : Scans last behind later) :
    Scans p (gap ++ c :: (spelled ++ behind)) (⟨kind, Span.between first last⟩ :: later) := by
  obtain ⟨notSpace, notHash⟩ := lexeme_starts read
  have width : triviaWidth (gap ++ c :: (spelled ++ behind)) = gap.length := by
    rw [layout.width, triviaWidth_of_start _ notSpace notHash, Nat.add_zero]
  refine .token ?_ read ?_ ?_ ?_
  · rw [width, List.drop_left]
  · rw [width, List.take_left, before]
  · rw [List.take_left, through]
  · rwa [List.drop_left]

theorem after_token {gap spelled : List Char} {c : Char} {first last : Position}
    (before : first = p.after gap) (through : last = first.after (c :: spelled))
    (kept : List Char) : p.after (gap ++ c :: (spelled ++ kept)) = last.after kept := by
  rw [Position.after_append, ← List.cons_append, Position.after_append, ← before, ← through]

theorem Leads.scans {later : List Token} (leads : Leads gone p kept earlier)
    (scans : Scans (p.after kept) gone later) : Scans p (kept ++ gone) (earlier ++ later) := by
  induction leads with
  | nil => exact scans
  | @token p first last gap spelled kept c kind tokens layout read before through remainder ih =>
    rw [List.append_assoc, List.cons_append, List.append_assoc, List.cons_append]
    refine scans_of_parts layout read before through (ih ?_)
    rwa [after_token before through] at scans

theorem Scans.cut {cs : List Char} {later : List Token} (scans : Scans p cs (earlier ++ later)) :
    ∃ kept gone, cs = kept ++ gone ∧ Leads gone p kept earlier ∧
      Scans (p.after kept) gone later := by
  induction earlier generalizing p cs with
  | nil => exact ⟨[], cs, rfl, .nil, scans⟩
  | cons t earlier ih =>
    generalize whole : t :: earlier ++ later = tokens at scans
    cases scans with
    | stop => cases whole
    | @token _ first last _ c rest found later' starts read before through remainder =>
      obtain ⟨rfl, rfl⟩ := List.cons.inj whole
      obtain ⟨kept, gone, same, leads, scans⟩ := ih remainder
      obtain ⟨gap, spelled, layout, rfl, rfl, parts, reads⟩ := parts_of_lexeme starts read
      rw [same] at parts reads
      refine ⟨_, gone, ?_, .token layout reads before through leads, ?_⟩
      · rw [List.append_assoc, List.cons_append, List.append_assoc]
        exact parts
      · rwa [after_token before through]

theorem Leads.stop (leads : Leads gone p kept earlier) :
    ∀ t ∈ earlier.getLast?, t.span.stop = (p.after kept).offset := by
  induction leads with
  | nil => exact nofun
  | @token p first last gap spelled kept c kind tokens layout read before through remainder ih =>
    rw [after_token before through]
    cases remainder with
    | nil =>
      rintro t ⟨⟩
      rfl
    | token => exact ih

-- Where a colon alone has been read, no other colon comes next.
theorem Leads.untorn (leads : Leads gone p [':'] earlier) : gone.head? ≠ some ':' := by
  generalize single : [':'] = kept at leads
  cases leads with
  | nil => cases single
  | @token _ first last gap spelled kept c kind tokens layout read before through remainder =>
    cases layout with
    | nil =>
      simp only [List.nil_append, List.cons.injEq, List.nil_eq, List.append_eq_nil_iff] at single
      obtain ⟨rfl, rfl, rfl⟩ := single
      intro next
      obtain ⟨more, rfl⟩ := List.head?_eq_some_iff.mp next
      cases (show Except.ok (Lexeme.mk .doubleColon 1) = Except.ok ⟨kind, 0⟩ from read)
    | space blank =>
      cases (List.cons.inj single).1
      cases blank
    | comment => cases (List.cons.inj single).1
    | last isLast => cases isLast

-- What is read stays read where the text is cut off further on, or goes on with layout there.
theorem Leads.again {extra : List Char} (leads : Leads (extra ++ gone) p kept earlier)
    (parted : Parted behind) (untorn : extra = [':'] → gone.head? ≠ some ':') :
    Leads (extra ++ behind) p kept earlier := by
  induction leads with
  | nil => exact .nil
  | @token p first last gap spelled kept c kind tokens layout read before through remainder ih =>
    refine .token layout ?_ before through ih
    rw [← List.append_assoc kept, ← List.append_assoc spelled] at read ⊢
    refine lexeme_kept read ?_ parted ?_
    · rw [List.length_append]
      exact Nat.le_add_right _ _
    · rw [List.drop_left]
      intro torn
      cases extra with
      | nil =>
        rw [List.append_nil] at torn
        rw [torn] at remainder
        exact remainder.untorn
      | cons d extra =>
        refine untorn ?_
        cases kept with
        | nil => exact torn
        | cons e kept =>
          have short := congrArg List.length torn
          simp at short

section Relaid

variable {gap : List Char} {tokens later : List Token}

theorem Scans.moved {cs : List Char} (scans : Scans p cs tokens) (q : Position) :
    ∃ moved, Scans q cs moved ∧ moved.map Token.kind = tokens.map Token.kind := by
  induction scans generalizing q with
  | stop blank => exact ⟨[], .stop blank, rfl⟩
  | token starts read before through remainder ih =>
    obtain ⟨moved, scans, same⟩ := ih ((q.after _).after _)
    refine ⟨_, .token starts read rfl rfl scans, ?_⟩
    rw [List.map_cons, List.map_cons, same]

theorem Scans.behind_layout (layout : Layout false gap) (scans : Scans (p.after gap) behind later) :
    Scans p (gap ++ behind) later := by
  have width := layout.width behind
  have beyond : (gap ++ behind).drop (gap.length + triviaWidth behind) =
      behind.drop (triviaWidth behind) := by rw [← List.drop_drop, List.drop_left]
  cases scans with
  | stop blank =>
    refine .stop ?_
    rw [width, beyond, blank]
  | token starts read before through remainder =>
    refine .token ?_ read ?_ through remainder
    · rw [width, beyond, starts]
    · rw [width, List.take_length_add_append, Position.after_append, before]

theorem Leads.relaid (leads : Leads gone p kept earlier) (scans : Scans (p.after kept) gone later)
    (layout : Layout false gap) : ∃ tokens, Scans p (kept ++ (gap ++ gone)) tokens ∧
      tokens.map Token.kind = (earlier ++ later).map Token.kind := by
  by_cases none : gap = []
  · subst none
    exact ⟨_, leads.scans scans, rfl⟩
  · obtain ⟨moved, scans', same⟩ := scans.moved ((p.after kept).after gap)
    have again : Leads (gap ++ gone) p kept earlier :=
      @Leads.again kept gone (gap ++ gone) p earlier [] leads (layout.parted none) nofun
    refine ⟨_, again.scans (scans'.behind_layout layout), ?_⟩
    rw [List.map_append, same, List.map_append]

theorem eq_nil_of_offset_eq {front more : List Char}
    (same : (Position.behind (front ++ more)).offset = (Position.behind front).offset) :
    more = [] := by
  cases more with
  | nil => rfl
  | cons c more =>
    have positive := Position.behind_cons_offset_pos c more
    rw [Position.behind_append_offset] at same
    omega

theorem eq_of_offset_eq {front front' after after' : List Char}
    (whole : front ++ after = front' ++ after')
    (same : (Position.behind front).offset = (Position.behind front').offset) : front = front' := by
  obtain ⟨more, rfl, -⟩ | ⟨more, rfl, -⟩ := List.append_eq_append_iff.mp whole
  · rw [eq_nil_of_offset_eq same.symm, List.append_nil]
  · rw [eq_nil_of_offset_eq same, List.append_nil]

-- The places of a text that are between its tokens, or in front of them all.
def Between (tokens : List Token) (front : List Char) : Prop :=
  front = [] ∨ ∃ t ∈ tokens, t.span.stop = (Position.behind front).offset

theorem Scans.cut_between {front after : List Char} (scans : Scans .start (front ++ after) tokens)
    (between : Between tokens front) : ∃ earlier later, tokens = earlier ++ later ∧
      Leads after .start front earlier ∧ Scans (Position.start.after front) after later := by
  rcases between with rfl | ⟨t, member, ends⟩
  · exact ⟨[], tokens, rfl, .nil, scans⟩
  · obtain ⟨earlier, later, rfl⟩ := List.append_of_mem member
    rw [← List.singleton_append, ← List.append_assoc] at scans
    obtain ⟨kept, gone, whole, leads, remainder⟩ := scans.cut
    have stop := leads.stop t (by rw [List.getLast?_concat]; rfl)
    rw [ends, Position.start_after] at stop
    obtain rfl := eq_of_offset_eq whole stop
    obtain rfl := List.append_cancel_left whole
    exact ⟨_, later, by rw [List.append_assoc, List.singleton_append], leads, remainder⟩

theorem kinds_relaid {text : String} {stream : TokenStream} {front after : List Char}
    (accepted : scan text = .ok stream) (whole : text.toList = front ++ after)
    (between : Between stream.tokens front) (layout : Layout false gap) :
    ∃ relaid, scan (String.ofList (front ++ (gap ++ after))) = .ok relaid ∧
      relaid.tokens.map Token.kind = stream.tokens.map Token.kind := by
  have scans : Scans .start text.toList stream.tokens := scans_of_scanFrom accepted
  rw [whole] at scans
  obtain ⟨earlier, later, parts, leads, remainder⟩ := scans.cut_between between
  obtain ⟨tokens, relaid, same⟩ := leads.relaid remainder layout
  obtain ⟨stop, accepted'⟩ := scanFrom_of_scans relaid
  refine ⟨⟨tokens, stop⟩, ?_, ?_⟩
  · rwa [scan, String.toList_ofList]
  · rw [parts, same]

end Relaid

theorem Layout.ne_colon {gap : List Char} (layout : Layout false gap) : gap ≠ [':'] := by
  rintro rfl
  cases layout with
  | space blank => cases blank

theorem scans_of_layout {gap : List Char} (layout : Layout false gap) : Scans p gap [] := by
  have width := layout.width []
  rw [List.append_nil] at width
  refine .stop ?_
  rw [width]
  exact List.drop_eq_nil_of_le (Nat.le_add_right _ _)

theorem leads_of_error {cs : List Char} {e : LexError} (rejected : scanFrom p cs = .error e) :
    ∃ kept gap earlier c rest misread, cs = kept ++ (gap ++ c :: rest) ∧ Layout false gap ∧
      triviaWidth (c :: rest) = 0 ∧ Leads (gap ++ c :: rest) p kept earlier ∧
      lexeme c rest = .error misread ∧
      e = ⟨misread.fault, p.after (kept ++ (gap ++ (c :: rest).take misread.before))⟩ := by
  fun_induction scanFrom p cs generalizing e
  case case1 => cases rejected
  case case2 p cs width first c rest starts misread failed =>
    cases rejected
    refine ⟨[], _, [], c, rest, misread, ?_, layout_of_starts starts, triviaWidth_of_starts starts,
      .nil, failed, ?_⟩
    · rw [List.nil_append, ← starts, List.take_append_drop]
    · rw [List.nil_append, Position.after_append]
  case case3 p cs width first c rest starts found read last shorter e' failed ih =>
    cases rejected
    obtain ⟨kept, gap, earlier, d, rest', misread, same, layout, begins, leads, unread, rfl⟩ :=
      ih failed
    obtain ⟨gap', spelled, layout', rfl, rfl, parts, reads⟩ := parts_of_lexeme starts read
    rw [same] at parts reads
    refine ⟨_, gap, _, d, rest', misread, ?_, layout, begins, .token layout' reads rfl rfl leads,
      unread, ?_⟩
    · rw [List.append_assoc, List.cons_append, List.append_assoc]
      exact parts
    · simp only [last, first, width, Position.after_append, List.append_assoc, List.cons_append,
        Position.after_cons]
  case case4 => cases rejected

theorem scans_before_fault {gap rest : List Char} {c : Char} {misread : Misread}
    (layout : Layout false gap) (failed : lexeme c rest = .error misread) (p : Position) :
    gap ++ (c :: rest).take misread.before ≠ [':'] ∧
      ∃ later, Scans p (gap ++ (c :: rest).take misread.before) later := by
  obtain ⟨-, none | ⟨rfl, width, kind, same, alone⟩⟩ := lexeme_misread failed p
  · rw [none, List.take_zero, List.append_nil]
    exact ⟨layout.ne_colon, [], scans_of_layout layout⟩
  · rw [same, List.take_succ_cons]
    constructor
    · intro single
      have quote : '"' ∈ [':'] := by
        rw [← single]
        exact List.mem_append_right _ List.mem_cons_self
      cases List.mem_singleton.mp quote
    · have read : lexeme '"' (rest.take width ++ []) = .ok ⟨kind, (rest.take width).length⟩ := by
        rwa [List.append_nil]
      have scans := scans_of_parts (p := p) layout read rfl rfl (.stop List.drop_nil)
      rw [List.append_nil] at scans
      exact ⟨_, scans⟩

-- An error stands where the scanner came to a halt: the text in front of it is made of tokens, and
-- the character that is reported comes next.
theorem stopped_at_error {text : String} {e : LexError} (rejected : scan text = .error e) :
    ∃ front after, text.toList = front ++ e.character :: after ∧ e.position = .behind front ∧
      ∃ stream, scan (String.ofList front) = .ok stream := by
  obtain ⟨kept, gap, earlier, c, rest, misread, whole, layout, -, leads, failed, rfl⟩ :=
    leads_of_error rejected
  obtain ⟨⟨more, fault⟩, -⟩ := lexeme_misread failed
    (Position.start.after (kept ++ (gap ++ (c :: rest).take misread.before)))
  obtain ⟨apart, later, scans⟩ := scans_before_fault layout failed (Position.start.after kept)
  have parts : gap ++ c :: rest =
      gap ++ (c :: rest).take misread.before ++ (c :: rest).drop misread.before := by
    rw [List.append_assoc, List.take_append_drop]
  rw [parts] at leads
  have again := leads.again parted_nil fun colon => absurd colon apart
  rw [List.append_nil] at again
  refine ⟨_, more, ?_, Position.start_after _, ?_⟩
  · rw [whole, parts, fault, List.append_assoc kept]
  · obtain ⟨stop, accepted⟩ := scanFrom_of_scans (again.scans scans)
    refine ⟨⟨earlier ++ later, stop⟩, ?_⟩
    rwa [scan, String.toList_ofList]

-- Only the tag is wrong, so the literal in front of it counts as read.
theorem stopped_at_error_tag :
    ∃ e, scan "é # note\n \"b\"@1" = .error e ∧ e.character = '@' ∧
      ∃ front after, "é # note\n \"b\"@1".toList = front ++ e.character :: after ∧
        e.position = .behind front ∧ ∃ stream, scan (String.ofList front) = .ok stream := by
  have rejected : scan "é # note\n \"b\"@1" = .error ⟨.unexpectedChar '@', ⟨14, 2, 5⟩⟩ := by
    decide +kernel
  exact ⟨_, rejected, rfl, stopped_at_error rejected⟩

end Stottr.Token

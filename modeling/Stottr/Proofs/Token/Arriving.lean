import Stottr.Proofs.Token.Leading

namespace Stottr.Token

open Text

-- The scanner comes to what is ahead with the tokens of the front read, and the layout behind them
-- passed over.
def Arrives (front ahead : List Char) (earlier : List Token) : Prop :=
  ∃ kept gap, front = kept ++ gap ∧ Layout false gap ∧ Leads (gap ++ ahead) .start kept earlier

def prepend (earlier : List Token) (stream : TokenStream) : TokenStream :=
  ⟨earlier ++ stream.tokens, stream.stop⟩

theorem map_prepend_nil (read : Except LexError TokenStream) : read.map (prepend []) = read := by
  cases read <;> rfl

theorem map_prepend_append (earlier later : List Token) (read : Except LexError TokenStream) :
    (read.map (prepend later)).map (prepend earlier) = read.map (prepend (earlier ++ later)) := by
  cases read with
  | error e => rfl
  | ok stream => exact congrArg Except.ok (by simp only [prepend, List.append_assoc])

theorem after_behind (front cs : List Char) :
    (Position.behind front).after cs = .behind (front ++ cs) := by
  rw [← Position.start_after, ← Position.start_after, Position.after_append]

section Runs

variable {p : Position} {gap behind : List Char}

theorem scanFrom_passed (width : triviaWidth (gap ++ behind) = gap.length + triviaWidth behind) :
    scanFrom p (gap ++ behind) = scanFrom (p.after gap) behind := by
  have beyond : (gap ++ behind).drop (triviaWidth (gap ++ behind)) =
      behind.drop (triviaWidth behind) := by rw [width, ← List.drop_drop, List.drop_left]
  have passed : p.after ((gap ++ behind).take (triviaWidth (gap ++ behind))) =
      (p.after gap).after (behind.take (triviaWidth behind)) := by
    rw [width, List.take_length_add_append, Position.after_append]
  cases starts : behind.drop (triviaWidth behind) with
  | nil => rw [scanFrom_of_blank (beyond.trans starts), scanFrom_of_blank starts, passed]
  | cons c rest =>
    cases read : lexeme c rest with
    | error misread =>
      rw [scanFrom_of_misread (beyond.trans starts) read, scanFrom_of_misread starts read, passed]
    | ok found =>
      rw [scanFrom_of_lexeme (beyond.trans starts) read, scanFrom_of_lexeme starts read, passed]

theorem scanFrom_of_token {c : Char} {rest : List Char} {found : Lexeme}
    (read : lexeme c rest = .ok found) :
    scanFrom p (c :: rest) =
      (scanFrom (p.after (c :: rest.take found.more)) (rest.drop found.more)).map
        (prepend [⟨found.kind, Span.between p (p.after (c :: rest.take found.more))⟩]) := by
  obtain ⟨notSpace, notHash⟩ := lexeme_starts read
  have width := triviaWidth_of_start rest notSpace notHash
  have starts : (c :: rest).drop (triviaWidth (c :: rest)) = c :: rest := by rw [width]; rfl
  rw [scanFrom_of_lexeme starts read, width]
  rfl

theorem Leads.scanFrom_eq {kept gone : List Char} {earlier : List Token}
    (leads : Leads gone p kept earlier) :
    scanFrom p (kept ++ gone) = (scanFrom (p.after kept) gone).map (prepend earlier) := by
  induction leads with
  | nil => exact (map_prepend_nil _).symm
  | @token p first last gap spelled kept c kind tokens layout read before through remainder ih =>
    rw [List.append_assoc, List.cons_append, List.append_assoc, scanFrom_passed (layout.width _),
      ← before, scanFrom_of_token read, List.take_left, List.drop_left, ← through, ih,
      map_prepend_append, after_token before through]
    rfl

end Runs

section Places

variable {text : String} {front ahead : List Char} {earlier : List Token}

theorem Arrives.scan_eq (arrives : Arrives front ahead earlier)
    (whole : text.toList = front ++ ahead) :
    scan text = (scanFrom (.behind front) ahead).map (prepend earlier) := by
  obtain ⟨kept, gap, rfl, layout, leads⟩ := arrives
  rw [scan, whole, List.append_assoc, leads.scanFrom_eq, scanFrom_passed (layout.width _),
    ← Position.after_append, Position.start_after]

theorem arrives_of_error {e : LexError} (rejected : scan text = .error e) :
    ∃ front c rest earlier misread, text.toList = front ++ c :: rest ∧
      Arrives front (c :: rest) earlier ∧ triviaWidth (c :: rest) = 0 ∧
      lexeme c rest = .error misread ∧
      e = ⟨misread.fault, .behind (front ++ (c :: rest).take misread.before)⟩ := by
  obtain ⟨kept, gap, earlier, c, rest, misread, whole, layout, begins, leads, failed, rfl⟩ :=
    leads_of_error rejected
  refine ⟨kept ++ gap, c, rest, earlier, misread, ?_, ⟨kept, gap, rfl, layout, leads⟩, begins,
    failed, ?_⟩
  · rw [whole, List.append_assoc]
  · rw [Position.start_after, List.append_assoc]

theorem Arrives.scan_of_misread {c : Char} {rest : List Char} {misread : Misread}
    (arrives : Arrives front (c :: rest) earlier) (whole : text.toList = front ++ c :: rest)
    (begins : triviaWidth (c :: rest) = 0) (failed : lexeme c rest = .error misread) :
    scan text = .error ⟨misread.fault, .behind (front ++ (c :: rest).take misread.before)⟩ := by
  have starts : (c :: rest).drop (triviaWidth (c :: rest)) = c :: rest := by rw [begins]; rfl
  rw [arrives.scan_eq whole, scanFrom_of_misread starts failed, begins, List.take_zero,
    Position.after_nil, after_behind]
  rfl

theorem behind_of_error {cs : List Char} {e : LexError}
    (rejected : scanFrom (.behind front) cs = .error e) :
    ∃ passed, e.position = .behind (front ++ passed) := by
  obtain ⟨kept, gap, -, c, rest, misread, -, -, -, -, -, rfl⟩ := leads_of_error rejected
  exact ⟨_, after_behind _ _⟩

end Places

end Stottr.Token

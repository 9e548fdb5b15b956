import Stottr.Token.Scan

namespace Stottr.Token

open Text

inductive Scans : Position → List Char → List Token → Prop where
  | stop {p : Position} {cs : List Char} (blank : cs.drop (triviaWidth cs) = []) : Scans p cs []
  | token {p first last : Position} {cs : List Char} {c : Char} {rest : List Char} {found : Lexeme}
    {later : List Token} (starts : cs.drop (triviaWidth cs) = c :: rest)
    (read : lexeme c rest = .ok found) (before : first = p.after (cs.take (triviaWidth cs)))
    (through : last = first.after (c :: rest.take found.more))
    (remainder : Scans last (rest.drop found.more) later) :
    Scans p cs (⟨found.kind, Span.between first last⟩ :: later)

section Equations

variable {p : Position} {cs : List Char} {c : Char} {rest : List Char}

theorem scanFrom_of_blank (blank : cs.drop (triviaWidth cs) = []) :
    scanFrom p cs = .ok ⟨[], Span.between (p.after (cs.take (triviaWidth cs)))
      (p.after (cs.take (triviaWidth cs)))⟩ := by
  rw [scanFrom]
  split
  · rfl
  · rename_i starts
    cases blank.symm.trans starts

theorem scanFrom_of_lexeme {found : Lexeme} (starts : cs.drop (triviaWidth cs) = c :: rest)
    (read : lexeme c rest = .ok found) :
    scanFrom p cs =
      (scanFrom ((p.after (cs.take (triviaWidth cs))).after (c :: rest.take found.more))
        (rest.drop found.more)).map fun stream =>
          ⟨⟨found.kind, Span.between (p.after (cs.take (triviaWidth cs)))
            ((p.after (cs.take (triviaWidth cs))).after (c :: rest.take found.more))⟩ ::
              stream.tokens, stream.stop⟩ := by
  rw [scanFrom]
  split
  · rename_i blank
    cases blank.symm.trans starts
  · rename_i starts'
    cases starts.symm.trans starts'
    simp only [read]
    split
    · rename_i failed
      rw [failed]
      rfl
    · rename_i accepted
      rw [accepted]
      rfl

theorem scanFrom_of_misread {misread : Misread} (starts : cs.drop (triviaWidth cs) = c :: rest)
    (failed : lexeme c rest = .error misread) :
    scanFrom p cs = .error ⟨misread.fault,
      (p.after (cs.take (triviaWidth cs))).after ((c :: rest).take misread.before)⟩ := by
  rw [scanFrom]
  split
  · rename_i blank
    cases blank.symm.trans starts
  · rename_i starts'
    cases starts.symm.trans starts'
    simp only [failed]

end Equations

theorem scans_of_scanFrom {p : Position} {cs : List Char} {stream : TokenStream}
    (accepted : scanFrom p cs = .ok stream) : Scans p cs stream.tokens := by
  fun_induction scanFrom p cs generalizing stream
  case case1 p cs width first blank =>
    cases accepted
    exact .stop blank
  case case2 => cases accepted
  case case3 => cases accepted
  case case4 p cs width first c rest starts found read last shorter later remainder ih =>
    cases accepted
    exact .token starts read rfl rfl (ih remainder)

theorem scanFrom_of_scans {p : Position} {cs : List Char} {tokens : List Token}
    (scans : Scans p cs tokens) : ∃ stop, scanFrom p cs = .ok ⟨tokens, stop⟩ := by
  induction scans with
  | stop blank => exact ⟨_, scanFrom_of_blank blank⟩
  | token starts read before through remainder ih =>
    obtain ⟨stop, accepted⟩ := ih
    subst before through
    refine ⟨stop, ?_⟩
    rw [scanFrom_of_lexeme starts read, accepted]
    rfl

theorem triviaWidth_of_space {c : Char} (blank : isSpace c = true) (cs : List Char) :
    triviaWidth (c :: cs) = triviaWidth cs + 1 := by
  rw [triviaWidth, if_pos blank]

theorem triviaWidth_of_start {c : Char} (cs : List Char) (notSpace : isSpace c = false)
    (notHash : c ≠ '#') : triviaWidth (c :: cs) = 0 := by
  rw [triviaWidth]
  simp [notSpace, notHash]

def Reads (p : Position) (cs : List Char) (kinds : List TokenKind) : Prop :=
  ∃ tokens, Scans p cs tokens ∧ tokens.map Token.kind = kinds

theorem reads_nil (p : Position) : Reads p [] [] := ⟨[], .stop List.drop_nil, rfl⟩

theorem Reads.unique {p : Position} {cs : List Char} {kinds others : List TokenKind}
    (one : Reads p cs kinds) (another : Reads p cs others) : kinds = others := by
  obtain ⟨tokens, scans, rfl⟩ := one
  obtain ⟨tokens', scans', rfl⟩ := another
  obtain ⟨stop, scanned⟩ := scanFrom_of_scans scans
  obtain ⟨stop', scanned'⟩ := scanFrom_of_scans scans'
  cases scanned.symm.trans scanned'
  rfl

theorem reads_space_iff {p : Position} {cs : List Char} {kinds : List TokenKind} :
    Reads p (' ' :: cs) kinds ↔ Reads (p.next ' ') cs kinds := by
  have width := triviaWidth_of_space (c := ' ') rfl cs
  constructor
  · rintro ⟨tokens, blank | ⟨starts, read, before, through, remainder⟩, same⟩
    · exact ⟨_, .stop (by rwa [width] at blank), same⟩
    · rw [width] at starts before
      exact ⟨_, .token starts read before through remainder, same⟩
  · rintro ⟨tokens, blank | ⟨starts, read, before, through, remainder⟩, same⟩
    · exact ⟨_, .stop (by rwa [width]), same⟩
    · refine ⟨_, .token ?_ read ?_ through remainder, same⟩
      · rwa [width]
      · rwa [width]

theorem reads_cons_iff {p : Position} {c : Char} {rest : List Char} {kind : TokenKind}
    {kinds : List TokenKind} (begins : triviaWidth (c :: rest) = 0) :
    Reads p (c :: rest) (kind :: kinds) ↔ ∃ more, lexeme c rest = .ok ⟨kind, more⟩ ∧
      Reads (p.after (c :: rest.take more)) (rest.drop more) kinds := by
  constructor
  · rintro ⟨tokens, blank | ⟨starts, read, before, through, remainder⟩, same⟩
    · cases same
    · rw [begins] at starts before
      cases starts
      subst before through
      cases same
      exact ⟨_, read, _, remainder, rfl⟩
  · rintro ⟨more, read, tokens, remainder, rfl⟩
    refine ⟨_, .token ?_ read rfl rfl ?_, rfl⟩
    · rw [begins]
      rfl
    · rwa [begins]

theorem exists_scan_iff {text : String} {kinds : List TokenKind} :
    (∃ stream, scan text = .ok stream ∧ stream.tokens.map Token.kind = kinds) ↔
      Reads .start text.toList kinds := by
  constructor
  · rintro ⟨stream, accepted, same⟩
    exact ⟨_, scans_of_scanFrom accepted, same⟩
  · rintro ⟨tokens, scans, same⟩
    obtain ⟨stop, accepted⟩ := scanFrom_of_scans scans
    exact ⟨_, accepted, same⟩

theorem lexeme_parts {cs : List Char} {c : Char} {rest : List Char} {width : Nat}
    (starts : cs.drop width = c :: rest) (more : Nat) :
    cs = cs.take width ++ (c :: rest.take more) ++ rest.drop more := by
  rw [List.append_assoc, List.cons_append, List.take_append_drop, ← starts, List.take_append_drop]

theorem text_parts {text front cs : List Char} (whole : text = front ++ cs) {c : Char}
    {rest : List Char} {width : Nat} (starts : cs.drop width = c :: rest) (more : Nat) :
    text = front ++ cs.take width ++ (c :: rest.take more) ++ rest.drop more := by
  have parts := lexeme_parts starts more
  rw [whole, List.append_assoc, List.append_assoc, ← List.append_assoc (cs.take _), ← parts]

-- A span of a text: what stands before it, in it and behind it.
structure Stands (text : List Char) (span : Span) (front spelled behind : List Char) : Prop where
  whole : text = front ++ spelled ++ behind
  span_eq : span =
    Span.between (Position.start.after front) (Position.start.after (front ++ spelled))

theorem Scans.stands {text front cs : List Char} {tokens : List Token}
    (scans : Scans (Position.start.after front) cs tokens) (whole : text = front ++ cs) :
    ∀ t ∈ tokens, ∃ front c rest found, lexeme c rest = .ok found ∧ t.kind = found.kind ∧
      Stands text t.span front (c :: rest.take found.more) (rest.drop found.more) := by
  generalize origin : Position.start.after front = p at scans
  induction scans generalizing front with
  | stop => exact nofun
  | @token p first last cs c rest found later starts read before through remainder ih =>
    subst origin before through
    have parts := text_parts whole starts found.more
    intro t member
    rcases List.mem_cons.mp member with rfl | member
    · refine ⟨front ++ cs.take (triviaWidth cs), c, rest, found, read, rfl, parts, ?_⟩
      simp only [Position.after_append]
    · refine @ih (front ++ cs.take (triviaWidth cs) ++ (c :: rest.take found.more)) parts ?_ t
        member
      simp only [Position.after_append]

theorem stands_of_scan {text : String} {stream : TokenStream} (accepted : scan text = .ok stream) :
    ∀ t ∈ stream.tokens, ∃ front c rest found, lexeme c rest = .ok found ∧ t.kind = found.kind ∧
      Stands text.toList t.span front (c :: rest.take found.more) (rest.drop found.more) :=
  @Scans.stands text.toList [] _ _ (scans_of_scanFrom accepted) rfl

end Stottr.Token

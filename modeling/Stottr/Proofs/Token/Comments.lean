import Stottr.Proofs.Token.Arriving

namespace Stottr.Token

open Text

-- A note that a carriage return ends, with no line feed behind it.
structure Stray (note more : List Char) : Prop where
  inLine : ∀ c ∈ note, isLineEnd c = false
  noFeed : more.head? ≠ some '\n'

theorem lexeme_hash (rest : List Char) : lexeme '#' rest = .error ⟨.unexpectedChar '#', 0⟩ := rfl

-- Within a literal only the marks of its tag can be unexpected, and elsewhere only the character
-- that a token would begin with.
theorem hash_of_misread {c : Char} {rest : List Char} {misread : Misread}
    (failed : lexeme c rest = .error misread) (fault : misread.fault = .unexpectedChar '#') :
    c = '#' := by
  unfold lexeme at failed
  split at failed
  · unfold literalLexeme at failed
    split at failed
    · cases failed
      dsimp only at fault
      split at fault <;> cases fault
    · dsimp only at failed
      split at failed
      · split at failed <;> cases failed
        cases fault
      · split at failed <;> cases failed
        cases fault
      · cases failed
  · split at failed
    · split at failed <;> cases failed
      cases fault
    · split at failed <;> cases failed
      cases fault
      rfl

theorem commentWidth?_eq_none_iff {cs : List Char} :
    commentWidth? cs = none ↔ ∃ note more, cs = note ++ '\r' :: more ∧ Stray note more := by
  constructor
  · intro unread
    refine ⟨cs.takeWhile (!isLineEnd ·), ?_⟩
    have parts := List.takeWhile_append_dropWhile (p := (!isLineEnd ·)) (l := cs)
    have stops := List.head?_dropWhile_not (!isLineEnd ·) cs
    have dropped : ∀ run back : List Char, run ++ back = cs → cs.drop run.length = back := by
      rintro run back rfl
      exact List.drop_left
    unfold commentWidth? at unread
    dsimp only at unread
    rw [dropped _ _ parts] at unread
    cases behind : cs.dropWhile (!isLineEnd ·) with
    | nil =>
      rw [behind] at unread
      cases unread
    | cons c more =>
      rw [behind] at unread parts stops
      have ends : c = '\r' ∨ c = '\n' := by
        simpa [isLineEnd, or_iff_not_imp_left] using stops
      rcases ends with rfl | rfl
      · refine ⟨more, parts.symm, inLine_takeWhile cs, ?_⟩
        intro feed
        obtain ⟨later, rfl⟩ := List.head?_eq_some_iff.mp feed
        cases unread
      · cases unread
  · rintro ⟨note, more, rfl, inLine, noFeed⟩
    rw [Option.eq_none_iff_forall_ne_some]
    intro width measured
    obtain ⟨rfl, ends⟩ := commentWidth?_eq_some_iff.mp measured
    rw [takeWhile_note inLine (by rintro c ⟨⟩; rfl), List.drop_left] at ends
    rcases ends with none | ⟨later, feed⟩ | ⟨later, feed⟩
    · cases none
    · cases feed
    · cases feed
      exact noFeed rfl

theorem note_cases (cs : List Char) :
    (∃ note behind, cs = note ++ behind ∧ (∀ c ∈ note, isLineEnd c = false) ∧
      (behind = [] ∨ LineEnds behind)) ∨
    ∃ note more, cs = note ++ '\r' :: more ∧ Stray note more := by
  cases measured : commentWidth? cs with
  | none => exact .inr (commentWidth?_eq_none_iff.mp measured)
  | some width =>
    obtain ⟨rfl, ends⟩ := commentWidth?_eq_some_iff.mp measured
    have parts := List.prefix_iff_eq_append.mp (List.takeWhile_prefix (!isLineEnd ·) (l := cs))
    exact .inl ⟨_, _, parts.symm, inLine_takeWhile cs, ends⟩

theorem triviaWidth_hash_iff {rest : List Char} :
    triviaWidth ('#' :: rest) = 0 ↔ ∃ note more, rest = note ++ '\r' :: more ∧ Stray note more := by
  rw [← commentWidth?_eq_none_iff, triviaWidth, if_neg (by decide), if_pos rfl]
  split
  · rename_i measured
    exact iff_of_false (Nat.succ_ne_zero _) (fun unread => by cases measured.symm.trans unread)
  · rename_i unread
    exact iff_of_true rfl unread

theorem scanFrom_of_comment {p : Position} {note behind : List Char}
    (inLine : ∀ c ∈ note, isLineEnd c = false) (ends : behind = [] ∨ LineEnds behind) :
    scanFrom p ('#' :: (note ++ behind)) = scanFrom (p.after ('#' :: note)) behind := by
  refine @scanFrom_passed p ('#' :: note) behind ?_
  rw [List.cons_append, triviaWidth_of_comment inLine ends, List.length_cons]
  omega

-- The mark of a comment is refused where a stray carriage return ends the comment, and nowhere
-- else; any other comment leaves the run as it is, with the end of its line still ahead.
theorem comments_dropped_or_stray (text : String) :
    (∀ p, scan text = .error ⟨.unexpectedChar '#', p⟩ ↔ ∃ front note more earlier,
      text.toList = front ++ '#' :: (note ++ '\r' :: more) ∧
        Arrives front ('#' :: (note ++ '\r' :: more)) earlier ∧ Stray note more ∧
        p = .behind front) ∧
    ∀ front rest earlier, text.toList = front ++ '#' :: rest → Arrives front ('#' :: rest) earlier →
      (∃ note more, rest = note ++ '\r' :: more ∧ Stray note more) ∨
      ∃ note behind, rest = note ++ behind ∧ (∀ c ∈ note, isLineEnd c = false) ∧
        (behind = [] ∨ LineEnds behind) ∧
        scan text = (scanFrom (.behind (front ++ '#' :: note)) behind).map (prepend earlier) := by
  constructor
  · intro p
    constructor
    · intro rejected
      obtain ⟨front, c, rest, earlier, misread, whole, arrives, begins, failed, same⟩ :=
        arrives_of_error rejected
      obtain ⟨fault, rfl⟩ := LexError.mk.inj same
      obtain rfl := hash_of_misread failed fault.symm
      obtain ⟨note, more, rfl, stray⟩ := triviaWidth_hash_iff.mp begins
      cases (lexeme_hash _).symm.trans failed
      refine ⟨front, note, more, earlier, whole, arrives, stray, ?_⟩
      rw [List.take_zero, List.append_nil]
    · rintro ⟨front, note, more, earlier, whole, arrives, stray, rfl⟩
      have begins := triviaWidth_hash_iff.mpr ⟨note, more, rfl, stray⟩
      rw [arrives.scan_of_misread whole begins (lexeme_hash _), List.take_zero, List.append_nil]
  · intro front rest earlier whole arrives
    rcases note_cases rest with ⟨note, behind, rfl, inLine, ends⟩ | stray
    · refine .inr ⟨note, behind, rfl, inLine, ends, ?_⟩
      rw [arrives.scan_eq whole, scanFrom_of_comment inLine ends, after_behind]
    · exact .inl stray

theorem comments_dropped_or_stray_words :
    (∃ earlier note behind, [' ', 'é', '\r', '\n', 'b'] = note ++ behind ∧
      (∀ c ∈ note, isLineEnd c = false) ∧ (behind = [] ∨ LineEnds behind) ∧
      scan "a # é\r\nb" =
        (scanFrom (.behind (['a', ' '] ++ '#' :: note)) behind).map (prepend earlier)) ∧
    scan "a #\rb" = .error ⟨.unexpectedChar '#', ⟨2, 1, 3⟩⟩ := by
  have word (ahead : List Char) (read : lexeme 'a' (' ' :: ahead) = .ok ⟨.word "a", 0⟩) :
      Arrives ['a', ' '] ahead [⟨.word "a", ⟨0, 1, 1, 1⟩⟩] :=
    ⟨['a'], [' '], rfl, .space rfl .nil,
      @Leads.token _ _ _ _ [] [] [] 'a' _ [] .nil read rfl rfl .nil⟩
  constructor
  · rcases (comments_dropped_or_stray "a # é\r\nb").2 ['a', ' '] _ _ rfl
      (word _ (by decide +kernel)) with stray | dropped
    · cases commentWidth?_eq_none_iff.mpr stray
    · exact ⟨_, dropped⟩
  · exact ((comments_dropped_or_stray "a #\rb").1 _).mpr ⟨['a', ' '], [], ['b'], _, rfl,
      word _ (by decide +kernel), ⟨nofun, by decide⟩, rfl⟩

-- A mark can be refused though nothing but a comment stands in the text.
theorem not_comments_dropped :
    ¬∀ text p, scan text ≠ .error ⟨.unexpectedChar '#', p⟩ := by
  intro dropped
  exact dropped "# a\rb" .start (by decide +kernel)

end Stottr.Token

import Stottr.Proofs.Library.Sources
import Stottr.Proofs.Token.Arriving

namespace Stottr.Token

open Text

def Spelled (rest body written after : List Char) : Prop :=
  rest = written ++ '"' :: after ∧ Spelling body written

section Lexemes

variable {rest body written after : List Char}

theorem literalLexeme_of_spelled (spelled : Spelled rest body written after) :
    (∃ tag more, written.length < more ∧
      literalLexeme rest = .ok ⟨.literal (String.ofList body) tag, more⟩) ∨
    ∃ fault, literalLexeme rest = .error ⟨fault, written.length + 2⟩ := by
  obtain ⟨rfl, spelling⟩ := spelled
  have closed := quotedBody?_eq_some_iff.mpr ⟨written, after, rfl, rfl, spelling⟩
  unfold literalLexeme
  rw [closed]
  dsimp only
  split
  · split
    · exact .inl ⟨_, _, by omega, rfl⟩
    · exact .inr ⟨_, rfl⟩
  · split
    · exact .inl ⟨_, _, by omega, rfl⟩
    · exact .inr ⟨_, rfl⟩
  · exact .inl ⟨_, _, by omega, rfl⟩

theorem literalLexeme_of_unspelled (unspelled : ¬∃ body written after,
    Spelled rest body written after) : literalLexeme rest =
      .error ⟨if closesOnLine rest then .invalidEscape else .unterminatedLiteral, 0⟩ := by
  unfold literalLexeme
  split
  · rfl
  · rename_i body width closed
    obtain ⟨written, after, parts, -, spelling⟩ := quotedBody?_eq_some_iff.mp closed
    exact absurd ⟨body, written, after, parts, spelling⟩ unspelled

theorem Spelled.closed (spelled : Spelled rest body written after) : Closed rest :=
  ⟨written, after, spelled.1, spelled.2.unquoted⟩

end Lexemes

section Places

variable {text : String} {front rest body written after : List Char} {earlier : List Token}

theorem triviaWidth_quote (rest : List Char) : triviaWidth ('"' :: rest) = 0 :=
  triviaWidth_of_start rest rfl (by decide)

theorem Spelled.scan (spelled : Spelled rest body written after)
    (whole : text.toList = front ++ '"' :: rest) (arrives : Arrives front ('"' :: rest) earlier) :
    (∀ stream, scan text = .ok stream → ∃ tag last later, stream.tokens = earlier ++
      ⟨.literal (String.ofList body) tag, Span.between (.behind front) last⟩ :: later) ∧
    ∀ e, scan text = .error e →
      ∃ more, e.position = .behind (front ++ '"' :: (written ++ '"' :: more)) := by
  obtain ⟨rfl, -⟩ := id spelled
  have attempt := literalLexeme_of_spelled spelled
  rw [← lexeme_quote] at attempt
  rcases attempt with ⟨tag, more, beyond, read⟩ | ⟨fault, failed⟩
  · obtain ⟨k, rfl⟩ := Nat.exists_eq_add_of_lt beyond
    have run := arrives.scan_eq whole
    rw [scanFrom_of_token read, map_prepend_append, after_behind, Nat.add_assoc,
      List.take_length_add_append, List.take_succ_cons] at run
    rw [run]
    constructor
    · intro stream accepted
      obtain ⟨later, _, rfl⟩ := ok_of_map accepted
      exact ⟨tag, _, later.tokens, List.append_assoc _ _ _⟩
    · intro e rejected
      obtain ⟨passed, place⟩ := behind_of_error (error_of_map rejected)
      refine ⟨after.take k ++ passed, ?_⟩
      rw [place]
      simp only [List.append_assoc, List.cons_append]
  · have run := arrives.scan_of_misread whole (triviaWidth_quote _) failed
    rw [run]
    constructor
    · nofun
    · rintro e ⟨⟩
      refine ⟨[], ?_⟩
      rw [List.take_succ_cons, List.take_length_add_append]
      rfl

end Places

-- A literal that is spelled rightly is read as the characters that it spells, and otherwise its
-- opening quote is refused: for an escape if some quote closes it, where a backslash may have taken
-- the end of its line along, and for the want of such a quote if none does.
theorem literals_decoded_or_refused {text : String} {front rest : List Char} {earlier : List Token}
    (whole : text.toList = front ++ '"' :: rest) (arrives : Arrives front ('"' :: rest) earlier) :
    ((∃ fault, scan text = .error ⟨fault, .behind front⟩) ↔
      ¬∃ body written after, Spelled rest body written after) ∧
    (∀ body written after, Spelled rest body written after →
      (∀ stream, scan text = .ok stream → ∃ tag last later, stream.tokens = earlier ++
        ⟨.literal (String.ofList body) tag, Span.between (.behind front) last⟩ :: later) ∧
      ∀ e, scan text = .error e →
        ∃ more, e.position = .behind (front ++ '"' :: (written ++ '"' :: more))) ∧
    (scan text = .error ⟨.invalidEscape, .behind front⟩ ↔
      (¬∃ body written after, Spelled rest body written after) ∧ Closed rest) ∧
    (scan text = .error ⟨.unterminatedLiteral, .behind front⟩ ↔ ¬Closed rest) := by
  have refused (unspelled : ¬∃ body written after, Spelled rest body written after) :
      scan text = .error
        ⟨if closesOnLine rest then .invalidEscape else .unterminatedLiteral, .behind front⟩ := by
    rw [arrives.scan_of_misread whole (triviaWidth_quote rest)
      (literalLexeme_of_unspelled unspelled), List.take_zero, List.append_nil]
  have unspelled {fault : LexFault} (rejected : scan text = .error ⟨fault, .behind front⟩) :
      ¬∃ body written after, Spelled rest body written after := by
    rintro ⟨body, written, after, spelled⟩
    obtain ⟨more, place⟩ := (spelled.scan whole arrives).2 _ rejected
    cases eq_nil_of_offset_eq (congrArg Position.offset place).symm
  refine ⟨⟨fun ⟨_, rejected⟩ => unspelled rejected, fun none => ⟨_, refused none⟩⟩, ?_, ?_, ?_⟩
  · intro body written after spelled
    exact spelled.scan whole arrives
  · constructor
    · intro rejected
      have none := unspelled rejected
      refine ⟨none, closesOnLine_iff.mp ?_⟩
      by_contra notClosed
      rw [refused none, if_neg notClosed] at rejected
      cases rejected
    · rintro ⟨none, closed⟩
      rw [refused none, if_pos (closesOnLine_iff.mpr closed)]
  · constructor
    · intro rejected closed
      rw [refused (unspelled rejected), if_pos (closesOnLine_iff.mpr closed)] at rejected
      cases rejected
    · intro notClosed
      have none : ¬∃ body written after, Spelled rest body written after :=
        fun ⟨_, _, _, spelled⟩ => notClosed spelled.closed
      rw [refused none, if_neg (mt closesOnLine_iff.mp notClosed)]

theorem literals_decoded_or_refused_escapes :
    (∃ stream, scan "\"a\\\"\"@en" = .ok stream ∧ ∃ tag last later, stream.tokens =
      ⟨.literal "a\"" tag, Span.between .start last⟩ :: later) ∧
    scan "b \"c\\d\"" = .error ⟨.invalidEscape, ⟨2, 1, 3⟩⟩ := by
  constructor
  · have accepted : (scan "\"a\\\"\"@en").isOk = true := by decide +kernel
    obtain ⟨stream, accepted⟩ := ok_of_isOk accepted
    have spelled : Spelled ['a', '\\', '"', '"', '@', 'e', 'n'] ['a', '"'] ['a', '\\', '"']
        ['@', 'e', 'n'] := ⟨rfl, .plain (by decide) (.escape (by decide) .nil)⟩
    exact ⟨stream, accepted, ((literals_decoded_or_refused rfl ⟨[], [], rfl, .nil, .nil⟩).2.1
      _ _ _ spelled).1 stream accepted⟩
  · have arrives : Arrives ['b', ' '] ['"', 'c', '\\', 'd', '"'] [⟨.word "b", ⟨0, 1, 1, 1⟩⟩] :=
      ⟨['b'], [' '], rfl, .space rfl .nil,
        @Leads.token _ _ _ _ [] [] [] 'b' _ [] .nil (by decide +kernel) rfl rfl .nil⟩
    refine (literals_decoded_or_refused rfl arrives).2.2.1.mpr ⟨?_, closesOnLine_iff.mp rfl⟩
    rintro ⟨body, written, after, parts, spelling⟩
    cases quotedBody?_eq_some_iff.mpr ⟨written, after, parts, rfl, spelling⟩

-- The quote that closes a literal for the scanner may stand on a later line.
theorem not_invalidEscape_iff_closedOnLine :
    ¬∀ (text : String) (front rest : List Char) (earlier : List Token),
      text.toList = front ++ '"' :: rest → Arrives front ('"' :: rest) earlier →
      (scan text = .error ⟨.invalidEscape, .behind front⟩ ↔
        (¬∃ body written after, Spelled rest body written after) ∧ ClosedOnLine rest) := by
  intro claimed
  have refused : scan "\"a\\\nb\"" = .error ⟨.invalidEscape, .start⟩ := by decide +kernel
  obtain ⟨-, written, after, parts, -, inLine⟩ :=
    (claimed "\"a\\\nb\"" [] ['a', '\\', '\n', 'b', '"'] [] rfl
      ⟨[], [], rfl, .nil, .nil⟩).mp refused
  have notFeed : '\n' ∉ written := fun member => by cases inLine _ member
  rcases written with _ | ⟨a, _ | ⟨b, _ | ⟨c, written⟩⟩⟩
  · cases parts
  · cases parts
  · cases parts
  · simp only [List.cons_append, List.cons.injEq] at parts
    obtain ⟨-, -, rfl, -⟩ := parts
    exact notFeed (by simp)

end Stottr.Token

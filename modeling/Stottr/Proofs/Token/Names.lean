import Mathlib.Data.List.DropRight
import Stottr.Proofs.Token.Scans
import Stottr.Text.Join

namespace Stottr

-- The names in a written IRI, and in a token, each with what follows it there.
def WrittenIri.names : WrittenIri → List (String × List Char)
  | .full _ => []
  | .prefixed label name => [(label, ':' :: name.toList), (name, [])]

def TokenKind.names : TokenKind → List (String × List Char)
  | .iri name | .literal _ (some (.datatype name)) => name.names
  | .blankNode name | .variable name | .word name => [(name, [])]
  | _ => []

namespace Token

open Text

-- The name at the front of a text.
structure IsName (name text : List Char) : Prop where
  characters : ∀ c ∈ name, isNameChar c = true
  ending : name.getLast? ≠ some '.'
  longest : ∃ dots, text.takeWhile isNameChar = name ++ List.replicate dots '.'

section TrailingDots

theorem trimDots_eq_rdropWhile (cs : List Char) : trimDots cs = cs.rdropWhile (· = '.') := rfl

theorem trimDots_append_dots {name : List Char} (ending : name.getLast? ≠ some '.') (dots : Nat) :
    trimDots (name ++ List.replicate dots '.') = name := by
  induction dots with
  | zero =>
    rw [List.replicate_zero, List.append_nil, trimDots_eq_rdropWhile, List.rdropWhile_eq_self_iff]
    intro some last
    rw [List.getLast?_eq_some_getLast some, of_decide_eq_true last] at ending
    exact ending rfl
  | succ dots ih =>
    rw [List.replicate_succ', ← List.append_assoc, trimDots_eq_rdropWhile,
      List.rdropWhile_concat_pos _ _ _ (by decide)]
    exact ih

theorem trimDots_getLast? (cs : List Char) : (trimDots cs).getLast? ≠ some '.' := by
  intro last
  rw [trimDots, List.getLast?_reverse] at last
  have not := List.head?_dropWhile_not (· = '.') cs.reverse
  rw [last] at not
  simp at not

theorem exists_dots (cs : List Char) : ∃ dots, cs = trimDots cs ++ List.replicate dots '.' := by
  have all : cs.rtakeWhile (· = '.') = List.replicate (cs.rtakeWhile (· = '.')).length '.' := by
    refine List.eq_replicate_of_mem fun c member => ?_
    simpa using List.mem_rtakeWhile_imp member
  refine ⟨(cs.rtakeWhile (· = '.')).length, ?_⟩
  rw [← all, trimDots_eq_rdropWhile, List.rdropWhile_append_rtakeWhile]

end TrailingDots

theorem isName_nameRun (text : List Char) : IsName (nameRun text) text := by
  obtain ⟨dots, run⟩ := exists_dots (text.takeWhile isNameChar)
  refine ⟨?_, trimDots_getLast? _, dots, run⟩
  intro c member
  have within : c ∈ text.takeWhile isNameChar := by
    rw [run]
    exact List.mem_append_left _ member
  exact List.mem_takeWhile_imp within

theorem isName_iff {name text : List Char} : IsName name text ↔ name = nameRun text := by
  constructor
  · rintro ⟨-, ending, dots, run⟩
    rw [nameRun, run, trimDots_append_dots ending]
  · rintro rfl
    exact isName_nameRun text

theorem isName_self {name : List Char} (characters : ∀ c ∈ name, isNameChar c = true)
    (ending : name.getLast? ≠ some '.') : IsName name name := by
  refine ⟨characters, ending, 0, ?_⟩
  rw [List.replicate_zero, List.append_nil, List.takeWhile_eq_self_iff]
  exact characters

theorem length_le_utf8Width (cs : List Char) : cs.length ≤ utf8Width cs := by
  induction cs with
  | nil => exact Nat.le_refl 0
  | cons c cs ih =>
    have wide := c.utf8Size_pos
    simp only [utf8Width, List.foldr_cons, List.length_cons] at ih ⊢
    omega

theorem utf8Width_eq_length_iff (cs : List Char) :
    utf8Width cs = cs.length ↔ ∀ c ∈ cs, c.utf8Size = 1 := by
  induction cs with
  | nil => simp [utf8Width]
  | cons c cs ih =>
    have wide := c.utf8Size_pos
    have later := length_le_utf8Width cs
    have split : utf8Width (c :: cs) = c.utf8Size + utf8Width cs := rfl
    rw [List.forall_mem_cons, ← ih, split, List.length_cons]
    omega

-- What the scanner takes for the name at the front of a text.
structure Takes (name text : List Char) : Prop where
  stands : name <+: text
  width : nameWidth? text = some name.length

theorem takes_of_nameWidth? {cs : List Char} {width : Nat} (measured : nameWidth? cs = some width) :
    Takes (cs.take width) cs := by
  refine ⟨List.take_prefix width cs, ?_⟩
  rw [measured, List.length_take, Nat.min_eq_left ((nameWidth?_eq_some_iff cs width).mp measured).2]

theorem Takes.isName_iff {name text : List Char} (takes : Takes name text) :
    IsName name text ↔ ∀ c ∈ text.takeWhile isNameChar, c.utf8Size = 1 := by
  have measured := ((nameWidth?_eq_some_iff text name.length).mp takes.width).1
  obtain ⟨dots, run⟩ := exists_dots (text.takeWhile isNameChar)
  have onlyName : (∀ c ∈ text.takeWhile isNameChar, c.utf8Size = 1) ↔
      ∀ c ∈ nameRun text, c.utf8Size = 1 := by
    rw [run, List.forall_mem_append]
    exact and_iff_left fun c member => (List.eq_of_mem_replicate member).symm ▸ rfl
  rw [onlyName, ← utf8Width_eq_length_iff, ← measured, Token.isName_iff]
  constructor
  · rintro rfl
    rfl
  · intro same
    have prefixed : nameRun text <+: text := by
      refine List.IsPrefix.trans ?_ (List.takeWhile_prefix isNameChar)
      exact ⟨_, run.symm⟩
    exact (List.prefix_of_prefix_length_le takes.stands prefixed same.le).eq_of_length same

def Spells (names : List (String × List Char)) (width : Nat) (text : List Char) : Prop :=
  ∀ n ∈ names, ∃ lead, text.take width = lead ++ n.1.toList ++ n.2 ∧
    Takes n.1.toList (n.1.toList ++ n.2 ++ text.drop width)

section Spelling

variable {text : List Char} {names : List (String × List Char)} {width : Nat}

theorem Spells.none : Spells [] width text := fun _ member => nomatch member

theorem Spells.behind {front : Nat} (spells : Spells names width (text.drop front)) :
    Spells names (front + width) text := by
  intro n member
  obtain ⟨lead, parts, takes⟩ := spells n member
  refine ⟨text.take front ++ lead, ?_, ?_⟩
  · rw [List.take_add, parts]
    simp only [List.append_assoc]
  · rwa [List.drop_drop] at takes

theorem spells_name (measured : nameWidth? text = some width) :
    Spells [(String.ofList (text.take width), [])] width text := by
  intro n member
  cases List.mem_singleton.mp member
  refine ⟨[], by simp, ?_⟩
  simpa using takes_of_nameWidth? measured

theorem spells_prefixed {name : WrittenIri} (found : prefixedName? text = some (name, width)) :
    Spells name.names width text ∧ 0 < width := by
  unfold prefixedName? at found
  split at found
  · cases found
  · rename_i left measured
    split at found
    · rename_i rest colon
      split at found
      · cases found
      · rename_i right measured'
        cases found
        have whole : text.take (left + 1 + right) = text.take left ++ ':' :: rest.take right := by
          rw [Nat.add_assoc, List.take_add, colon, Nat.add_comm 1, List.take_succ_cons]
        have beyond : text.drop (left + 1 + right) = rest.drop right := by
          rw [Nat.add_assoc, ← List.drop_drop, colon, Nat.add_comm 1, List.drop_succ_cons]
        refine ⟨?_, by omega⟩
        intro n member
        rcases List.mem_cons.mp member with rfl | member
        · refine ⟨[], by simpa using whole, ?_⟩
          have back : text.take left ++ ':' :: rest.take right ++ text.drop (left + 1 + right) =
              text := by rw [← whole, List.take_append_drop]
          simpa [back] using takes_of_nameWidth? measured
        · cases List.mem_singleton.mp member
          refine ⟨text.take left ++ [':'], by simpa using whole, ?_⟩
          simpa [beyond] using takes_of_nameWidth? measured'
    · cases found

theorem spells_datatype {name : WrittenIri} (found : datatype? text = some (name, width)) :
    Spells name.names width text := by
  unfold datatype? at found
  split at found
  · obtain ⟨⟨full, inner⟩, read, same⟩ := Option.map_eq_some_iff.mp found
    cases same
    unfold bracketed? at read
    dsimp only at read
    split at read
    · cases read
      exact .none
    · cases read
  · exact (spells_prefixed found).1

end Spelling

section Lexemes

variable {c : Char} {rest : List Char} {found : Lexeme}

-- The names of a token whose text is `c` and the next `found.more` characters.
abbrev Lexeme.Named (found : Lexeme) (c : Char) (rest : List Char) : Prop :=
  Spells found.kind.names (found.more + 1) (c :: rest)

theorem literalLexeme_named (read : literalLexeme rest = .ok found) : found.Named c rest := by
  unfold literalLexeme at read
  split at read
  · cases read
  · rename_i body width closed
    dsimp only at read
    split at read
    · split at read
      · cases read
        exact .none
      · cases read
    · rename_i tag mark
      split at read
      · rename_i name more isType
        cases read
        have inner : Spells name.names more ((c :: rest).drop (width + 3)) := by
          rw [List.drop_succ_cons, ← List.drop_drop, mark]
          exact spells_datatype isType
        have total : width + 2 + more + 1 = width + 3 + more := by omega
        rw [Lexeme.Named, total]
        exact inner.behind
      · cases read
    · cases read
      exact .none

theorem keywordLexeme?_named (read : keywordLexeme? rest = some found) : found.Named c rest := by
  unfold keywordLexeme? at read
  split at read
  · split at read
    · cases read
    · cases read
      exact .none
  · cases read

theorem variableLexeme?_named (read : variableLexeme? rest = some found) : found.Named c rest := by
  unfold variableLexeme? at read
  split at read
  · cases read
  · cases read
    exact .none
  · rename_i width notZero measured
    cases read
    rw [Lexeme.Named, Nat.add_comm]
    exact @Spells.behind (c :: rest) _ _ 1 (spells_name measured)

theorem blankLexeme?_named {second : Char} (read : blankLexeme? rest = some found) :
    found.Named c (second :: rest) := by
  unfold blankLexeme? at read
  split at read
  · cases read
  · cases read
  · rename_i width notZero measured
    cases read
    have total : width + 1 + 1 = 2 + width := by omega
    rw [Lexeme.Named, total]
    exact @Spells.behind (c :: second :: rest) _ _ 2 (spells_name measured)

theorem numberLexeme_named : (numberLexeme c rest).Named c rest := by
  unfold numberLexeme
  dsimp only
  split
  · split
    · exact .none
    · exact .none
  · exact .none

theorem wordLexeme?_named (read : wordLexeme? (c :: rest) = some found) : found.Named c rest := by
  unfold wordLexeme? at read
  split at read
  · cases read
  · rename_i width measured
    dsimp only at read
    split at read
    · cases read
    · cases read
      exact spells_name measured
    · obtain ⟨⟨name, total⟩, isPrefixed, same⟩ := Option.map_eq_some_iff.mp read
      cases same
      obtain ⟨spells, positive⟩ := spells_prefixed isPrefixed
      rw [Lexeme.Named, Nat.sub_add_cancel positive]
      exact spells
    · cases read
    · split at read
      · cases read
        exact .none
      · split at read
        · cases read
          exact .none
        · cases read
          exact spells_name measured
    · cases read
      exact spells_name measured

theorem punctuation?_named (read : punctuation? c rest = some found) : found.Named c rest := by
  unfold punctuation? at read
  split at read <;> cases read <;> exact .none

theorem plainLexeme?_named (read : plainLexeme? c rest = some found) : found.Named c rest := by
  unfold plainLexeme? at read
  dsimp only at read
  split at read
  · exact keywordLexeme?_named read
  split at read
  · exact variableLexeme?_named read
  split at read
  · rename_i label
    cases rest with
    | nil => cases label.2
    | cons second rest => exact blankLexeme?_named read
  split at read
  · cases read
    exact numberLexeme_named
  split at read
  · cases read
    exact numberLexeme_named
  split at read
  · exact wordLexeme?_named read
  split at read
  · exact wordLexeme?_named read
  · exact punctuation?_named read

theorem lexeme_named (read : lexeme c rest = .ok found) : found.Named c rest := by
  unfold lexeme at read
  split at read
  · exact literalLexeme_named read
  split at read
  · split at read
    · rename_i name width isFull
      cases read
      unfold bracketed? at isFull
      dsimp only at isFull
      split at isFull
      · cases isFull
        exact .none
      · cases isFull
    · cases read
  · split at read
    · rename_i found plain
      cases read
      exact plainLexeme?_named plain
    · cases read

end Lexemes

section Words

structure IsWord (word : String) : Prop where
  name : IsName word.toList word.toList
  starts : ∃ c ∈ word.toList.head?, isAlphabetic c = true ∨ c = '_'

theorem takeWhile_append_stop {α : Type} {p : α → Bool} {front behind : List α}
    (all : ∀ a ∈ front, p a = true) (stops : ∀ a ∈ behind.head?, p a = false) :
    (front ++ behind).takeWhile p = front := by
  rw [List.takeWhile_append_of_pos all]
  cases behind with
  | nil => rw [List.takeWhile_nil, List.append_nil]
  | cons a rest => rw [List.takeWhile_cons_of_neg (by simpa using stops a), List.append_nil]

theorem nameRun_append {name behind : List Char} (named : IsName name name)
    (apart : ∀ c ∈ behind.head?, isNameChar c = false) : nameRun (name ++ behind) = name := by
  rw [nameRun, takeWhile_append_stop named.characters apart]
  simpa using trimDots_append_dots named.ending 0

theorem nameWidth?_append {name behind : List Char} (named : IsName name name)
    (apart : ∀ c ∈ behind.head?, isNameChar c = false) (narrow : ∀ c ∈ name, c.utf8Size = 1) :
    nameWidth? (name ++ behind) = some name.length := by
  rw [nameWidth?_eq_some_iff, nameRun_append named apart, List.length_append]
  exact ⟨((utf8Width_eq_length_iff name).mpr narrow).symm, by omega⟩

theorem isDigit_of_isAlphabetic {c : Char} (letter : isAlphabetic c = true) :
    c.isDigit = false := by
  by_contra digit
  have small := toNat_lt_of_isDigit c (by simpa using digit)
  simp only [isAlphabetic, small, if_true] at letter
  have letters : 65 ≤ c.toNat := by
    have inside : (decide ('A'.val ≤ c.val ∧ c.val ≤ 'Z'.val) ||
        (decide ('a'.val ≤ c.val) && decide (c.val ≤ 'z'.val))) = true := letter
    simp only [Bool.or_eq_true, Bool.and_eq_true, decide_eq_true_eq,
      UInt32.le_iff_toNat_le] at inside
    rcases inside with ⟨lower, -⟩ | ⟨lower, -⟩
    · exact lower
    · exact Nat.le_trans (by decide) lower
  have digits : c.toNat ≤ 57 := by
    simp only [Char.isDigit, Bool.and_eq_true, decide_eq_true_eq, Bool.not_eq_false,
      UInt32.le_iff_toNat_le] at digit
    exact digit.2
  omega

theorem lexeme_eq_ok_iff {c : Char} {rest : List Char} {found : Lexeme}
    (starts : isAlphabetic c = true ∨ c = '_') (second : rest.head? ≠ some ':') :
    lexeme c rest = .ok found ↔ wordLexeme? (c :: rest) = some found := by
  have other : ∀ d, isAlphabetic d = false → d ≠ '_' → c ≠ d := by
    rintro d notLetter notLow rfl
    simp [notLetter, notLow] at starts
  have notDigit : c.isDigit = false := by
    rcases starts with letter | rfl
    · exact isDigit_of_isAlphabetic letter
    · rfl
  have plain : plainLexeme? c rest = wordLexeme? (c :: rest) := by
    simp [plainLexeme?, other '@' rfl (by decide), other '?' rfl (by decide),
      other '+' rfl (by decide), other '-' rfl (by decide), other ':' rfl (by decide), second,
      notDigit, starts]
  unfold lexeme
  rw [if_neg (other '"' rfl (by decide)), if_neg (other '<' rfl (by decide)), plain]
  cases wordLexeme? (c :: rest) with
  | none => exact iff_of_false nofun nofun
  | some word => exact ⟨fun same => congrArg some (Except.ok.inj same),
      fun same => congrArg Except.ok (Option.some.inj same)⟩

theorem triviaWidth_word {c : Char} {rest : List Char} (starts : isAlphabetic c = true ∨ c = '_') :
    triviaWidth (c :: rest) = 0 := by
  have other : ∀ d, isAlphabetic d = false → d ≠ '_' → c ≠ d := by
    rintro d notLetter notLow rfl
    simp [notLetter, notLow] at starts
  refine triviaWidth_of_start rest ?_ (other '#' rfl (by decide))
  simp [isSpace, other ' ' rfl (by decide), other '\t' rfl (by decide), other '\r' rfl (by decide),
    other '\n' rfl (by decide)]

theorem wordLexeme?_width {cs : List Char} {word : String} {more : Nat}
    (read : wordLexeme? cs = some ⟨.word word, more⟩) :
    nameWidth? cs = some (more + 1) ∧ word.toList = cs.take (more + 1) := by
  unfold wordLexeme? at read
  split at read
  · cases read
  · rename_i width measured
    dsimp only at read
    split at read
    · cases read
    · cases read
      exact ⟨measured, String.toList_ofList⟩
    · obtain ⟨_, _, same⟩ := Option.map_eq_some_iff.mp read
      cases same
    · cases read
    · split at read
      · cases read
      · split at read
        · cases read
        · cases read
          exact ⟨measured, String.toList_ofList⟩
    · cases read
      exact ⟨measured, String.toList_ofList⟩

theorem wordLexeme?_of_narrow {word : String} {behind : List Char} (isWord : IsWord word)
    (apart : ∀ c ∈ behind.head?, c = ' ') (narrow : ∀ c ∈ word.toList, c.utf8Size = 1) :
    wordLexeme? (word.toList ++ behind) = some ⟨.word word, word.toList.length - 1⟩ := by
  have measured : nameWidth? (word.toList ++ behind) = some word.toList.length :=
    nameWidth?_append isWord.name (fun c ahead => apart c ahead ▸ rfl) narrow
  have positive : 0 < word.toList.length := by
    obtain ⟨c, first, -⟩ := isWord.starts
    exact List.length_pos_of_mem (List.mem_of_mem_head? first)
  obtain ⟨more, length⟩ := Nat.exists_eq_succ_of_ne_zero positive.ne'
  have beyond : (word.toList ++ behind).drop (more + 1) = behind := List.drop_left' length
  have spelled : (word.toList ++ behind).take (more + 1) = word.toList := List.take_left' length
  rw [length] at measured ⊢
  simp only [wordLexeme?, measured, beyond, spelled, String.ofList_toList, Nat.succ_eq_add_one]
  cases behind with
  | nil => rfl
  | cons c rest =>
    cases apart c rfl
    rfl

theorem reads_word_iff {word : String} {behind : List Char} {kinds : List TokenKind}
    (isWord : IsWord word) (apart : ∀ c ∈ behind.head?, c = ' ') {p : Position} :
    Reads p (word.toList ++ behind) (.word word :: kinds) ↔
      (∀ c ∈ word.toList, c.utf8Size = 1) ∧ Reads (p.after word.toList) behind kinds := by
  obtain ⟨c, first, starts⟩ := isWord.starts
  obtain ⟨tail, spelled⟩ : ∃ tail, word.toList = c :: tail := List.head?_eq_some_iff.mp first
  have second : (tail ++ behind).head? ≠ some ':' := by
    intro colon
    cases tail with
    | nil => cases apart ':' colon
    | cons d tail =>
      cases colon
      cases isWord.name.characters ':' (by simp [spelled])
  have whole : word.toList ++ behind = c :: (tail ++ behind) := by rw [spelled, List.cons_append]
  have run : nameRun (word.toList ++ behind) = word.toList :=
    nameRun_append isWord.name fun c ahead => apart c ahead ▸ rfl
  have back : c :: (tail ++ behind).take tail.length = word.toList := by
    rw [List.take_left, spelled]
  rw [whole, reads_cons_iff (triviaWidth_word starts)]
  simp only [lexeme_eq_ok_iff starts second, ← whole]
  constructor
  · rintro ⟨more, isFound, remainder⟩
    obtain ⟨measured, taken⟩ := wordLexeme?_width isFound
    obtain ⟨width, fits⟩ := (nameWidth?_eq_some_iff _ _).mp measured
    have length : word.toList.length = more + 1 := by
      rw [taken, List.length_take, Nat.min_eq_left fits]
    have more_eq : more = tail.length := by simpa [spelled] using length.symm
    subst more_eq
    rw [back, List.drop_left] at remainder
    refine ⟨(utf8Width_eq_length_iff _).mp ?_, remainder⟩
    rw [length, width, run]
  · rintro ⟨narrow, remainder⟩
    have length : word.toList.length - 1 = tail.length := by rw [spelled]; rfl
    rw [wordLexeme?_of_narrow isWord apart narrow, length]
    refine ⟨_, rfl, ?_⟩
    rwa [back, List.drop_left]

theorem reads_words_iff {words : List String} (isWord : ∀ w ∈ words, IsWord w) {p : Position} :
    Reads p (join " " words).toList (words.map .word) ↔
      ∀ w ∈ words, ∀ c ∈ w.toList, c.utf8Size = 1 := by
  induction words generalizing p with
  | nil => exact iff_of_true (reads_nil p) nofun
  | cons word words ih =>
    obtain ⟨first, later⟩ := List.forall_mem_cons.mp isWord
    rw [List.forall_mem_cons, List.map_cons]
    cases words with
    | nil =>
      have alone := @reads_word_iff word [] [] first nofun p
      rw [List.append_nil] at alone
      rw [join, List.map_nil, alone]
      exact and_congr_right fun _ => iff_of_true (reads_nil _) nofun
    | cons next words =>
      have parts : (join " " (word :: next :: words)).toList =
          word.toList ++ ' ' :: (join " " (next :: words)).toList := by
        simp [join, List.append_assoc]
      rw [parts, reads_word_iff first (by simp), reads_space_iff, ih later]

end Words

-- Names are read exactly where no character of their run is wider than one byte: each name of each
-- token of a text, and a text made of names with a space between any two of them.
theorem names_exact_iff_narrow {text : String} {stream : TokenStream}
    (accepted : scan text = .ok stream) {words : List String} (isWord : ∀ w ∈ words, IsWord w) :
    (∀ t ∈ stream.tokens, ∃ front spelled behind, Stands text.toList t.span front spelled behind ∧
      ∀ n ∈ t.kind.names, ∃ lead, spelled = lead ++ n.1.toList ++ n.2 ∧
        (IsName n.1.toList (n.1.toList ++ n.2 ++ behind) ↔
          ∀ c ∈ (n.1.toList ++ n.2 ++ behind).takeWhile isNameChar, c.utf8Size = 1)) ∧
    ((∃ stream, scan (join " " words) = .ok stream ∧
        stream.tokens.map Token.kind = words.map .word) ↔
      ∀ w ∈ words, ∀ c ∈ w.toList, c.utf8Size = 1) := by
  constructor
  · intro t member
    obtain ⟨front, c, rest, found, read, kind, stands⟩ := stands_of_scan accepted t member
    refine ⟨front, _, _, stands, ?_⟩
    intro n named
    rw [kind] at named
    obtain ⟨lead, parts, takes⟩ := lexeme_named read n named
    exact ⟨lead, parts, takes.isName_iff⟩
  · rw [exists_scan_iff, reads_words_iff isWord]

theorem names_exact_iff_narrow_label :
    (∃ front spelled behind, Stands "_:b1.".toList ⟨0, 4, 1, 1⟩ front spelled behind ∧
      ∃ lead, spelled = lead ++ "b1".toList ++ [] ∧
        (IsName "b1".toList ("b1".toList ++ [] ++ behind) ↔
          ∀ c ∈ ("b1".toList ++ [] ++ behind).takeWhile isNameChar, c.utf8Size = 1)) ∧
    ∃ stream, scan "ex-1 b" = .ok stream ∧
      stream.tokens.map Token.kind = [.word "ex-1", .word "b"] := by
  have accepted : scan "_:b1." =
      .ok ⟨[⟨.blankNode "b1", ⟨0, 4, 1, 1⟩⟩, ⟨.dot, ⟨4, 5, 1, 5⟩⟩], ⟨5, 5, 1, 6⟩⟩ := by
    decide +kernel
  have words : ∀ w ∈ ["ex-1", "b"], IsWord w := by
    intro w member
    rcases List.mem_pair.mp member with rfl | rfl
    · exact ⟨isName_self (List.all_eq_true.mp (by decide)) (by decide), 'e', rfl, .inl (by decide)⟩
    · exact ⟨isName_self (List.all_eq_true.mp (by decide)) (by decide), 'b', rfl, .inl (by decide)⟩
  have narrow : ["ex-1", "b"].all (fun w => w.toList.all fun c => c.utf8Size = 1) = true := by
    decide
  simp only [List.all_eq_true, decide_eq_true_eq] at narrow
  obtain ⟨tokens, apart⟩ := names_exact_iff_narrow accepted words
  obtain ⟨front, spelled, behind, stands, names⟩ := tokens _ List.mem_cons_self
  exact ⟨⟨front, spelled, behind, stands, names _ List.mem_cons_self⟩, apart.mpr narrow⟩

theorem not_names_exact :
    scan "é x" = .ok ⟨[⟨.word "é ", ⟨0, 3, 1, 1⟩⟩, ⟨.word "x", ⟨3, 4, 1, 3⟩⟩], ⟨4, 4, 1, 4⟩⟩ ∧
    ¬ IsName "é ".toList "é x".toList ∧
    "é x" = join " " ["é", "x"] ∧ ∀ w ∈ ["é", "x"], IsWord w := by
  refine ⟨by decide +kernel, ?_, by decide, ?_⟩
  · intro name
    cases name.characters ' ' (by decide)
  · intro w member
    rcases List.mem_pair.mp member with rfl | rfl
    · exact ⟨isName_self (List.all_eq_true.mp (by decide +kernel)) (by decide), 'é', rfl,
        .inl (by decide +kernel)⟩
    · exact ⟨isName_self (List.all_eq_true.mp (by decide)) (by decide), 'x', rfl, .inl (by decide)⟩

end Token

end Stottr

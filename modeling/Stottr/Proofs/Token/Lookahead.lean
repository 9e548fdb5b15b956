import Stottr.Proofs.Token.Extent

namespace Stottr.Token

open Text

variable {kept gone behind rest : List Char} {width : Nat} {name : WrittenIri} {found : Lexeme}

structure Untagged (ahead : List Char) : Prop where
  language : ∀ tag, ahead ≠ '@' :: tag
  datatype : ∀ tag, ahead ≠ '^' :: '^' :: tag

-- A literal, after its opening quote: with a language, with a datatype, or with no tag.
inductive Quoted (rest : List Char) : Lexeme → Prop where
  | language {width more : Nat} {body tag : List Char}
    (closed : quotedBody? rest = some (body, width)) (mark : rest.drop width = '@' :: tag)
    (measured : languageWidth? tag = some more) :
    Quoted rest ⟨.literal (String.ofList body) (some (.language (String.ofList (tag.take more)))),
      width + 1 + more⟩
  | datatype {width more : Nat} {body tag : List Char} {name : WrittenIri}
    (closed : quotedBody? rest = some (body, width)) (mark : rest.drop width = '^' :: '^' :: tag)
    (measured : datatype? tag = some (name, more)) :
    Quoted rest ⟨.literal (String.ofList body) (some (.datatype name)), width + 2 + more⟩
  | plain {width : Nat} {body : List Char} (closed : quotedBody? rest = some (body, width))
    (untagged : Untagged (rest.drop width)) :
    Quoted rest ⟨.literal (String.ofList body) none, width⟩

theorem quoted_of_literalLexeme (read : literalLexeme rest = .ok found) : Quoted rest found := by
  unfold literalLexeme at read
  split at read
  · cases read
  · rename_i body width closed
    dsimp only at read
    split at read
    · rename_i tag mark
      split at read
      · rename_i more measured
        cases read
        exact .language closed mark measured
      · cases read
    · rename_i tag mark
      split at read
      · rename_i name more measured
        cases read
        exact .datatype closed mark measured
      · cases read
    · rename_i noLanguage noDatatype
      cases read
      exact .plain closed ⟨noLanguage, noDatatype⟩

theorem Quoted.read (quoted : Quoted rest found) : literalLexeme rest = .ok found := by
  unfold literalLexeme
  cases quoted with
  | language closed mark measured => simp only [closed, mark, measured]
  | datatype closed mark measured => simp only [closed, mark, measured]
  | plain closed untagged =>
    rw [closed]
    dsimp only
    split
    · rename_i mark
      exact absurd mark (untagged.language _)
    · rename_i mark
      exact absurd mark (untagged.datatype _)
    · rfl

theorem untagged_of_head {ahead : List Char} (language : ahead.head? ≠ some '@')
    (datatype : ahead.head? ≠ some '^') : Untagged ahead :=
  ⟨fun _ same => language (congrArg List.head? same),
    fun _ same => datatype (congrArg List.head? same)⟩

theorem Untagged.before (untagged : Untagged (kept ++ gone)) (parted : Parted behind) :
    Untagged (kept ++ behind) := by
  cases kept with
  | nil => exact untagged_of_head (parted.head_ne (by decide)) (parted.head_ne (by decide))
  | cons c kept =>
    refine ⟨?_, ?_⟩
    · rintro tag same
      obtain ⟨rfl, -⟩ := List.cons.inj same
      exact untagged.language _ rfl
    · rintro tag same
      obtain ⟨rfl, later⟩ := List.cons.inj same
      cases kept with
      | nil => exact parted.head_ne (by decide) (congrArg List.head? later)
      | cons d kept =>
        obtain ⟨rfl, -⟩ := List.cons.inj later
        exact untagged.datatype _ rfl

theorem literalLexeme_kept (read : literalLexeme (kept ++ gone) = .ok found)
    (inside : found.more ≤ kept.length) (parted : Parted behind) :
    literalLexeme (kept ++ behind) = .ok found := by
  refine Quoted.read ?_
  cases quoted_of_literalLexeme read with
  | @language width more body tag closed mark measured =>
    dsimp only at inside
    have short : width < kept.length := by omega
    obtain ⟨ahead, rfl, total, mark'⟩ := drop_inside short mark
    have within : more ≤ ahead.length := by omega
    have again := Quoted.language (quotedBody?_kept closed short.le behind) (mark' behind)
      (languageWidth?_kept measured within parted)
    rwa [List.take_append_of_le_length within] at again ⊢
  | @datatype width more body tag name closed mark measured =>
    dsimp only at inside
    have short : width < kept.length := by omega
    obtain ⟨ahead, mark, total, mark'⟩ := drop_inside short mark
    cases ahead with
    | nil =>
      rw [List.length_nil] at total
      omega
    | cons d ahead =>
      obtain ⟨rfl, rfl⟩ := List.cons.inj mark
      rw [List.length_cons] at total
      have within : more ≤ ahead.length := by omega
      exact .datatype (quotedBody?_kept closed short.le behind) (mark' behind)
        (datatype?_kept measured within parted)
  | plain closed untagged =>
    rw [drop_kept inside] at untagged
    refine .plain (quotedBody?_kept closed inside behind) ?_
    rw [drop_kept inside]
    exact untagged.before parted

theorem keywordLexeme?_eq_some_iff : keywordLexeme? rest = some found ↔
    found = ⟨.prefixKeyword, 6⟩ ∧ ∃ ahead, rest = "prefix".toList ++ ahead ∧
      ∀ c ∈ ahead.head?, isNameChar c = false := by
  constructor
  · intro read
    unfold keywordLexeme? at read
    split at read
    · rename_i ahead
      split at read
      · cases read
      · rename_i stops
        cases read
        refine ⟨rfl, ahead, rfl, fun c first => ?_⟩
        rw [Option.mem_def.mp first] at stops
        simpa using stops
    · cases read
  · rintro ⟨rfl, ahead, rfl, stops⟩
    refine if_neg ?_
    cases ahead with
    | nil => exact nofun
    | cons c ahead => simp [stops c rfl]

theorem keywordLexeme?_kept (read : keywordLexeme? (kept ++ gone) = some found)
    (inside : found.more ≤ kept.length) (parted : Parted behind) :
    keywordLexeme? (kept ++ behind) = some found := by
  obtain ⟨rfl, ahead, spelled, stops⟩ := keywordLexeme?_eq_some_iff.mp read
  obtain ⟨more, rfl⟩ : "prefix".toList <+: kept := List.prefix_of_prefix_length_le
    (List.prefix_iff_exists_eq_append.mpr ⟨ahead, spelled⟩) (List.prefix_append kept gone) inside
  rw [List.append_assoc] at spelled ⊢
  cases List.append_cancel_left spelled
  refine keywordLexeme?_eq_some_iff.mpr ⟨rfl, more ++ behind, rfl, ?_⟩
  cases more with
  | nil => exact parted.stops (by decide +kernel)
  | cons c more => exact stops

theorem variableLexeme?_eq_some_iff : variableLexeme? rest = some found ↔
    ∃ width, nameWidth? rest = some width ∧
      found = ⟨if width = 0 then .question else .variable (String.ofList (rest.take width)),
        width⟩ := by
  unfold variableLexeme?
  cases nameWidth? rest with
  | none => simp
  | some width => cases width <;> simp [eq_comm]

theorem variableLexeme?_kept (read : variableLexeme? (kept ++ gone) = some found)
    (inside : found.more ≤ kept.length) (parted : Parted behind) :
    variableLexeme? (kept ++ behind) = some found := by
  obtain ⟨width, measured, rfl⟩ := variableLexeme?_eq_some_iff.mp read
  have within : width ≤ kept.length := inside
  refine variableLexeme?_eq_some_iff.mpr ⟨width, nameWidth?_kept measured within parted, ?_⟩
  rw [List.take_append_of_le_length within, List.take_append_of_le_length within]

theorem blankLexeme?_eq_some_iff : blankLexeme? rest = some found ↔
    ∃ width, nameWidth? rest = some width ∧ width ≠ 0 ∧
      found = ⟨.blankNode (String.ofList (rest.take width)), width + 1⟩ := by
  unfold blankLexeme?
  cases nameWidth? rest with
  | none => simp
  | some width => cases width <;> simp [eq_comm]

theorem blankLexeme?_kept (read : blankLexeme? (kept ++ gone) = some found)
    (inside : found.more ≤ kept.length + 1) (parted : Parted behind) :
    blankLexeme? (kept ++ behind) = some found := by
  obtain ⟨width, measured, notEmpty, rfl⟩ := blankLexeme?_eq_some_iff.mp read
  have within : width ≤ kept.length := Nat.le_of_succ_le_succ inside
  refine blankLexeme?_eq_some_iff.mpr
    ⟨width, nameWidth?_kept measured within parted, notEmpty, ?_⟩
  rw [List.take_append_of_le_length within, List.take_append_of_le_length within]

def places (ahead : List Char) : List Char :=
  match ahead with
  | '.' :: fraction => fraction.takeWhile Char.isDigit
  | _ => []

theorem numberLexeme_eq (c : Char) (rest : List Char) :
    numberLexeme c rest =
      if places (rest.drop (rest.takeWhile Char.isDigit).length) = [] then
        ⟨.integer (String.ofList (c :: rest.take (rest.takeWhile Char.isDigit).length)),
          (rest.takeWhile Char.isDigit).length⟩
      else ⟨.decimal (String.ofList (c :: rest.take ((rest.takeWhile Char.isDigit).length + 1 +
          (places (rest.drop (rest.takeWhile Char.isDigit).length)).length))),
        (rest.takeWhile Char.isDigit).length + 1 +
          (places (rest.drop (rest.takeWhile Char.isDigit).length)).length⟩ := by
  unfold numberLexeme
  dsimp only
  split
  · rename_i fraction dot
    simp only [dot, places]
    split
    · rename_i none
      rw [if_pos (List.length_eq_zero_iff.mp none)]
    · rename_i notNone
      rw [if_neg fun none => notNone (List.length_eq_zero_iff.mpr none)]
  · rename_i noDot
    rw [if_pos]
    unfold places
    split
    · rename_i dot
      exact absurd dot (noDot _)
    · rfl

theorem places_kept
    (inside : places (kept ++ gone) = [] ∨ (places (kept ++ gone)).length + 1 ≤ kept.length)
    (parted : Parted behind) : places (kept ++ behind) = places (kept ++ gone) := by
  cases kept with
  | nil =>
    have none : places ([] ++ gone) = [] := inside.resolve_right (Nat.not_succ_le_zero _)
    have noDot : behind.head? ≠ some '.' := parted.head_ne (by decide)
    rw [none, List.nil_append]
    unfold places
    split
    · exact absurd rfl noDot
    · rfl
  | cons c kept =>
    by_cases dot : c = '.'
    · subst dot
      have within : ((kept ++ gone).takeWhile Char.isDigit).length ≤ kept.length := by
        rcases inside with none | short
        · exact Nat.le_trans (Nat.le_of_eq (congrArg List.length none)) (Nat.zero_le _)
        · exact Nat.le_of_succ_le_succ short
      exact takeWhile_kept within fun _ => parted.stops (by decide)
    · have noDot : ∀ more : List Char, places ((c :: kept) ++ more) = [] := by
        intro more
        unfold places
        split
        · rename_i same
          exact absurd (List.cons.inj same).1 dot
        · rfl
      rw [noDot, noDot]

theorem numberLexeme_kept {c : Char}
    (inside : (numberLexeme c (kept ++ gone)).more ≤ kept.length) (parted : Parted behind) :
    numberLexeme c (kept ++ behind) = numberLexeme c (kept ++ gone) := by
  rw [numberLexeme_eq] at inside
  have whole : ((kept ++ gone).takeWhile Char.isDigit).length ≤ kept.length := by
    split at inside <;> dsimp only at inside <;> omega
  rw [numberLexeme_eq, numberLexeme_eq, takeWhile_kept whole fun _ => parted.stops (by decide)]
  generalize ((kept ++ gone).takeWhile Char.isDigit).length = digits at inside whole
  rw [drop_kept whole] at inside
  have fraction : places (kept.drop digits ++ gone) = [] ∨
      (places (kept.drop digits ++ gone)).length + 1 ≤ (kept.drop digits).length := by
    rw [List.length_drop]
    split at inside
    · exact .inl ‹_›
    · dsimp only at inside
      exact .inr (by omega)
  rw [drop_kept whole, drop_kept whole, places_kept fraction parted]
  split at inside
  · rename_i none
    rw [if_pos none, if_pos none, List.take_append_of_le_length whole,
      List.take_append_of_le_length whole]
  · rename_i some
    rw [if_neg some, if_neg some, List.take_append_of_le_length inside,
      List.take_append_of_le_length inside]

-- No character behind a word goes on with it: a colon comes only with another one, and a bracket
-- only where the word does not call for it.
def Ends (word : String) (ahead : List Char) : Prop :=
  (∃ more, ahead = ':' :: ':' :: more) ∨
    ahead.head? ≠ some ':' ∧ (ahead.head? = some '<' → word ≠ "List" ∧ word ≠ "NEList")

-- The tokens that begin with a word: the word alone, a prefixed name, or the type of a list, whose
-- bracket belongs to it.
inductive Worded (rest : List Char) : Lexeme → Prop where
  | word {more : Nat} (measured : nameWidth? rest = some (more + 1))
    (ends : Ends (String.ofList (rest.take (more + 1))) (rest.drop (more + 1))) :
    Worded rest ⟨.word (String.ofList (rest.take (more + 1))), more⟩
  | name {width total : Nat} {ahead : List Char} {name : WrittenIri}
    (measured : nameWidth? rest = some width) (colon : rest.drop width = ':' :: ahead)
    (single : ahead.head? ≠ some ':') (isPrefixed : prefixedName? rest = some (name, total)) :
    Worded rest ⟨.iri name, total - 1⟩
  | list {width : Nat} {ahead : List Char} {kind : TokenKind}
    (measured : nameWidth? rest = some width) (bracket : rest.drop width = '<' :: ahead)
    (opens : String.ofList (rest.take width) = "List" ∧ kind = .listType ∨
      String.ofList (rest.take width) = "NEList" ∧ kind = .nonEmptyListType) :
    Worded rest ⟨kind, width⟩

theorem worded_of_wordLexeme? (read : wordLexeme? rest = some found) : Worded rest found := by
  unfold wordLexeme? at read
  split at read
  · cases read
  · rename_i width measured
    dsimp only at read
    split at read
    · cases read
    · rename_i ahead colons
      cases read
      exact .word measured (.inl ⟨_, colons⟩)
    · rename_i width _ _ ahead noWord noColons colon
      obtain ⟨⟨name, total⟩, isPrefixed, same⟩ := Option.map_eq_some_iff.mp read
      cases same
      refine .name measured colon (fun second => ?_) isPrefixed
      obtain ⟨tail, same⟩ := List.head?_eq_some_iff.mp second
      cases width with
      | zero => exact noWord tail rfl same
      | succ more => exact noColons more tail rfl same
    · cases read
    · rename_i more ahead bracket
      split at read
      · rename_i isList
        cases read
        exact .list measured bracket (.inl ⟨isList, rfl⟩)
      · rename_i notList
        split at read
        · rename_i isList
          cases read
          exact .list measured bracket (.inr ⟨isList, rfl⟩)
        · rename_i notList'
          cases read
          refine .word measured (.inr ⟨?_, fun _ => ⟨notList, notList'⟩⟩)
          rw [bracket]
          exact nofun
    · rename_i noColons noColon noBracket
      cases read
      refine .word measured (.inr ⟨fun colon => ?_, fun bracket => ?_⟩)
      · obtain ⟨tail, same⟩ := List.head?_eq_some_iff.mp colon
        exact absurd same (noColon tail)
      · obtain ⟨tail, same⟩ := List.head?_eq_some_iff.mp bracket
        exact absurd same (noBracket tail)

theorem Worded.read (worded : Worded rest found) : wordLexeme? rest = some found := by
  cases worded with
  | @word more measured ends =>
    simp only [wordLexeme?, measured]
    rcases ends with ⟨tail, colons⟩ | ⟨noColon, bracket⟩
    · rw [colons]
      rfl
    · generalize rest.drop (more + 1) = ahead at noColon bracket
      split
      · contradiction
      · exact absurd rfl noColon
      · exact absurd rfl noColon
      · contradiction
      · rename_i same
        cases same
        obtain ⟨notList, notList'⟩ := bracket rfl
        rw [if_neg notList, if_neg notList']
      · rename_i same _ _ _
        cases same
        rfl
  | name measured colon single isPrefixed =>
    simp only [wordLexeme?, measured, colon]
    split
    · exact absurd (congrArg List.head? (List.cons.inj ‹_›).2) single
    · exact absurd (congrArg List.head? (List.cons.inj ‹_›).2) single
    · rw [isPrefixed]
      rfl
    · rename_i noColon
      exact absurd rfl (noColon _)
    · rename_i same
      cases same
    · rename_i noColon _
      exact absurd rfl (noColon _)
  | @list width ahead kind measured bracket opens =>
    cases width with
    | zero =>
      rw [List.take_zero] at opens
      rcases opens with ⟨isList, -⟩ | ⟨isList, -⟩ <;> exact absurd isList (by decide)
    | succ more =>
      simp only [wordLexeme?, measured, bracket]
      rcases opens with ⟨isList, rfl⟩ | ⟨isList, rfl⟩
      · rw [if_pos isList]
      · rw [isList, if_neg (by decide), if_pos rfl]

theorem Ends.before {word : String} (ends : Ends word (kept ++ gone)) (parted : Parted behind)
    (untorn : kept = [':'] → gone.head? ≠ some ':') : Ends word (kept ++ behind) := by
  match kept, ends, untorn with
  | [], _, _ =>
    have noColon : behind.head? ≠ some ':' := parted.head_ne (by decide)
    have noBracket : behind.head? ≠ some '<' := parted.head_ne (by decide)
    exact .inr ⟨noColon, fun bracket => absurd bracket noBracket⟩
  | [c], ends, untorn =>
    rcases ends with ⟨more, colons⟩ | single
    · simp only [List.singleton_append, List.cons.injEq] at colons
      obtain ⟨rfl, rfl⟩ := colons
      exact absurd rfl (untorn rfl)
    · exact .inr single
  | c :: d :: kept, ends, _ =>
    rcases ends with ⟨more, colons⟩ | single
    · simp only [List.cons_append, List.cons.injEq] at colons
      obtain ⟨rfl, rfl, -⟩ := colons
      exact .inl ⟨kept ++ behind, rfl⟩
    · exact .inr single

-- A colon that is torn from another one would make a prefix of the word in front of it.
theorem wordLexeme?_kept (read : wordLexeme? (kept ++ gone) = some found)
    (inside : found.more < kept.length) (parted : Parted behind)
    (untorn : kept.drop (found.more + 1) = [':'] → gone.head? ≠ some ':') :
    wordLexeme? (kept ++ behind) = some found := by
  refine Worded.read ?_
  cases worded_of_wordLexeme? read with
  | @word more measured ends =>
    have short : more + 1 ≤ kept.length := inside
    rw [drop_kept short, List.take_append_of_le_length short] at ends
    rw [List.take_append_of_le_length short]
    have again := @Worded.word (kept ++ behind) more (nameWidth?_kept measured short parted)
    rw [drop_kept short, List.take_append_of_le_length short] at again
    exact again (ends.before parted untorn)
  | @name width total ahead name measured colon single isPrefixed =>
    obtain ⟨left, right, rest, measured', -, -, wide, -⟩ := prefixedName?_parts isPrefixed
    cases measured.symm.trans measured'
    have long : total ≤ kept.length := by
      dsimp only at inside
      omega
    have short : width < kept.length := by omega
    obtain ⟨more, rfl, -, colon'⟩ := drop_inside short colon
    refine .name (nameWidth?_kept measured short.le parted) (colon' behind) ?_
      (prefixedName?_kept isPrefixed long parted)
    cases more with
    | nil => exact parted.head_ne (by decide)
    | cons d more => exact single
  | list measured bracket opens =>
    obtain ⟨more, rfl, -, bracket'⟩ := drop_inside inside bracket
    rw [List.take_append_of_le_length inside.le] at opens
    refine .list (nameWidth?_kept measured inside.le parted) (bracket' behind) ?_
    rwa [List.take_append_of_le_length inside.le]

theorem punctuation?_alone {c : Char} (read : punctuation? c rest = some found)
    (alone : found.more = 0) (behind : List Char) : punctuation? c behind = some found := by
  unfold punctuation? at read
  split at read <;> cases read
  iterate 2 cases alone
  all_goals rfl

theorem punctuation?_double {c : Char} (read : punctuation? c rest = some found)
    (double : found.more ≠ 0) : found.more = 1 ∧ ∃ more, rest = c :: more ∧
      ∀ behind, punctuation? c (c :: behind) = some found := by
  unfold punctuation? at read
  split at read <;> cases read
  · exact ⟨rfl, _, rfl, fun _ => rfl⟩
  · exact ⟨rfl, _, rfl, fun _ => rfl⟩
  all_goals exact absurd rfl double

theorem punctuation?_kept {c : Char} (read : punctuation? c (kept ++ gone) = some found)
    (inside : found.more ≤ kept.length) (behind : List Char) :
    punctuation? c (kept ++ behind) = some found := by
  by_cases alone : found.more = 0
  · exact punctuation?_alone read alone _
  · obtain ⟨single, more, whole, reads⟩ := punctuation?_double read alone
    cases kept with
    | nil =>
      rw [single] at inside
      cases inside
    | cons d kept =>
      rw [List.cons_append] at whole
      rw [(List.cons.inj whole).1]
      exact reads _

def Pairs (c : Char) (second : Option Char) : Prop :=
  c = '_' ∧ second = some ':' ∨
    (c = '+' ∨ c = '-') ∧ (second.map Char.isDigit).getD false = true ∨ c = ':' ∧ second = some ':'

theorem Parted.not_pairs (parted : Parted behind) (c : Char) : ¬Pairs c behind.head? := by
  have noColon : behind.head? ≠ some ':' := parted.head_ne (by decide)
  rintro (⟨-, colon⟩ | ⟨-, digit⟩ | ⟨-, colon⟩)
  · exact noColon colon
  · cases first : behind.head? with
    | none => simp [first] at digit
    | some d => simp [first, parted.stops (p := Char.isDigit) (by decide) d first] at digit
  · exact noColon colon

theorem numberLexeme_more {c d : Char} (digit : d.isDigit = true) (rest : List Char) :
    0 < (numberLexeme c (d :: rest)).more := by
  rw [numberLexeme_eq, List.takeWhile_cons_of_pos digit]
  split
  · exact Nat.succ_pos _
  · exact Nat.add_pos_left (Nat.succ_pos _) _

theorem plainLexeme?_pair {c : Char} (read : plainLexeme? c rest = some found)
    (pairs : Pairs c rest.head?) : 0 < found.more := by
  cases rest with
  | nil => simp [Pairs] at pairs
  | cons d rest =>
    simp only [Pairs, List.head?_cons, Option.some.injEq, Option.map_some,
      Option.getD_some] at pairs
    rcases pairs with ⟨rfl, rfl⟩ | ⟨sign, digit⟩ | ⟨rfl, rfl⟩
    · obtain ⟨width, -, -, rfl⟩ := blankLexeme?_eq_some_iff.mp
        (show blankLexeme? rest = some found from read)
      exact Nat.succ_pos _
    · have isNumber : plainLexeme? c (d :: rest) = some (numberLexeme c (d :: rest)) := by
        rcases sign with rfl | rfl <;> simp [plainLexeme?, digit]
      cases read.symm.trans isNumber
      exact numberLexeme_more digit rest
    · cases (show some (Lexeme.mk .doubleColon 1) = some found from read)
      exact Nat.succ_pos _

-- Second characters that the first one does not tell from each other.
structure Indistinct (c : Char) (one other : Option Char) : Prop where
  label : (c = '_' ∧ one = some ':') ↔ (c = '_' ∧ other = some ':')
  number : ((c = '+' ∨ c = '-') ∧ (one.map Char.isDigit).getD false = true) ↔
    ((c = '+' ∨ c = '-') ∧ (other.map Char.isDigit).getD false = true)
  colon : (c = ':' ∧ one ≠ some ':') ↔ (c = ':' ∧ other ≠ some ':')

theorem indistinct_of_not_pairs {c : Char} {one other : Option Char} (apart : ¬Pairs c one)
    (apart' : ¬Pairs c other) : Indistinct c one other where
  label := iff_of_false (fun pair => apart (.inl pair)) (fun pair => apart' (.inl pair))
  number := iff_of_false (fun pair => apart (.inr (.inl pair)))
    (fun pair => apart' (.inr (.inl pair)))
  colon := and_congr_right fun first => iff_of_true
    (fun pair => apart (.inr (.inr ⟨first, pair⟩)))
    (fun pair => apart' (.inr (.inr ⟨first, pair⟩)))

-- The second character is kept with the first one, or else the first one is a token alone.
theorem indistinct_kept {c : Char} (read : plainLexeme? c (kept ++ gone) = some found)
    (inside : found.more ≤ kept.length) (parted : Parted behind) :
    Indistinct c (kept ++ behind).head? (kept ++ gone).head? := by
  cases kept with
  | nil =>
    exact indistinct_of_not_pairs (parted.not_pairs c) fun pairs =>
      Nat.not_lt.mpr inside (plainLexeme?_pair read pairs)
  | cons d kept => exact ⟨Iff.rfl, Iff.rfl, Iff.rfl⟩

theorem plainLexeme?_kept {c : Char} (read : plainLexeme? c (kept ++ gone) = some found)
    (inside : found.more ≤ kept.length) (parted : Parted behind)
    (untorn : kept.drop found.more = [':'] → gone.head? ≠ some ':') :
    plainLexeme? c (kept ++ behind) = some found := by
  have isWord : wordLexeme? (c :: (kept ++ gone)) = some found →
      wordLexeme? (c :: (kept ++ behind)) = some found := fun word =>
    @wordLexeme?_kept (c :: kept) _ _ _ word (Nat.lt_succ_of_le inside) parted untorn
  have second := indistinct_kept read inside parted
  unfold plainLexeme? at read ⊢
  dsimp only at read ⊢
  simp only [second.label, second.number, second.colon]
  split at read
  · rw [if_pos ‹_›]
    exact keywordLexeme?_kept read inside parted
  rw [if_neg ‹_›]
  split at read
  · rw [if_pos ‹_›]
    exact variableLexeme?_kept read inside parted
  rw [if_neg ‹_›]
  split at read
  · rename_i label
    rw [if_pos label]
    cases kept with
    | nil => exact absurd (second.label.mpr label).2 (parted.head_ne (c := ':') (by decide))
    | cons d kept => exact blankLexeme?_kept read inside parted
  rw [if_neg ‹_›]
  split at read
  · rw [if_pos ‹_›]
    cases read
    rw [numberLexeme_kept inside parted]
  rw [if_neg ‹_›]
  split at read
  · rw [if_pos ‹_›]
    cases read
    rw [numberLexeme_kept inside parted]
  rw [if_neg ‹_›]
  split at read
  · rw [if_pos ‹_›]
    exact isWord read
  rw [if_neg ‹_›]
  split at read
  · rw [if_pos ‹_›]
    exact isWord read
  rw [if_neg ‹_›]
  exact punctuation?_kept read inside behind

-- A token is read again wherever a text comes to an end behind its characters, or goes on with
-- layout there.
theorem lexeme_kept {c : Char} (read : lexeme c (kept ++ gone) = .ok found)
    (inside : found.more ≤ kept.length) (parted : Parted behind)
    (untorn : kept.drop found.more = [':'] → gone.head? ≠ some ':') :
    lexeme c (kept ++ behind) = .ok found := by
  unfold lexeme at read ⊢
  split at read
  · rw [if_pos ‹_›]
    exact literalLexeme_kept read inside parted
  rw [if_neg ‹_›]
  split at read
  · rw [if_pos ‹_›]
    split at read
    · rename_i isFull
      cases read
      rw [bracketed?_kept isFull inside]
    · cases read
  rw [if_neg ‹_›]
  split at read
  · rename_i plain
    cases read
    rw [plainLexeme?_kept plain inside parted untorn]
  · cases read

theorem literalLexeme_fits (read : literalLexeme rest = .ok found) : found.more ≤ rest.length := by
  cases quoted_of_literalLexeme read with
  | language closed mark measured =>
    have total := congrArg List.length mark
    have fits := languageWidth?_le measured
    rw [List.length_drop, List.length_cons] at total
    dsimp only
    omega
  | datatype closed mark measured =>
    have total := congrArg List.length mark
    have fits := datatype?_le measured
    rw [List.length_drop, List.length_cons, List.length_cons] at total
    dsimp only
    omega
  | plain closed untagged =>
    obtain ⟨spelled, tail, rfl, rfl, -⟩ := quotedBody?_spelled closed
    rw [List.length_append]
    exact Nat.le_add_right _ _

theorem places_le (ahead : List Char) :
    places ahead = [] ∨ (places ahead).length < ahead.length := by
  unfold places
  split
  · exact .inr (Nat.lt_succ_of_le (List.takeWhile_sublist _).length_le)
  · exact .inl rfl

theorem numberLexeme_fits (c : Char) (rest : List Char) :
    (numberLexeme c rest).more ≤ rest.length := by
  have whole := (List.takeWhile_sublist (l := rest) Char.isDigit).length_le
  have fraction := places_le (rest.drop (rest.takeWhile Char.isDigit).length)
  rw [List.length_drop] at fraction
  rw [numberLexeme_eq]
  split
  · exact whole
  · rename_i some
    have short := fraction.resolve_left some
    dsimp only
    omega

theorem wordLexeme?_fits (read : wordLexeme? rest = some found) : found.more < rest.length := by
  cases worded_of_wordLexeme? read with
  | word measured => exact ((nameWidth?_eq_some_iff _ _).mp measured).2
  | name measured colon single isPrefixed =>
    have fits := prefixedName?_le isPrefixed
    have positive := (spells_prefixed isPrefixed).2
    dsimp only
    omega
  | list measured bracket opens =>
    have total := congrArg List.length bracket
    rw [List.length_drop, List.length_cons] at total
    dsimp only
    omega

theorem punctuation?_fits {c : Char} (read : punctuation? c rest = some found) :
    found.more ≤ rest.length := by
  by_cases alone : found.more = 0
  · rw [alone]
    exact Nat.zero_le _
  · obtain ⟨single, more, rfl, -⟩ := punctuation?_double read alone
    rw [single]
    exact Nat.succ_le_succ (Nat.zero_le _)

theorem plainLexeme?_fits {c : Char} (read : plainLexeme? c rest = some found) :
    found.more ≤ rest.length := by
  unfold plainLexeme? at read
  dsimp only at read
  split at read
  · obtain ⟨rfl, ahead, rfl, -⟩ := keywordLexeme?_eq_some_iff.mp read
    rw [List.length_append]
    exact Nat.le_add_right 6 _
  split at read
  · obtain ⟨width, measured, rfl⟩ := variableLexeme?_eq_some_iff.mp read
    exact ((nameWidth?_eq_some_iff _ _).mp measured).2
  split at read
  · rename_i label
    obtain ⟨more, rfl⟩ := List.head?_eq_some_iff.mp label.2
    obtain ⟨width, measured, -, rfl⟩ := blankLexeme?_eq_some_iff.mp read
    exact Nat.succ_le_succ ((nameWidth?_eq_some_iff _ _).mp measured).2
  split at read
  · cases read
    exact numberLexeme_fits c rest
  split at read
  · cases read
    exact numberLexeme_fits c rest
  split at read
  · exact Nat.le_of_lt_succ (wordLexeme?_fits read)
  split at read
  · exact Nat.le_of_lt_succ (wordLexeme?_fits read)
  · exact punctuation?_fits read

theorem lexeme_fits {c : Char} (read : lexeme c rest = .ok found) : found.more ≤ rest.length := by
  unfold lexeme at read
  split at read
  · exact literalLexeme_fits read
  split at read
  · split at read
    · rename_i isFull
      cases read
      exact bracketed?_le isFull
    · cases read
  · split at read
    · rename_i plain
      cases read
      exact plainLexeme?_fits plain
    · cases read

theorem lexeme_starts {c : Char} (read : lexeme c rest = .ok found) :
    isSpace c = false ∧ c ≠ '#' := by
  have begins : ∀ d ∈ [' ', '\t', '\r', '\n', '#'], c ≠ d := by
    rintro d member rfl
    have unread : lexeme c rest = .error ⟨.unexpectedChar c, 0⟩ := by
      simp only [List.mem_cons, List.not_mem_nil, or_false] at member
      rcases member with rfl | rfl | rfl | rfl | rfl <;> rfl
    cases unread.symm.trans read
  refine ⟨?_, begins '#' (by decide)⟩
  simp [isSpace, begins ' ' (by decide), begins '\t' (by decide), begins '\r' (by decide),
    begins '\n' (by decide)]

-- The character that is wrong stands where the fault is. There is nothing in front of it, or else
-- a literal, of which only the tag is wrong.
theorem lexeme_misread {c : Char} {misread : Misread} (failed : lexeme c rest = .error misread)
    (p : Position) :
    (∃ more, (c :: rest).drop misread.before = LexError.character ⟨misread.fault, p⟩ :: more) ∧
      (misread.before = 0 ∨ c = '"' ∧ ∃ width kind, misread.before = width + 1 ∧
        lexeme c (rest.take width) = .ok ⟨kind, (rest.take width).length⟩) := by
  unfold lexeme at failed
  split at failed
  · rename_i quote
    subst quote
    unfold literalLexeme at failed
    split at failed
    · cases failed
      refine ⟨⟨rest, ?_⟩, .inl rfl⟩
      split <;> rfl
    · rename_i body width closed
      have alone : lexeme '"' (rest.take width) =
          .ok ⟨.literal (String.ofList body) none, (rest.take width).length⟩ := by
        obtain ⟨spelled, tail, rfl, rfl, reads⟩ := quotedBody?_spelled closed
        have closed' := reads []
        rw [List.append_nil] at closed'
        rw [lexeme_quote, List.take_left]
        refine Quoted.read (.plain closed' ?_)
        rw [List.drop_length]
        exact ⟨nofun, nofun⟩
      dsimp only at failed
      split at failed
      · rename_i tag mark
        split at failed
        · cases failed
        · cases failed
          exact ⟨⟨tag, mark⟩, .inr ⟨rfl, width, _, rfl, alone⟩⟩
      · rename_i tag mark
        split at failed
        · cases failed
        · cases failed
          exact ⟨⟨'^' :: tag, mark⟩, .inr ⟨rfl, width, _, rfl, alone⟩⟩
      · cases failed
  split at failed
  · rename_i bracket
    split at failed
    · cases failed
    · cases failed
      exact ⟨⟨rest, by rw [bracket]; rfl⟩, .inl rfl⟩
  · split at failed
    · cases failed
    · cases failed
      exact ⟨⟨rest, rfl⟩, .inl rfl⟩

end Stottr.Token

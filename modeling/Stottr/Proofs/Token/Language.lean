import Mathlib
import Stottr.Literal
import Stottr.Proofs.Token.Names

namespace Stottr

namespace Text

theorem segments_head {separator : Char} {cs first : List Char} {others : List (List Char)}
    (parts : segments separator cs = first :: others) :
    cs = first ∧ others = [] ∨
      ∃ rest, cs = first ++ separator :: rest ∧ segments separator rest = others := by
  induction cs generalizing first with
  | nil =>
    cases parts
    exact .inl ⟨rfl, rfl⟩
  | cons c cs ih =>
    unfold segments at parts
    split at parts
    · rename_i same
      cases parts
      exact .inr ⟨cs, by rw [same]; rfl, rfl⟩
    · split at parts
      · rename_i none
        exact absurd none (segments_ne_nil separator cs)
      · rename_i part later split
        cases parts
        rcases ih split with ⟨rfl, rfl⟩ | ⟨rest, rfl, others⟩
        · exact .inl ⟨rfl, rfl⟩
        · exact .inr ⟨rest, rfl, others⟩

theorem segments_map {separator : Char} {f : Char → Char}
    (keeps : ∀ c, f c = separator ↔ c = separator) (cs : List Char) :
    segments separator (cs.map f) = (segments separator cs).map (List.map f) := by
  induction cs with
  | nil => rfl
  | cons c cs ih =>
    by_cases same : c = separator
    · simp only [List.map_cons, segments, same, (keeps separator).mpr rfl, if_true, ih,
        List.map_nil]
    · have other : f c ≠ separator := fun equal => same ((keeps c).mp equal)
      simp only [List.map_cons, segments, same, other, if_false, ih]
      cases segments separator cs with
      | nil => rfl
      | cons part rest => rfl

end Text

namespace Literal

theorem isDigit_toLower (c : Char) : c.toLower.isDigit = c.isDigit := by
  by_cases upper : c.isUpper = true
  · have letter : c.isAlpha = true := by simp [Char.isAlpha, upper]
    have lower : c.toLower.isAlpha = true := by rw [Char.isAlpha_toLower_eq_isAlpha, letter]
    rw [Token.isDigit_of_isAlphabetic (Text.isAlphabetic_of_isAlpha c letter),
      Token.isDigit_of_isAlphabetic (Text.isAlphabetic_of_isAlpha _ lower)]
  · rw [Char.toLower_eq_of_not_isUpper upper]

theorem isAlphanum_toLower (c : Char) : c.toLower.isAlphanum = c.isAlphanum := by
  simp only [Char.isAlphanum, Char.isAlpha_toLower_eq_isAlpha, isDigit_toLower]

theorem toLower_eq_hyphen_iff (c : Char) : c.toLower = '-' ↔ c = '-' := by
  constructor
  · intro hyphen
    by_cases upper : c.isUpper = true
    · have letter := Char.isAlpha_toLower_eq_isAlpha c
      rw [hyphen] at letter
      simp [Char.isAlpha, upper] at letter
    · rwa [Char.toLower_eq_of_not_isUpper upper] at hyphen
  · rintro rfl
    rfl

theorem isSubtag_map {allowed : Char → Bool} {f : Char → Char}
    (keeps : ∀ c, allowed (f c) = allowed c) (part : List Char) :
    isSubtag allowed (part.map f) = isSubtag allowed part := by
  have all : (part.map f).all allowed = part.all allowed := by
    rw [List.all_map]
    exact List.all_congr rfl fun c => keeps c
  simp only [isSubtag, List.length_map, List.isEmpty_map, all]

theorem isLanguageTag_toLower (tag : List Char) :
    isLanguageTag (tag.map Char.toLower) = isLanguageTag tag := by
  unfold isLanguageTag
  rw [Text.segments_map toLower_eq_hyphen_iff]
  cases Text.segments '-' tag with
  | nil => rfl
  | cons primary others =>
    have same : isSubtag Char.isAlphanum ∘ List.map Char.toLower = isSubtag Char.isAlphanum :=
      funext (isSubtag_map isAlphanum_toLower)
    simp only [List.map_cons, List.all_map, isSubtag_map Char.isAlpha_toLower_eq_isAlpha, same]

theorem tagged_again {lexical tag : String} {value : Literal}
    (made : tagged lexical tag = .ok value) :
    ∃ lower, value.lexical = lexical ∧ value.language = some lower ∧
      isLanguageTag lower.toList = true ∧ tagged lexical lower = .ok value := by
  unfold tagged at made
  split at made
  · rename_i valid
    cases made
    have again : isLanguageTag (tag.toList.map Char.toLower) = true := by
      rw [isLanguageTag_toLower, valid]
    have lower : Char.toLower ∘ Char.toLower = Char.toLower :=
      funext Char.toLower_toLower_eq_toLower
    refine ⟨_, rfl, rfl, ?_, ?_⟩
    · rw [String.toList_ofList, again]
    · simp only [tagged, String.toList_ofList, again, if_true, List.map_map, lower]
  · cases made

end Literal

namespace Token

theorem subtagsWidth_stop {behind : List Char}
    (apart : ∀ c ∈ behind.head?, c.isAlphanum = false ∧ c ≠ '-') : subtagsWidth behind = 0 := by
  unfold subtagsWidth
  split
  · rfl
  · rename_i c rest
    obtain ⟨notLetter, notHyphen⟩ := apart c rfl
    rw [if_neg (by simp [notLetter])]
    split
    · exact absurd rfl notHyphen
    · rfl

theorem subtagsWidth_letter {c : Char} (letter : c.isAlphanum = true) (rest : List Char) :
    subtagsWidth (c :: rest) = subtagsWidth rest + 1 := by
  rw [subtagsWidth.eq_def]
  exact if_pos letter

theorem subtagsWidth_hyphen {d : Char} (letter : d.isAlphanum = true) (rest : List Char) :
    subtagsWidth ('-' :: d :: rest) = subtagsWidth (d :: rest) + 1 := by
  rw [subtagsWidth.eq_def]
  exact (if_neg (by decide)).trans (if_pos letter)

variable {behind : List Char}

-- The part that comes first may be what is left of one, down to nothing.
theorem subtagsWidth_append {cs first : List Char} {others : List (List Char)}
    (parts : Text.segments '-' cs = first :: others) (letters : first.all Char.isAlphanum = true)
    (subtags : others.all (Literal.isSubtag Char.isAlphanum) = true)
    (apart : ∀ c ∈ behind.head?, c.isAlphanum = false ∧ c ≠ '-') :
    subtagsWidth (cs ++ behind) = cs.length := by
  induction cs generalizing first others with
  | nil => exact subtagsWidth_stop apart
  | cons c cs ih =>
    unfold Text.segments at parts
    split at parts
    · rename_i hyphen
      cases parts
      cases later : Text.segments '-' cs with
      | nil => exact absurd later (Text.segments_ne_nil '-' cs)
      | cons part rest =>
        rw [later, List.all_cons, Bool.and_eq_true] at subtags
        obtain ⟨subtag, subtags⟩ := subtags
        simp only [Literal.isSubtag, Bool.and_eq_true] at subtag
        obtain ⟨⟨some, -⟩, letters⟩ := subtag
        obtain ⟨d, rest', same⟩ : ∃ d rest', cs = d :: rest' ∧ d ∈ part := by
          cases part with
          | nil => cases some
          | cons d part =>
            rcases Text.segments_head later with ⟨rfl, -⟩ | ⟨rest', rfl, -⟩
            · exact ⟨d, part, rfl, List.mem_cons_self⟩
            · exact ⟨d, part ++ '-' :: rest', rfl, List.mem_cons_self⟩
        obtain ⟨rfl, member⟩ := same
        have letter : d.isAlphanum = true := List.all_eq_true.mp letters d member
        rw [hyphen, List.cons_append, List.cons_append, subtagsWidth_hyphen letter,
          ← List.cons_append, ih later letters subtags]
        rfl
    · split at parts
      · rename_i none
        exact absurd none (Text.segments_ne_nil '-' cs)
      · rename_i part rest later
        cases parts
        rw [List.all_cons, Bool.and_eq_true] at letters
        rw [List.cons_append, subtagsWidth_letter letters.1, ih later letters.2 subtags]
        rfl

theorem languageWidth?_append {tag : List Char} (valid : Literal.isLanguageTag tag = true)
    (apart : ∀ c ∈ behind.head?, c.isAlphanum = false ∧ c ≠ '-') :
    languageWidth? (tag ++ behind) = some tag.length := by
  unfold Literal.isLanguageTag at valid
  split at valid
  · cases valid
  · rename_i primary others parts
    simp only [Bool.and_eq_true, Literal.isSubtag] at valid
    obtain ⟨⟨⟨some, -⟩, letters⟩, subtags⟩ := valid
    have notAlpha : ∀ c ∈ behind.head?, c.isAlpha = false := by
      intro c first
      have notLetter := (apart c first).1
      simp only [Char.isAlphanum, Bool.or_eq_false_iff] at notLetter
      exact notLetter.1
    have positive : primary.length ≠ 0 := by
      rintro none
      rw [List.length_eq_zero_iff.mp none] at some
      cases some
    unfold languageWidth?
    rcases Text.segments_head parts with ⟨rfl, -⟩ | ⟨rest, rfl, others⟩
    · rw [takeWhile_append_stop (List.all_eq_true.mp letters) notAlpha]
      split
      · exact absurd ‹_› positive
      · rw [List.drop_left]
        split
        · exact absurd rfl (apart '-' rfl).2
        · rfl
    · have hyphen : ∀ c ∈ ('-' :: (rest ++ behind)).head?, c.isAlpha = false := by
        rintro c ⟨⟩
        rfl
      have width : subtagsWidth ('-' :: (rest ++ behind)) = ('-' :: rest).length :=
        @subtagsWidth_append behind ('-' :: rest) [] _ rfl rfl (others ▸ subtags) apart
      rw [List.append_assoc, List.cons_append,
        takeWhile_append_stop (List.all_eq_true.mp letters) hyphen]
      split
      · exact absurd ‹_› positive
      · rw [List.drop_left]
        simp only [width, List.length_append]

end Token

end Stottr

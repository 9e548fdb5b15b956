import Stottr.Proofs.Token.Language
import Stottr.Proofs.Token.Layout
import Stottr.Proofs.Token.Printed

namespace Stottr.Token

open Text

-- What comes next, if anything does, is layout.
def Parted (behind : List Char) : Prop := ∀ c ∈ behind.head?, isSpace c = true ∨ c = '#'

theorem parted_nil : Parted [] := nofun

theorem Layout.parted {front behind : List Char} {atEnd : Bool} (layout : Layout atEnd front)
    (some : front ≠ []) : Parted (front ++ behind) := by
  cases layout with
  | nil => exact absurd rfl some
  | space blank =>
    rintro c ⟨⟩
    exact .inl blank
  | comment =>
    rintro c ⟨⟩
    exact .inr rfl
  | last =>
    rintro c ⟨⟩
    exact .inr rfl

section Readers

variable {kept gone behind : List Char}

theorem Parted.stops (parted : Parted behind) {p : Char → Bool}
    (foreign : ([' ', '\t', '\r', '\n', '#'].all fun c => !p c) = true) :
    ∀ c ∈ behind.head?, p c = false := by
  intro c first
  have listed : c ∈ [' ', '\t', '\r', '\n', '#'] := by
    rcases parted c first with blank | rfl
    · simp only [isSpace, Bool.or_eq_true, decide_eq_true_eq] at blank
      rcases blank with ((rfl | rfl) | rfl) | rfl <;> decide
    · decide
  simpa using List.all_eq_true.mp foreign c listed

theorem Parted.head_ne (parted : Parted behind) {c : Char}
    (foreign : ([' ', '\t', '\r', '\n', '#'].all (· ≠ c)) = true) : behind.head? ≠ some c := by
  intro first
  have stops := parted.stops (p := (· = c)) (by simpa using foreign) c first
  simp at stops

-- A run of characters that ends in what is kept is the same before anything that does not go on
-- with it.
theorem takeWhile_kept {p : Char → Bool}
    (inside : ((kept ++ gone).takeWhile p).length ≤ kept.length)
    (stops : ((kept ++ gone).takeWhile p).length = kept.length → ∀ c ∈ behind.head?, p c = false) :
    (kept ++ behind).takeWhile p = (kept ++ gone).takeWhile p := by
  induction kept with
  | nil =>
    have none : ([] ++ gone).takeWhile p = [] :=
      List.length_eq_zero_iff.mp (Nat.le_zero.mp inside)
    rw [none] at stops ⊢
    exact @takeWhile_append_stop _ p [] behind nofun (stops rfl)
  | cons c kept ih =>
    rw [List.cons_append, List.takeWhile_cons] at inside stops
    rw [List.cons_append, List.takeWhile_cons, List.cons_append, List.takeWhile_cons]
    split
    · rename_i passed
      rw [if_pos passed] at inside stops
      rw [ih (Nat.le_of_succ_le_succ inside) fun same => stops (congrArg (· + 1) same)]
    · rfl

theorem drop_kept {width : Nat} (inside : width ≤ kept.length) (behind : List Char) :
    (kept ++ behind).drop width = kept.drop width ++ behind :=
  List.drop_append_of_le_length inside

theorem drop_inside {width : Nat} {c : Char} {rest : List Char} (inside : width < kept.length)
    (there : (kept ++ gone).drop width = c :: rest) :
    ∃ more, rest = more ++ gone ∧ kept.length = width + 1 + more.length ∧
      ∀ behind, (kept ++ behind).drop width = c :: (more ++ behind) := by
  have ahead := List.drop_eq_getElem_cons inside
  rw [drop_kept inside.le, ahead, List.cons_append] at there
  obtain ⟨rfl, rfl⟩ := List.cons.inj there
  refine ⟨_, rfl, ?_, fun behind => ?_⟩
  · rw [List.length_drop]
    omega
  · rw [drop_kept inside.le, ahead, List.cons_append]

-- The name ends in what is kept, so that at most some of the dots behind it are cut off.
theorem nameRun_kept (inside : (nameRun (kept ++ gone)).length ≤ kept.length)
    (stops : ∀ c ∈ behind.head?, isNameChar c = false) :
    nameRun (kept ++ behind) = nameRun (kept ++ gone) := by
  by_cases whole : ((kept ++ gone).takeWhile isNameChar).length ≤ kept.length
  · rw [nameRun, nameRun, takeWhile_kept whole fun _ => stops]
  · obtain ⟨-, ending, dots, run⟩ := isName_nameRun (kept ++ gone)
    have shorter : kept <+: (kept ++ gone).takeWhile isNameChar := by
      refine List.prefix_of_prefix_length_le (List.prefix_append kept gone)
        (List.takeWhile_prefix _) ?_
      omega
    have all : ∀ c ∈ kept, isNameChar c = true := fun c member =>
      List.mem_takeWhile_imp (shorter.subset member)
    have cut : kept = nameRun (kept ++ gone) ++
        List.replicate (min (kept.length - (nameRun (kept ++ gone)).length) dots) '.' := by
      have taken := List.prefix_iff_eq_take.mp shorter
      rwa [run, List.take_append, List.take_of_length_le inside, List.take_replicate] at taken
    rw [nameRun, takeWhile_append_stop all stops]
    conv_lhs => rw [cut]
    exact trimDots_append_dots ending _

variable {width : Nat} {name : WrittenIri}

theorem nameWidth?_kept (measured : nameWidth? (kept ++ gone) = some width)
    (inside : width ≤ kept.length) (parted : Parted behind) :
    nameWidth? (kept ++ behind) = some width := by
  obtain ⟨wide, -⟩ := (nameWidth?_eq_some_iff _ _).mp measured
  have short : (nameRun (kept ++ gone)).length ≤ kept.length :=
    Nat.le_trans (wide ▸ length_le_utf8Width _) inside
  have stops := parted.stops (p := isNameChar) (by decide +kernel)
  rw [nameWidth?_eq_some_iff, nameRun_kept short stops, List.length_append]
  exact ⟨wide, by omega⟩

theorem prefixedName?_parts {cs : List Char} (found : prefixedName? cs = some (name, width)) :
    ∃ left right rest, nameWidth? cs = some left ∧ cs.drop left = ':' :: rest ∧
      nameWidth? rest = some right ∧ width = left + 1 + right ∧
      name = .prefixed (String.ofList (cs.take left)) (String.ofList (rest.take right)) := by
  unfold prefixedName? at found
  split at found
  · cases found
  · rename_i left measured
    split at found
    · rename_i rest colon
      split at found
      · cases found
      · rename_i right measured'
        cases found
        exact ⟨left, right, rest, measured, colon, measured', rfl, rfl⟩
    · cases found

theorem prefixedName?_le {cs : List Char} (found : prefixedName? cs = some (name, width)) :
    width ≤ cs.length := by
  obtain ⟨left, right, rest, -, colon, measured, rfl, -⟩ := prefixedName?_parts found
  have fits := ((nameWidth?_eq_some_iff _ _).mp measured).2
  have total := congrArg List.length colon
  rw [List.length_drop, List.length_cons] at total
  omega

theorem prefixedName?_kept (found : prefixedName? (kept ++ gone) = some (name, width))
    (inside : width ≤ kept.length) (parted : Parted behind) :
    prefixedName? (kept ++ behind) = some (name, width) := by
  obtain ⟨left, right, rest, measured, colon, measured', rfl, rfl⟩ := prefixedName?_parts found
  have short : left < kept.length := by omega
  obtain ⟨more, rfl, total, colon'⟩ := drop_inside short colon
  have within : right ≤ more.length := by omega
  simp only [prefixedName?, nameWidth?_kept measured short.le parted, colon',
    nameWidth?_kept measured' within parted, List.take_append_of_le_length short.le,
    List.take_append_of_le_length within]

theorem bracketed?_le {cs : List Char} (found : bracketed? cs = some (name, width)) :
    width ≤ cs.length := by
  unfold bracketed? at found
  dsimp only at found
  split at found
  · rename_i rest closing
    cases found
    have total := congrArg List.length closing
    rw [List.length_drop, List.length_cons] at total
    omega
  · cases found

theorem bracketed?_kept (found : bracketed? (kept ++ gone) = some (name, width))
    (inside : width ≤ kept.length) : bracketed? (kept ++ behind) = some (name, width) := by
  unfold bracketed? at found
  dsimp only at found
  split at found
  · rename_i rest closing
    cases found
    obtain ⟨more, -, -, closing'⟩ := drop_inside inside closing
    have same : (kept ++ behind).takeWhile Iri.admits = (kept ++ gone).takeWhile Iri.admits :=
      takeWhile_kept (Nat.le_of_succ_le inside) fun full => absurd full (Nat.ne_of_lt inside)
    simp only [bracketed?, same, closing']
  · cases found

theorem datatype?_plain {cs : List Char} (plain : cs.head? ≠ some '<') :
    datatype? cs = prefixedName? cs := by
  unfold datatype?
  split
  · exact absurd rfl plain
  · rfl

theorem datatype?_pos {cs : List Char} (found : datatype? cs = some (name, width)) : 0 < width := by
  by_cases opens : cs.head? = some '<'
  · obtain ⟨rest, rfl⟩ := List.head?_eq_some_iff.mp opens
    obtain ⟨⟨full, inner⟩, read, same⟩ := Option.map_eq_some_iff.mp found
    cases same
    exact Nat.succ_pos inner
  · rw [datatype?_plain opens] at found
    exact (spells_prefixed found).2

theorem datatype?_le {cs : List Char} (found : datatype? cs = some (name, width)) :
    width ≤ cs.length := by
  unfold datatype? at found
  split at found
  · obtain ⟨⟨full, inner⟩, read, same⟩ := Option.map_eq_some_iff.mp found
    cases same
    exact Nat.succ_le_succ (bracketed?_le read)
  · exact prefixedName?_le found

theorem datatype?_kept (found : datatype? (kept ++ gone) = some (name, width))
    (inside : width ≤ kept.length) (parted : Parted behind) :
    datatype? (kept ++ behind) = some (name, width) := by
  have positive := datatype?_pos found
  cases kept with
  | nil => exact absurd inside (Nat.not_le_of_lt positive)
  | cons c kept =>
    by_cases opens : c = '<'
    · subst opens
      obtain ⟨⟨full, inner⟩, read, same⟩ := Option.map_eq_some_iff.mp found
      cases same
      have within : inner ≤ kept.length := Nat.le_of_succ_le_succ inside
      simp only [datatype?, List.cons_append, bracketed?_kept read within, Option.map_some]
    · have plain : ∀ more : List Char, ((c :: kept) ++ more).head? ≠ some '<' := fun _ same =>
        opens (Option.some.inj same)
      rw [datatype?_plain (plain _)] at found ⊢
      exact prefixedName?_kept found inside parted

theorem quotedBody?_spelled {cs body : List Char} (found : quotedBody? cs = some (body, width)) :
    ∃ spelled tail, cs = spelled ++ tail ∧ spelled.length = width ∧
      ∀ behind, quotedBody? (spelled ++ behind) = some (body, width) := by
  obtain ⟨written, after, rfl, rfl, spelling⟩ := quotedBody?_eq_some_iff.mp found
  refine ⟨written ++ ['"'], after, by rw [List.append_assoc, List.singleton_append], by simp, ?_⟩
  intro behind
  rw [List.append_assoc, List.singleton_append]
  exact quotedBody?_eq_some_iff.mpr ⟨written, behind, rfl, rfl, spelling⟩

theorem quotedBody?_kept {body : List Char}
    (found : quotedBody? (kept ++ gone) = some (body, width)) (inside : width ≤ kept.length)
    (behind : List Char) : quotedBody? (kept ++ behind) = some (body, width) := by
  obtain ⟨spelled, tail, whole, rfl, reads⟩ := quotedBody?_spelled found
  obtain ⟨more, rfl⟩ : spelled <+: kept := List.prefix_of_prefix_length_le
    (List.prefix_iff_exists_eq_append.mpr ⟨tail, whole⟩) (List.prefix_append kept gone) inside
  rw [List.append_assoc]
  exact reads _

theorem subtagsWidth_halt {c : Char} {rest : List Char} (notLetter : c.isAlphanum = false)
    (halts : c = '-' → ∀ d ∈ rest.head?, d.isAlphanum = false) : subtagsWidth (c :: rest) = 0 := by
  rw [subtagsWidth.eq_def]
  dsimp only
  rw [if_neg (by simp [notLetter])]
  split
  · rename_i d more
    exact if_neg (by simp [halts rfl d rfl])
  · rfl

theorem subtagsWidth_le (cs : List Char) : subtagsWidth cs ≤ cs.length := by
  induction cs with
  | nil => exact Nat.le_refl 0
  | cons c cs ih =>
    rw [subtagsWidth.eq_def]
    dsimp only
    split
    · exact Nat.succ_le_succ ih
    · split
      · split
        · exact Nat.succ_le_succ ih
        · exact Nat.zero_le _
      · exact Nat.zero_le _

theorem subtagsWidth_kept (inside : subtagsWidth (kept ++ gone) ≤ kept.length)
    (stops : ∀ c ∈ behind.head?, c.isAlphanum = false ∧ c ≠ '-') :
    subtagsWidth (kept ++ behind) = subtagsWidth (kept ++ gone) := by
  induction kept with
  | nil =>
    rw [Nat.le_zero.mp inside]
    exact subtagsWidth_stop stops
  | cons c kept ih =>
    rw [List.cons_append] at inside
    rw [List.cons_append, List.cons_append]
    by_cases letter : c.isAlphanum = true
    · rw [subtagsWidth_letter letter] at inside
      rw [subtagsWidth_letter letter, subtagsWidth_letter letter,
        ih (Nat.le_of_succ_le_succ inside)]
    have notLetter : c.isAlphanum = false := by simpa using letter
    by_cases onward : c = '-' ∧ ∃ d ∈ (kept ++ gone).head?, d.isAlphanum = true
    · obtain ⟨rfl, d, first, letter⟩ := onward
      obtain ⟨more, spelled⟩ := List.head?_eq_some_iff.mp first
      rw [spelled, subtagsWidth_hyphen letter] at inside
      cases kept with
      | nil =>
        rw [subtagsWidth_letter letter] at inside
        exact absurd inside (by simp)
      | cons e kept =>
        obtain ⟨rfl, rfl⟩ := List.cons.inj spelled
        rw [List.cons_append, List.cons_append, subtagsWidth_hyphen letter,
          subtagsWidth_hyphen letter, ← List.cons_append, ← List.cons_append,
          ih (Nat.le_of_succ_le_succ inside)]
    · have halts : c = '-' → ∀ d ∈ (kept ++ gone).head?, d.isAlphanum = false := by
        intro hyphen d first
        by_contra letter
        exact onward ⟨hyphen, d, first, by simpa using letter⟩
      rw [subtagsWidth_halt notLetter halts, subtagsWidth_halt notLetter]
      intro hyphen d first
      cases kept with
      | nil => exact (stops d first).1
      | cons e kept => exact halts hyphen d first

theorem languageWidth?_eq_some_iff {cs : List Char} :
    languageWidth? cs = some width ↔ 0 < (cs.takeWhile Char.isAlpha).length ∧
      width = (cs.takeWhile Char.isAlpha).length +
        (if (cs.drop (cs.takeWhile Char.isAlpha).length).head? = some '-' then
          subtagsWidth (cs.drop (cs.takeWhile Char.isAlpha).length) else 0) := by
  unfold languageWidth?
  split
  · rename_i none
    rw [none]
    exact iff_of_false nofun (fun some => Nat.lt_irrefl 0 some.1)
  · rename_i letters notZero
    rw [and_iff_right (Nat.pos_of_ne_zero notZero)]
    split
    · rename_i rest hyphen
      rw [hyphen, List.head?_cons, if_pos rfl, Option.some.injEq, eq_comm]
    · rename_i other
      rw [if_neg, Option.some.injEq, eq_comm, Nat.add_zero]
      intro hyphen
      obtain ⟨rest, same⟩ := List.head?_eq_some_iff.mp hyphen
      exact other rest same

theorem languageWidth?_le {cs : List Char} (found : languageWidth? cs = some width) :
    width ≤ cs.length := by
  obtain ⟨-, rfl⟩ := languageWidth?_eq_some_iff.mp found
  have letters := (List.takeWhile_sublist (l := cs) Char.isAlpha).length_le
  have parts := subtagsWidth_le (cs.drop (cs.takeWhile Char.isAlpha).length)
  rw [List.length_drop] at parts
  split <;> omega

theorem languageWidth?_kept (found : languageWidth? (kept ++ gone) = some width)
    (inside : width ≤ kept.length) (parted : Parted behind) :
    languageWidth? (kept ++ behind) = some width := by
  have stops : ∀ c ∈ behind.head?, c.isAlphanum = false ∧ c ≠ '-' := by
    intro c first
    refine ⟨parted.stops (by decide) c first, ?_⟩
    rintro rfl
    exact parted.head_ne (by decide) first
  obtain ⟨letter, rfl⟩ := languageWidth?_eq_some_iff.mp found
  have same : (kept ++ behind).takeWhile Char.isAlpha = (kept ++ gone).takeWhile Char.isAlpha :=
    takeWhile_kept (Nat.le_of_add_right_le inside) fun _ => parted.stops (by decide)
  rw [languageWidth?_eq_some_iff, same]
  refine ⟨letter, congrArg _ ?_⟩
  generalize ((kept ++ gone).takeWhile Char.isAlpha).length = letters at inside
  rw [drop_kept (Nat.le_of_add_right_le inside)] at inside ⊢
  rw [drop_kept (Nat.le_of_add_right_le inside)]
  cases ahead : kept.drop letters with
  | nil =>
    have full : kept.length ≤ letters := List.drop_eq_nil_iff.mp ahead
    have none : behind.head? ≠ some '-' := parted.head_ne (by decide)
    rw [ahead, List.nil_append] at inside
    rw [List.nil_append, List.nil_append, if_neg none]
    split at inside
    · rename_i hyphen
      rw [if_pos hyphen]
      omega
    · rename_i other
      rw [if_neg other]
  | cons c more =>
    have total : kept.length = letters + (c :: more).length := by
      rw [← ahead, List.length_drop]
      omega
    rw [ahead] at inside
    rw [List.cons_append, List.cons_append, List.head?_cons, List.head?_cons]
    by_cases hyphen : c = '-'
    · subst hyphen
      rw [List.cons_append, List.head?_cons, if_pos rfl] at inside
      rw [if_pos rfl, if_pos rfl, ← List.cons_append, ← List.cons_append]
      refine (subtagsWidth_kept ?_ stops).symm
      rw [List.cons_append]
      omega
    · have other : some c ≠ some '-' := fun same => hyphen (Option.some.inj same)
      rw [if_neg other, if_neg other]

end Readers

end Stottr.Token

import Stottr.Proofs.Token.Lookahead

namespace Stottr.Token

open Text

structure PlainName (name : String) : Prop where
  notEmpty : name ≠ ""
  characters : ∀ c ∈ name.toList, isNameChar c = true ∧ c.utf8Size = 1
  ending : name.toList.getLast? ≠ some '.'

instance (name : String) : Decidable (PlainName name) :=
  decidable_of_iff (name ≠ "" ∧ (name.toList.all fun c => isNameChar c ∧ c.utf8Size = 1) = true ∧
    name.toList.getLast? ≠ some '.')
    ⟨fun ⟨notEmpty, all, ending⟩ =>
      ⟨notEmpty, fun c member => by simpa using List.all_eq_true.mp all c member, ending⟩,
    fun plain => ⟨plain.notEmpty, List.all_eq_true.mpr fun c member => by
      simpa using plain.characters c member, plain.ending⟩⟩

variable {name label part : String} {behind : List Char} {kinds : List TokenKind}

theorem PlainName.isName (plain : PlainName name) : IsName name.toList name.toList :=
  isName_self (fun c member => (plain.characters c member).1) plain.ending

theorem PlainName.narrow (plain : PlainName name) : ∀ c ∈ name.toList, c.utf8Size = 1 :=
  fun c member => (plain.characters c member).2

theorem PlainName.width (plain : PlainName name)
    (stops : ∀ c ∈ behind.head?, isNameChar c = false) :
    nameWidth? (name.toList ++ behind) = some name.toList.length :=
  nameWidth?_append plain.isName stops plain.narrow

theorem PlainName.begins (plain : PlainName name) :
    ∃ c tail, name.toList = c :: tail ∧ isNameChar c = true := by
  cases spelled : name.toList with
  | nil => exact absurd (String.toList_inj.mp spelled) plain.notEmpty
  | cons c tail => exact ⟨c, tail, rfl, (plain.characters c (by simp [spelled])).1⟩

theorem readsAs_variable (plain : PlainName name)
    (stops : ∀ c ∈ behind.head?, isNameChar c = false) (later : ReadsAs behind kinds) :
    ReadsAs ('?' :: (name.toList ++ behind)) (.variable name :: kinds) := by
  obtain ⟨c, tail, spelled, -⟩ := plain.begins
  have notZero : name.toList.length ≠ 0 := by simp [spelled]
  have read : variableLexeme? (name.toList ++ behind) =
      some ⟨.variable name, name.toList.length⟩ := by
    refine variableLexeme?_eq_some_iff.mpr ⟨_, plain.width stops, ?_⟩
    rw [if_neg notZero, List.take_left, String.ofList_toList]
  refine readsAs_token rfl (by decide) ?_ later
  simp [lexeme, plainLexeme?, read]

theorem readsAs_question (later : ReadsAs behind kinds) :
    ReadsAs ('?' :: ' ' :: behind) (.question :: kinds) :=
  @readsAs_token (' ' :: behind) _ '?' [] _ rfl (by decide) rfl later.space

theorem lexeme_letter {c : Char} (letter : isAlphabetic c = true) {rest : List Char}
    {found : Lexeme} (read : wordLexeme? (c :: rest) = some found) : lexeme c rest = .ok found := by
  have other : ∀ d, isAlphabetic d = false → c ≠ d := by
    rintro d notLetter rfl
    cases letter.symm.trans notLetter
  have plain : plainLexeme? c rest = some found := by
    simp [plainLexeme?, other '@' rfl, other '?' rfl, other '_' rfl, other '+' rfl, other '-' rfl,
      other ':' rfl, isDigit_of_isAlphabetic letter, letter, read]
  unfold lexeme
  rw [if_neg (other '"' rfl), if_neg (other '<' rfl), plain]

theorem readsAs_worded {more : List Char} {kind : TokenKind} (plain : PlainName name)
    (starts : ∀ c ∈ name.toList.head?, isAlphabetic c = true)
    (read : wordLexeme? (name.toList ++ (more ++ behind)) =
      some ⟨kind, name.toList.length + more.length - 1⟩) (later : ReadsAs behind kinds) :
    ReadsAs (name.toList ++ (more ++ behind)) (kind :: kinds) := by
  obtain ⟨c, tail, spelled, -⟩ := plain.begins
  rw [spelled] at starts read ⊢
  have width : (c :: tail).length + more.length - 1 = (tail ++ more).length := by
    rw [List.length_cons, List.length_append]
    omega
  rw [List.cons_append, ← List.append_assoc, width] at read
  rw [List.cons_append, ← List.append_assoc]
  have token := lexeme_letter (starts c rfl) read
  obtain ⟨notSpace, notHash⟩ := lexeme_starts token
  exact readsAs_token notSpace notHash token later

theorem readsAs_prefixed (labelled : PlainName label)
    (starts : ∀ c ∈ label.toList.head?, isAlphabetic c = true) (named : PlainName part)
    (stops : ∀ c ∈ behind.head?, isNameChar c = false) (later : ReadsAs behind kinds) :
    ReadsAs ((label ++ ":" ++ part).toList ++ behind) (.iri (.prefixed label part) :: kinds) := by
  have whole : (label ++ ":" ++ part).toList ++ behind =
      label.toList ++ ((':' :: part.toList) ++ behind) := by simp
  have measured : nameWidth? (label.toList ++ ':' :: (part.toList ++ behind)) =
      some label.toList.length := labelled.width (by rintro c ⟨⟩; rfl)
  have isPrefixed : prefixedName? (label.toList ++ ':' :: (part.toList ++ behind)) =
      some (.prefixed label part, label.toList.length + 1 + part.toList.length) := by
    simp only [prefixedName?, measured, List.drop_left, named.width stops, List.take_left,
      String.ofList_toList]
  have single : (part.toList ++ behind).head? ≠ some ':' := by
    obtain ⟨c, tail, spelled, kept⟩ := named.begins
    rw [spelled]
    rintro ⟨⟩
    cases kept
  rw [whole]
  refine readsAs_worded labelled starts ?_ later
  have total : label.toList.length + (':' :: part.toList).length =
      label.toList.length + 1 + part.toList.length := by
    rw [List.length_cons]
    omega
  rw [List.cons_append, (Worded.name measured List.drop_left single isPrefixed).read, total]

theorem readsAs_list {kind : TokenKind} (opens : name = "List" ∧ kind = .listType ∨
      name = "NEList" ∧ kind = .nonEmptyListType) (later : ReadsAs behind kinds) :
    ReadsAs ((name ++ "<").toList ++ behind) (kind :: kinds) := by
  have plain : PlainName name ∧ ∀ c ∈ name.toList.head?, isAlphabetic c = true := by
    rcases opens with ⟨rfl, -⟩ | ⟨rfl, -⟩
    all_goals exact ⟨by decide, by rintro c ⟨⟩; rfl⟩
  have whole : (name ++ "<").toList ++ behind = name.toList ++ (['<'] ++ behind) := by simp
  have measured : nameWidth? (name.toList ++ (['<'] ++ behind)) = some name.toList.length :=
    plain.1.width (by rintro c ⟨⟩; rfl)
  rw [whole]
  refine readsAs_worded plain.1 plain.2 ?_ later
  refine (Worded.list measured List.drop_left ?_).read
  rwa [List.take_left, String.ofList_toList]

end Stottr.Token

import Stottr.Proofs.Token.Language
import Stottr.Proofs.Token.Spelling
import Stottr.Term

namespace Stottr

namespace Iri

theorem admits_of_parse {text : String} {iri : Iri} (parsed : parse text = .ok iri) :
    iri.text = text ∧ ∀ c ∈ text.toList, admits c = true := by
  unfold parse at parsed
  split at parsed
  · rename_i sound
    cases parsed
    refine ⟨rfl, ?_⟩
    unfold defect at sound
    split at sound
    · cases sound
    · rename_i c cs spelled
      split at sound
      · cases sound
      · rename_i all
        intro d member
        rw [spelled] at member
        simpa using List.find?_eq_none.mp all d member
  · cases parsed

end Iri

namespace Literal

def tag? (l : Literal) : Option LiteralTag :=
  match l.language with
  | some tag => some (.language tag)
  | none =>
    if l.datatype = Vocabulary.string then none else some (.datatype (.full l.datatype.text))

def token (l : Literal) : TokenKind := .literal l.lexical l.tag?

-- What can follow the lexical form of a literal: a language tag, or an absolute IRI.
structure Tagged (l : Literal) : Prop where
  language : ∀ tag ∈ l.language, isLanguageTag tag.toList = true
  datatype : ∀ c ∈ l.datatype.text.toList, Iri.admits c = true

end Literal

namespace Token

open Text

-- A text that is read as tokens of these kinds, wherever it stands.
def ReadsAs (cs : List Char) (kinds : List TokenKind) : Prop := ∀ p, Reads p cs kinds

theorem ReadsAs.space {cs : List Char} {kinds : List TokenKind} (later : ReadsAs cs kinds) :
    ReadsAs (' ' :: cs) kinds := fun _ => reads_space_iff.mpr (later _)

def Apart (behind : List Char) : Prop := ∀ c ∈ behind.head?, c = ',' ∨ c = ')' ∨ c = ' '

variable {behind : List Char} {kinds : List TokenKind}

theorem readsAs_token {c : Char} {body : List Char} {kind : TokenKind}
    (notSpace : isSpace c = false) (notHash : c ≠ '#')
    (read : lexeme c (body ++ behind) = .ok ⟨kind, body.length⟩) (later : ReadsAs behind kinds) :
    ReadsAs (c :: (body ++ behind)) (kind :: kinds) := by
  intro p
  refine (reads_cons_iff (triviaWidth_of_start _ notSpace notHash)).mpr ⟨body.length, read, ?_⟩
  rw [List.drop_left]
  exact later _

theorem readsAs_openParen (later : ReadsAs behind kinds) :
    ReadsAs ('(' :: behind) (.openParen :: kinds) :=
  @readsAs_token _ _ '(' [] _ rfl (by decide) rfl later

theorem readsAs_closeParen (later : ReadsAs behind kinds) :
    ReadsAs (')' :: behind) (.closeParen :: kinds) :=
  @readsAs_token _ _ ')' [] _ rfl (by decide) rfl later

theorem readsAs_comma (later : ReadsAs behind kinds) :
    ReadsAs (',' :: behind) (.comma :: kinds) :=
  @readsAs_token _ _ ',' [] _ rfl (by decide) rfl later

theorem readsAs_dot (later : ReadsAs behind kinds) : ReadsAs ('.' :: behind) (.dot :: kinds) :=
  @readsAs_token _ _ '.' [] _ rfl (by decide) rfl later

theorem bracketed?_append {text : List Char} (admitted : ∀ c ∈ text, Iri.admits c = true) :
    bracketed? (text ++ '>' :: behind) = some (.full (String.ofList text), text.length + 1) := by
  have run : (text ++ '>' :: behind).takeWhile Iri.admits = text :=
    takeWhile_append_stop admitted (by rintro c ⟨⟩; decide)
  unfold bracketed?
  dsimp only
  rw [run, List.drop_left]
  rfl

theorem readsAs_iri {iri : Iri} (admitted : ∀ c ∈ iri.text.toList, Iri.admits c = true)
    (later : ReadsAs behind kinds) :
    ReadsAs (iri.render.toList ++ behind) (.iri (.full iri.text) :: kinds) := by
  have spelled : iri.render.toList ++ behind = '<' :: ((iri.text.toList ++ ['>']) ++ behind) := by
    simp [Iri.render]
  rw [spelled]
  refine readsAs_token rfl (by decide) ?_ later
  have read := @bracketed?_append behind _ admitted
  rw [String.ofList_toList] at read
  rw [List.append_assoc, List.singleton_append, List.length_append]
  simp [lexeme, read]

theorem readsAs_blank {node : BlankNode} (named : IsName node.label.toList node.label.toList)
    (notEmpty : node.label ≠ "") (narrow : ∀ c ∈ node.label.toList, c.utf8Size = 1)
    (apart : Apart behind) (later : ReadsAs behind kinds) :
    ReadsAs (node.render.toList ++ behind) (.blankNode node.label :: kinds) := by
  have spelled : node.render.toList ++ behind = '_' :: ((':' :: node.label.toList) ++ behind) := by
    simp [BlankNode.render]
  have stops : ∀ c ∈ behind.head?, isNameChar c = false := by
    intro c first
    rcases apart c first with rfl | rfl | rfl <;> rfl
  have measured := nameWidth?_append named stops narrow
  have read : blankLexeme? (node.label.toList ++ behind) =
      some ⟨.blankNode node.label, node.label.toList.length + 1⟩ := by
    unfold blankLexeme?
    rw [measured]
    split
    · contradiction
    · rename_i none
      have empty := List.length_eq_zero_iff.mp (Option.some.inj none)
      exact absurd (String.toList_inj.mp empty) notEmpty
    · rename_i width _ same
      cases same
      rw [List.take_left, String.ofList_toList]
  rw [spelled]
  refine readsAs_token rfl (by decide) ?_ later
  simp [lexeme, plainLexeme?, read]

theorem escape_cases (c : Char) :
    (∃ mark, Literal.escape c = ['\\', mark] ∧ (mark, c) ∈ escapes) ∨
      Literal.escape c = [c] ∧ c ∉ reserved := by
  unfold Literal.escape
  split
  · exact .inl ⟨_, rfl, by decide⟩
  · exact .inl ⟨_, rfl, by decide⟩
  · exact .inl ⟨_, rfl, by decide⟩
  · exact .inl ⟨_, rfl, by decide⟩
  · exact .inl ⟨_, rfl, by decide⟩
  · rename_i notQuote notBackslash notFeed notReturn notTab
    exact .inr ⟨rfl, not_mem_reserved_iff.mpr
      ⟨notQuote, notBackslash, fun ends => ends.elim notFeed notReturn⟩⟩

theorem spelling_escape (lexical : List Char) :
    Spelling lexical (lexical.flatMap Literal.escape) := by
  induction lexical with
  | nil => exact .nil
  | cons c cs ih =>
    rw [List.flatMap_cons]
    rcases escape_cases c with ⟨mark, escaped, known⟩ | ⟨plain, notReserved⟩
    · rw [escaped]
      exact .escape known ih
    · rw [plain]
      exact .plain notReserved ih

theorem quotedBody?_escape (lexical tail : List Char) :
    quotedBody? (lexical.flatMap Literal.escape ++ '"' :: tail) =
      some (lexical, (lexical.flatMap Literal.escape).length + 1) :=
  quotedBody?_eq_some_iff.mpr ⟨_, tail, rfl, rfl, spelling_escape lexical⟩

theorem drop_quoted (lexical tail : List Char) :
    (lexical.flatMap Literal.escape ++ '"' :: tail).drop
      ((lexical.flatMap Literal.escape).length + 1) = tail := by
  rw [← List.drop_drop, List.drop_left]
  rfl

theorem literalLexeme_plain {lexical tail : List Char} (apart : Apart tail) :
    literalLexeme (lexical.flatMap Literal.escape ++ '"' :: tail) =
      .ok ⟨.literal (String.ofList lexical) none, (lexical.flatMap Literal.escape).length + 1⟩ := by
  unfold literalLexeme
  rw [quotedBody?_escape]
  simp only [drop_quoted]
  split
  · rcases apart '@' rfl with same | same | same <;> cases same
  · rcases apart '^' rfl with same | same | same <;> cases same
  · rfl

theorem literalLexeme_language {lexical tag : List Char}
    (valid : Literal.isLanguageTag tag = true) (apart : Apart behind) :
    literalLexeme (lexical.flatMap Literal.escape ++ '"' :: '@' :: (tag ++ behind)) =
      .ok ⟨.literal (String.ofList lexical) (some (.language (String.ofList tag))),
        (lexical.flatMap Literal.escape).length + 2 + tag.length⟩ := by
  have stops : ∀ c ∈ behind.head?, c.isAlphanum = false ∧ c ≠ '-' := by
    intro c first
    rcases apart c first with rfl | rfl | rfl <;> decide
  unfold literalLexeme
  rw [quotedBody?_escape]
  simp only [drop_quoted, languageWidth?_append valid stops, List.take_left]

theorem literalLexeme_datatype {lexical text : List Char}
    (admitted : ∀ c ∈ text, Iri.admits c = true) :
    literalLexeme (lexical.flatMap Literal.escape ++ '"' :: '^' :: '^' :: '<' ::
        (text ++ '>' :: behind)) =
      .ok ⟨.literal (String.ofList lexical) (some (.datatype (.full (String.ofList text)))),
        (lexical.flatMap Literal.escape).length + 3 + (text.length + 2)⟩ := by
  unfold literalLexeme
  rw [quotedBody?_escape]
  simp only [drop_quoted, datatype?, bracketed?_append admitted, Option.map_some]

theorem lexeme_quote (rest : List Char) : lexeme '"' rest = literalLexeme rest := rfl

theorem readsAs_literal {l : Literal} (tagged : l.Tagged) (apart : Apart behind)
    (later : ReadsAs behind kinds) : ReadsAs (l.render.toList ++ behind) (l.token :: kinds) := by
  cases spoken : l.language with
  | some tag =>
    have spelled : l.render.toList ++ behind = '"' ::
        ((l.lexical.toList.flatMap Literal.escape ++ '"' :: '@' :: tag.toList) ++ behind) := by
      simp [Literal.render, spoken, Literal.quote]
    rw [spelled]
    refine readsAs_token rfl (by decide) ?_ later
    rw [List.append_assoc, List.cons_append, List.cons_append, lexeme_quote,
      literalLexeme_language (tagged.language tag spoken) apart]
    simp [Literal.token, Literal.tag?, spoken]
    omega
  | none =>
    by_cases plain : l.datatype = Vocabulary.string
    · have spelled : l.render.toList ++ behind = '"' ::
          ((l.lexical.toList.flatMap Literal.escape ++ ['"']) ++ behind) := by
        simp [Literal.render, spoken, plain, Literal.quote]
      rw [spelled]
      refine readsAs_token rfl (by decide) ?_ later
      rw [List.append_assoc, List.singleton_append, lexeme_quote, literalLexeme_plain apart]
      simp [Literal.token, Literal.tag?, spoken, plain]
    · have spelled : l.render.toList ++ behind = '"' ::
          ((l.lexical.toList.flatMap Literal.escape ++ '"' :: '^' :: '^' :: '<' ::
            (l.datatype.text.toList ++ ['>'])) ++ behind) := by
        simp [Literal.render, spoken, plain, Literal.quote, Iri.render]
      rw [spelled]
      refine readsAs_token rfl (by decide) ?_ later
      simp only [List.append_assoc, List.cons_append, List.nil_append, lexeme_quote,
        literalLexeme_datatype tagged.datatype]
      simp [Literal.token, Literal.tag?, spoken, plain]
      omega

end Token

end Stottr

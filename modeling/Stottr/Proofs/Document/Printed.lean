import Stottr.Document
import Stottr.Proofs.Library.Sources
import Stottr.Proofs.Token.Printed

namespace Stottr

def Token.commas : List (List TokenKind) → List TokenKind
  | [] => []
  | [part] => part
  | part :: rest => part ++ .comma :: commas rest

namespace Literal

inductive Built : Literal → Prop where
  | plain (lexical : String) : Built (.plain lexical)
  | typed (lexical : String) {datatype : Iri} (valid : Iri.parse datatype.text = .ok datatype) :
    Built (.typed lexical datatype)
  | tagged {lexical tag : String} {value : Literal}
    (made : Literal.tagged lexical tag = .ok value) : Built value

theorem admits_name {name : Iri}
    (known : name ∈ [Vocabulary.string, Vocabulary.langString, Vocabulary.absent]) :
    ∀ c ∈ name.text.toList, Iri.admits c = true := by
  have all : [Vocabulary.string, Vocabulary.langString, Vocabulary.absent].all
      (fun name => name.text.toList.all Iri.admits) = true := by decide +kernel
  exact List.all_eq_true.mp (List.all_eq_true.mp all name known)

theorem Built.tagged? {value : Literal} (built : value.Built) : value.Tagged := by
  cases built with
  | plain lexical => exact ⟨nofun, @admits_name Vocabulary.string (by simp)⟩
  | typed lexical valid => exact ⟨nofun, (Iri.admits_of_parse valid).2⟩
  | tagged made =>
    obtain ⟨lower, _, language, valid, again⟩ := tagged_again made
    refine ⟨?_, ?_⟩
    · intro tag spoken
      rw [language] at spoken
      cases spoken
      exact valid
    · unfold Literal.tagged at made
      split at made
      · cases made
        exact admits_name (by simp)
      · cases made

end Literal

namespace Term

mutual

def tokens : Term → List TokenKind
  | .iri name => [.iri (.full name.text)]
  | .blank node => [.blankNode node.label]
  | .literal value => [value.token]
  | .list items => .openParen :: (Token.commas (tokensAll items) ++ [.closeParen])
  | .none => [.iri (.full Vocabulary.absent.text)]

def tokensAll : List Term → List (List TokenKind)
  | [] => []
  | t :: ts => t.tokens :: tokensAll ts

end

theorem tokensAll_eq_map (ts : List Term) : tokensAll ts = ts.map tokens := by
  induction ts with
  | nil => rfl
  | cons t ts ih => simp [tokensAll, ih]

-- Terms that can be written down. The IRI that marks an absent value is read as that value.
inductive Writable : Term → Prop where
  | iri {name : Iri} (valid : Iri.parse name.text = .ok name) (present : name ≠ Vocabulary.absent) :
    Writable (.iri name)
  | blank {node : BlankNode} (notEmpty : node.label ≠ "")
    (characters : ∀ c ∈ node.label.toList, Token.isNameChar c = true ∧ c.utf8Size = 1)
    (ending : node.label.toList.getLast? ≠ some '.') : Writable (.blank node)
  | literal {value : Literal} (built : value.Built) : Writable (.literal value)
  | list {items : List Term} (each : ∀ t ∈ items, Writable t) : Writable (.list items)
  | none : Writable .none

end Term

namespace Instance

structure Writable (i : Instance) : Prop where
  template : Iri.parse i.template.text = .ok i.template
  arguments : ∀ t ∈ i.arguments, t.Writable

def tokens (i : Instance) : List TokenKind :=
  .iri (.full i.template.text) :: .openParen ::
    (Token.commas (i.arguments.map Term.tokens) ++ [.closeParen, .dot])

end Instance

namespace Token

variable {behind : List Char} {kinds : List TokenKind}

-- What is printed is read as the tokens, in front of anything that may stand behind it.
def Legible (printed : String) (tokens : List TokenKind) : Prop :=
  ∀ behind kinds, Apart behind → ReadsAs behind kinds →
    ReadsAs (printed.toList ++ behind) (tokens ++ kinds)

theorem readsAs_commas {α : Type} {render : α → String} {tokens : α → List TokenKind}
    {items : List α} (each : ∀ a ∈ items, Legible (render a) (tokens a)) (apart : Apart behind)
    (later : ReadsAs behind kinds) :
    ReadsAs ((Text.join ", " (items.map render)).toList ++ behind)
      (commas (items.map tokens) ++ kinds) := by
  induction items with
  | nil => exact later
  | cons a items ih =>
    obtain ⟨first, others⟩ := List.forall_mem_cons.mp each
    cases items with
    | nil => exact first behind kinds apart later
    | cons next items =>
      have parts : (Text.join ", " ((a :: next :: items).map render)).toList ++ behind =
          (render a).toList ++ ',' :: ' ' ::
            ((Text.join ", " ((next :: items).map render)).toList ++ behind) := by
        simp [Text.join]
      rw [parts, List.map_cons, List.map_cons, commas, List.append_assoc, List.cons_append]
      · exact first _ _ (by rintro c ⟨⟩; exact .inl rfl) (readsAs_comma (ih others).space)
      · exact List.cons_ne_nil _ _

theorem legible_of_writable {t : Term} (writable : t.Writable) : Legible t.render t.tokens := by
  induction writable with
  | iri valid present =>
    intro behind kinds apart later
    exact readsAs_iri (Iri.admits_of_parse valid).2 later
  | blank notEmpty characters ending =>
    intro behind kinds apart later
    exact readsAs_blank (isName_self (fun c member => (characters c member).1) ending) notEmpty
      (fun c member => (characters c member).2) apart later
  | literal built =>
    intro behind kinds apart later
    exact readsAs_literal built.tagged? apart later
  | @list items each ih =>
    intro behind kinds apart later
    have closed : Apart (')' :: behind) := by
      rintro c ⟨⟩
      exact .inr (.inl rfl)
    have spelled : (Term.list items).render.toList ++ behind = '(' ::
        ((Text.join ", " (items.map Term.render)).toList ++ ')' :: behind) := by
      simp [Term.render, Term.renderAll_eq_map]
    have row : (Term.list items).tokens ++ kinds = .openParen ::
        (commas (items.map Term.tokens) ++ .closeParen :: kinds) := by
      simp [Term.tokens, Term.tokensAll_eq_map]
    rw [spelled, row]
    exact readsAs_openParen (readsAs_commas ih closed (readsAs_closeParen later))
  | none =>
    intro behind kinds apart later
    exact readsAs_iri (Literal.admits_name (by simp)) later

theorem readsAs_instance {i : Instance} (writable : i.Writable) :
    ReadsAs (i.render ++ " .").toList i.tokens := by
  have spelled : (i.render ++ " .").toList = i.template.render.toList ++ '(' ::
      ((Text.join ", " (i.arguments.map Term.render)).toList ++ ')' :: ' ' :: '.' :: []) := by
    simp [Instance.render]
  have closed : Apart (')' :: ' ' :: '.' :: []) := by
    rintro c ⟨⟩
    exact .inr (.inl rfl)
  rw [spelled]
  refine readsAs_iri (Iri.admits_of_parse writable.template).2 (readsAs_openParen ?_)
  have terms := fun t member => legible_of_writable (writable.arguments t member)
  exact readsAs_commas terms closed (readsAs_closeParen (readsAs_dot reads_nil).space)

end Token

namespace Document

variable {r : Reader} {ts : List Token}

theorem accept?_of_kind {kind : TokenKind} {more : List TokenKind}
    (spelled : ts.map Token.kind = kind :: more) :
    ∃ found, accept? kind ts = some found ∧ found.rest.map Token.kind = more := by
  cases ts with
  | nil => cases spelled
  | cons t rest =>
    obtain ⟨same, left⟩ := List.cons.inj spelled
    exact ⟨.single () t rest, by rw [accept?, if_pos same], left⟩

theorem accept?_of_other {kind other : TokenKind} {more : List TokenKind}
    (spelled : ts.map Token.kind = other :: more) (different : other ≠ kind) :
    accept? kind ts = none := by
  cases ts with
  | nil => rfl
  | cons t rest =>
    obtain ⟨same, -⟩ := List.cons.inj spelled
    rw [accept?, if_neg (same ▸ different)]

theorem expectAs_of_kind {expected : Expected} {kind : TokenKind} {more : List TokenKind}
    (spelled : ts.map Token.kind = kind :: more) :
    ∃ found, r.expectAs expected kind ts = .ok found ∧ found.rest.map Token.kind = more := by
  obtain ⟨found, accepted, left⟩ := accept?_of_kind spelled
  exact ⟨found, by rw [Reader.expectAs, accepted], left⟩

-- What a reader makes of tokens, whatever tokens follow them.
def Gives {α : Type} (item : (ts : List Token) → Result α ts) (kinds : List TokenKind) (value : α) :
    Prop :=
  ∀ ts more, ts.map Token.kind = kinds ++ more →
    ∃ one, item ts = .ok one ∧ one.value = value ∧ one.rest.map Token.kind = more

section Items

variable {α β : Type} {close : TokenKind} {item : (us : List Token) → Result α us}
  {outer : List Token} {kinds : β → List TokenKind} {value : β → α}

theorem separated_gives (notComma : close ≠ .comma) {items : List β}
    (each : ∀ b ∈ items, Gives item (kinds b) (value b))
    (begins : ∀ b ∈ items, ∃ kind rest, kinds b = kind :: rest ∧ kind ≠ close)
    {ts : List Token} {more : List TokenKind} {found : List α} {within : ts.length < outer.length}
    (spelled : ts.map Token.kind = Token.commas (items.map kinds) ++ close :: more) :
    ∃ all, r.separated close outer (fun _ us _ => item us) found ts within = .ok all ∧
      all.value = found.reverse ++ items.map value ∧ all.rest.map Token.kind = more := by
  induction items generalizing ts found with
  | nil =>
    obtain ⟨stop, closed, left⟩ := accept?_of_kind spelled
    refine ⟨stop.map fun _ => found.reverse, ?_, ?_, left⟩
    · rw [Reader.separated, closed]
    · rw [List.map_nil, List.append_nil]
      rfl
  | cons b items ih =>
    obtain ⟨first, others⟩ := List.forall_mem_cons.mp each
    obtain ⟨opens, begins⟩ := List.forall_mem_cons.mp begins
    obtain ⟨kind, rest, starts, different⟩ := opens
    cases items with
    | nil =>
      have row : ts.map Token.kind = kinds b ++ close :: more := spelled
      have notClosed : accept? close ts = none :=
        accept?_of_other (by rw [row, starts, List.cons_append]) different
      obtain ⟨one, taken, same, left⟩ := first ts (close :: more) row
      have noComma := accept?_of_other left notComma
      obtain ⟨stop, closed, left⟩ := @expectAs_of_kind r _ (.commaOr close) _ _ left
      refine ⟨stop.after (one.value :: found).reverse (Nat.le_of_lt one.shorter), ?_, ?_, left⟩
      · rw [Reader.separated, notClosed]
        refine (bind_of_ok taken _).trans ?_
        rw [noComma]
        exact bind_of_ok closed _
      · rw [List.map_cons, List.map_nil, ← same, ← List.reverse_cons]
        rfl
    | cons next items =>
      have row : ts.map Token.kind = kinds b ++
          .comma :: (Token.commas ((next :: items).map kinds) ++ close :: more) := by
        rw [spelled]
        exact List.append_assoc _ _ _
      have notClosed : accept? close ts = none :=
        accept?_of_other (by rw [row, starts, List.cons_append]) different
      obtain ⟨one, taken, same, left⟩ := first ts _ row
      obtain ⟨comma, separates, left⟩ := accept?_of_kind left
      have shorter : comma.rest.length < ts.length := Nat.lt_trans comma.shorter one.shorter
      obtain ⟨all, later, values, left⟩ :=
        @ih others begins comma.rest (one.value :: found) (Nat.lt_trans shorter within) left
      refine ⟨all.after all.value (Nat.le_of_lt shorter), ?_, ?_, left⟩
      · rw [Reader.separated, notClosed]
        refine (bind_of_ok taken _).trans ?_
        rw [separates]
        exact bind_of_ok later _
      · refine values.trans ?_
        rw [List.reverse_cons, same, List.append_assoc]
        rfl

end Items

theorem literal_of_built {value : Literal} (built : value.Built) (span : Text.Span) :
    literal r value.lexical value.tag? span = .ok value := by
  cases built with
  | plain lexical => simp [literal, Literal.tag?, Literal.plain]
  | @typed lexical datatype valid =>
    by_cases plain : datatype = Vocabulary.string
    · simp [literal, Literal.tag?, Literal.typed, Literal.plain, plain]
    · have resolved : r.resolve (.full datatype.text) span = .ok datatype := by
        rw [Reader.resolve, valid]
      have tag : (Literal.typed lexical datatype).tag? =
          some (.datatype (.full datatype.text)) := by
        simp [Literal.tag?, Literal.typed, plain]
      rw [tag]
      exact bind_of_ok resolved _
  | @tagged lexical tag value made =>
    obtain ⟨lower, same, language, -, again⟩ := Literal.tagged_again made
    have tag : value.tag? = some (.language lower) := by
      rw [Literal.tag?, language]
    rw [tag, same]
    simp only [literal, again]

theorem tokens_begin {other : TokenKind} (never : other = .closeParen ∨ other = .plusPlus)
    (t : Term) : ∃ kind rest, t.tokens = kind :: rest ∧ kind ≠ other := by
  cases t with
  | list items => exact ⟨_, _, rfl, by rcases never with rfl | rfl <;> decide⟩
  | _ => exact ⟨_, _, rfl, by rcases never with rfl | rfl <;> intro same <;> cases same⟩

theorem ofList_concrete (items : List Term) :
    Argument.ofList (items.map .concrete) = .concrete (.list items) := by
  have all : (items.map Argument.concrete).mapM Argument.concrete? = some items := by
    induction items with
    | nil => rfl
    | cons t items ih => simp [ih, Argument.concrete?]
  rw [Argument.ofList, all]

theorem simpleTerm_gives {kind : TokenKind} {t : Term}
    (read : ∀ span, simpleTerm r none ⟨kind, span⟩ = .ok (.concrete t)) :
    Gives (term r none) [kind] (.concrete t) := by
  have notList : kind ≠ .openParen := by
    rintro rfl
    cases read .nowhere
  intro ts more spelled
  cases ts with
  | nil => cases spelled
  | cons token rest =>
    obtain ⟨same, left⟩ := List.cons.inj spelled
    obtain ⟨kind', span⟩ := token
    cases same
    refine ⟨.single (.concrete t) _ rest, ?_, rfl, left⟩
    rw [term, if_neg notList]
    exact bind_of_ok (read span) _

theorem term_gives {t : Term} (writable : t.Writable) :
    Gives (term r none) t.tokens (.concrete t) := by
  induction writable with
  | @iri name valid present =>
    refine simpleTerm_gives fun span => ?_
    have resolved : r.resolve (.full name.text) span = .ok name := by rw [Reader.resolve, valid]
    refine (bind_of_ok resolved _).trans ?_
    rw [ofName, if_neg present]
  | blank notEmpty characters ending => exact simpleTerm_gives fun span => rfl
  | literal built =>
    exact simpleTerm_gives fun span => bind_of_ok (literal_of_built built span) _
  | @list items each ih =>
    intro ts more spelled
    cases ts with
    | nil => cases spelled
    | cons token rest =>
      have row : token.kind :: rest.map Token.kind =
          .openParen :: (Token.commas (items.map Term.tokens) ++ .closeParen :: more) := by
        simpa [Term.tokens, Term.tokensAll_eq_map] using spelled
      obtain ⟨opens, row⟩ := List.cons.inj row
      obtain ⟨all, read, values, left⟩ := @separated_gives r _ _ .closeParen (term r none)
        (token :: rest) Term.tokens Argument.concrete (by decide) items ih
        (fun t _ => tokens_begin (.inl rfl) t) rest more [] (by simp) row
      refine ⟨all.after (Argument.ofList all.value) (by simp), ?_, ?_, left⟩
      · rw [term, if_pos opens]
        exact bind_of_ok read _
      · rw [values, List.reverse_nil, List.nil_append]
        exact ofList_concrete items
  | none =>
    refine simpleTerm_gives fun span => ?_
    have resolved : r.resolve (.full Vocabulary.absent.text) span = .ok Vocabulary.absent := by
      rfl
    refine (bind_of_ok resolved _).trans ?_
    rw [ofName, if_pos rfl]

theorem constant_gives {t : Term} (writable : t.Writable) : Gives (constant r) t.tokens t := by
  intro ts more spelled
  obtain ⟨kind, rest, starts, notMark⟩ := tokens_begin (.inr rfl) t
  obtain ⟨one, taken, same, left⟩ := @term_gives r t writable ts more spelled
  refine ⟨one.map fun _ => t, ?_, rfl, left⟩
  have noMark : accept? .plusPlus ts = none :=
    accept?_of_other (by rw [spelled, starts, List.cons_append]) notMark
  unfold constant
  rw [noMark]
  refine (bind_of_ok taken _).trans ?_
  rw [same]
  rfl

theorem name_gives {name : Iri} (valid : Iri.parse name.text = .ok name) :
    Gives r.name [.iri (.full name.text)] name := by
  intro ts more spelled
  cases ts with
  | nil => cases spelled
  | cons token rest =>
    obtain ⟨same, left⟩ := List.cons.inj spelled
    obtain ⟨kind, span⟩ := token
    cases same
    have resolved : r.resolve (.full name.text) span = .ok name := by rw [Reader.resolve, valid]
    exact ⟨.single name _ rest, bind_of_ok resolved _, rfl, left⟩

theorem groundInstance_gives {i : Instance} (writable : i.Writable)
    (spelled : ts.map Token.kind = i.tokens) :
    ∃ one, groundInstance r ts = .ok one ∧ (∃ span, one.value = { i with span := span }) ∧
      one.rest = [] := by
  obtain ⟨template, named, sameTemplate, left⟩ := @name_gives r _ writable.template ts _ spelled
  obtain ⟨opening, opened, left⟩ := @expectAs_of_kind r _ (.token .openParen) _ _ left
  obtain ⟨arguments, given, values, left⟩ := @separated_gives r _ _ .closeParen (constant r)
    template.rest Term.tokens id (by decide) i.arguments
    (fun t member => constant_gives (writable.arguments t member))
    (fun t _ => tokens_begin (.inl rfl) t) opening.rest [.dot] [] opening.shorter left
  obtain ⟨dot, ended, left⟩ := @expectAs_of_kind r _ (.token .dot) _ _ left
  have front : arguments.rest.length ≤ ts.length :=
    Nat.le_of_lt (Nat.lt_trans arguments.shorter (Nat.lt_trans opening.shorter template.shorter))
  refine ⟨dot.after ⟨template.value, arguments.value, (r.here ts).through dot.last⟩ front, ?_,
    ⟨(r.here ts).through dot.last, ?_⟩, List.map_eq_nil_iff.mp left⟩
  · unfold groundInstance
    refine (bind_of_ok named _).trans ?_
    refine (bind_of_ok opened _).trans ?_
    refine (bind_of_ok given _).trans ?_
    exact bind_of_ok ended _
  · rw [List.map_id, List.reverse_nil, List.nil_append] at values
    rw [← sameTemplate, ← values]
    rfl

theorem ofTokens_single {α : Type} {item : Item α} {stop : Text.Span} {ns : Namespaces} {t : Token}
    {rest : List Token} (noKeyword : t.kind ≠ .prefixKeyword) {one : Parsed α (t :: rest)}
    (read : item ⟨ns, stop⟩ (t :: rest) = .ok one) (all : one.rest = []) :
    ofTokens item stop ns (t :: rest) = ⟨[one.value], [], ns⟩ := by
  have declared : declaration ⟨ns, stop⟩ (item ⟨ns, stop⟩) (t :: rest) = .ok (one.map .item) := by
    rw [declaration, if_neg (by simpa using noKeyword)]
    exact bind_of_ok read _
  have nothing : ofTokens item stop ns (one.map Declared.item).rest = ⟨[], [], ns⟩ := by
    rw [Parsed.map, all, ofTokens]
  rw [ofTokens, declared]
  simp only [Parsed.map] at nothing ⊢
  rw [nothing]

-- An instance that is written down and read back is the same, but for the place where it stands.
theorem instances_render {i : Instance} (writable : i.Writable) (ns : Namespaces) :
    ∃ span, Document.instances ns (i.render ++ " .") =
      ⟨.ok [{ i with span := span }], ns⟩ := by
  obtain ⟨⟨tokens, stop⟩, scanned, spelled⟩ :=
    Token.exists_scan_iff.mpr (Token.readsAs_instance writable .start)
  obtain ⟨one, read, ⟨span, same⟩, all⟩ := @groundInstance_gives ⟨ns, stop⟩ _ i writable spelled
  refine ⟨span, ?_⟩
  cases tokens with
  | nil => cases spelled
  | cons t rest =>
    have noKeyword : t.kind ≠ .prefixKeyword := by
      rw [(List.cons.inj spelled).1]
      nofun
    unfold Document.instances Document.read
    rw [scanned]
    dsimp only
    rw [ofTokens_single noKeyword read all, same]
    rfl

theorem instances_render_nested :
    let i : Instance := ⟨⟨"http://e/A"⟩,
      [.list [.blank ⟨"b.1"⟩, .none, .list []],
        .literal ⟨"say \"\\\n\"", Vocabulary.langString, some "en-us"⟩], .nowhere⟩
    i.Writable ∧ ∃ span, Document.instances .standard (i.render ++ " .") =
      ⟨.ok [{ i with span := span }], .standard⟩ := by
  intro i
  have writable : i.Writable := by
    refine ⟨by decide +kernel, ?_⟩
    intro t member
    rcases List.mem_pair.mp member with rfl | rfl
    · refine .list ?_
      intro t member
      simp only [List.mem_cons, List.not_mem_nil, or_false] at member
      rcases member with rfl | rfl | rfl
      · have all : "b.1".toList.all (fun c => Token.isNameChar c ∧ c.utf8Size = 1) = true := by
          decide +kernel
        refine .blank (by decide) (fun c member => ?_) (by decide)
        simpa using List.all_eq_true.mp all c member
      · exact .none
      · exact .list nofun
    · exact .literal (@Literal.Built.tagged "say \"\\\n\"" "en-US" _ rfl)
  exact ⟨writable, instances_render writable .standard⟩

end Document

end Stottr

import Stottr.Proofs.Document.Grammar
import Stottr.Proofs.Document.Rest

namespace Stottr.Document

variable {α : Type}

def Spelled (Run : List Token → α → Prop) {ts : List Token} (found : Parsed α ts) : Prop :=
  ∃ front, ts = front ++ found.rest ∧ Run front found.value

variable {r : Reader} {ts : List Token}

theorem split_trans {front back us vs : List Token} (first : ts = front ++ us)
    (later : us = back ++ vs) : ts = front ++ back ++ vs := by
  rw [first, later, List.append_assoc]

-- What is found ends where the last of the tokens that were taken for it stands.
def Ends (ts : List Token) (last : Text.Span) (rest : List Token) : Prop :=
  ∃ front t, ts = front ++ t :: rest ∧ last = t.span

namespace Ends

variable {last : Text.Span} {rest : List Token}

theorem single (t : Token) : Ends (t :: rest) t.span rest := ⟨[], t, rfl, rfl⟩

theorem behind {us : List Token} (ends : Ends us last rest) (inside : us <:+ ts) :
    Ends ts last rest := by
  obtain ⟨between, t, rfl, same⟩ := ends
  obtain ⟨front, rfl⟩ := inside
  exact ⟨front ++ between, t, by simp, same⟩

theorem through {run : List Token} (ends : Ends ts last rest) (spelled : ts = run ++ rest) :
    (r.here ts).through last = spanOf run := by
  obtain ⟨front, t, whole, rfl⟩ := ends
  have same : run = front ++ [t] := by
    have both : run ++ rest = front ++ [t] ++ rest := by
      rw [← spelled, whole, List.append_assoc]
      rfl
    exact List.append_cancel_right both
  have first : some (r.here ts) = (front ++ [t]).head?.map Token.span := by
    rw [whole]
    cases front <;> rfl
  rw [same, spanOf, lastSpan, List.getLast?_concat, ← first]
  rfl

end Ends

theorem resolves_of_resolve {name : WrittenIri} {span : Text.Span} {iri : Iri}
    (read : r.resolve name span = .ok iri) : Resolves r.namespaces name iri := by
  unfold Reader.resolve at read
  split at read
  · split at read
    · rename_i valid
      cases read
      exact .full valid
    · cases read
  · split at read
    · rename_i bound
      cases read
      exact .prefixed bound
    · cases read

theorem literal_run {lexical : String} {tag : Option LiteralTag} {span : Text.Span}
    {value : Literal} (read : literal r lexical tag span = .ok value) :
    LiteralRun r.namespaces lexical tag value := by
  unfold literal at read
  split at read
  · cases read
    exact .plain
  · split at read
    · rename_i valid
      cases read
      exact .language valid
    · cases read
  · obtain ⟨iri, resolved, same⟩ := ok_of_bind read
    cases same
    exact .datatype (resolves_of_resolve resolved)

theorem simpleTerm_atom {scope : Option (List Parameter)} {t : Token} {a : Argument}
    (read : simpleTerm r scope t = .ok a) : Atom r.namespaces (scope.getD []) t.kind a := by
  unfold simpleTerm at read
  split at read
  · rename_i written
    obtain ⟨iri, resolved, same⟩ := ok_of_bind read
    cases same
    exact written ▸ .iri (resolves_of_resolve resolved)
  · rename_i written
    cases read
    exact written ▸ .blank _
  · rename_i written
    obtain ⟨value, spelled, same⟩ := ok_of_bind read
    cases same
    exact written ▸ .literal (literal_run spelled)
  · rename_i written
    cases read
    exact written ▸ .integer _
  · rename_i written
    cases read
    exact written ▸ .decimal _
  · rename_i written
    split at read
    · cases read
    · split at read
      · rename_i declared
        cases read
        exact written ▸ .variable declared
      · cases read
  · rename_i written
    split at read
    · rename_i meaning
      cases read
      exact written ▸ .word meaning
    · cases read
  · cases read

theorem accept?_token {kind : TokenKind} {found : Parsed Unit ts}
    (accepted : accept? kind ts = some found) :
    ∃ t : Token, t.kind = kind ∧ ts = [t] ++ found.rest := by
  obtain ⟨t, rest, whole, kind, -, left⟩ := accept?_eq_some accepted
  exact ⟨t, kind, by rw [left, whole]; rfl⟩

theorem accept?_ends {kind : TokenKind} {found : Parsed Unit ts}
    (accepted : accept? kind ts = some found) : Ends ts found.last found.rest := by
  obtain ⟨t, rest, whole, -, last, left⟩ := accept?_eq_some accepted
  rw [last, left, whole]
  exact .single t

theorem expect_token {kind : TokenKind} {found : Parsed Unit ts}
    (read : r.expect kind ts = .ok found) :
    ∃ t : Token, t.kind = kind ∧ ts = [t] ++ found.rest :=
  accept?_token (accept?_of_expectAs read)

theorem separated_ends {close : TokenKind} {outer : List Token}
    {item : List α → (us : List Token) → us.length < outer.length → Result α us}
    (each : ∀ earlier us fewer (one : Parsed α us), item earlier us fewer = .ok one →
      one.rest <:+ us)
    {ts : List Token} {found : List α} {within : ts.length < outer.length}
    {all : Parsed (List α) ts} (read : r.separated close outer item found ts within = .ok all) :
    Ends ts all.last all.rest := by
  rw [Reader.separated] at read
  split at read
  · rename_i stop closed
    cases read
    exact accept?_ends closed
  · obtain ⟨one, taken, read⟩ := ok_of_bind read
    have first := each _ _ _ one taken
    split at read
    · rename_i comma next
      obtain ⟨later, remainder, same⟩ := ok_of_bind read
      cases same
      have shorter : comma.rest.length < ts.length := Nat.lt_trans comma.shorter one.shorter
      exact (separated_ends each remainder).behind ((accept?_rest next).trans first)
    · obtain ⟨stop, closed, same⟩ := ok_of_bind read
      cases same
      exact (accept?_ends (accept?_of_expectAs closed)).behind first
termination_by ts.length

-- The recursion follows the reader, from one item to the next.
theorem separated_run {close : TokenKind} {outer : List Token}
    {item : List α → (us : List Token) → us.length < outer.length → Result α us}
    {Item : List α → List Token → α → Prop}
    (each : ∀ earlier us fewer (one : Parsed α us), item earlier us fewer = .ok one →
      Spelled (Item earlier) one)
    {ts : List Token} {found : List α} {within : ts.length < outer.length}
    {all : Parsed (List α) ts} (read : r.separated close outer item found ts within = .ok all) :
    ∃ (front : List Token) (closing : Token), closing.kind = close ∧
      ts = front ++ [closing] ++ all.rest ∧ Listed Item found front all.value := by
  rw [Reader.separated] at read
  split at read
  · rename_i stop closed
    cases read
    obtain ⟨closing, kind, whole⟩ := accept?_token closed
    exact ⟨[], closing, kind, whole, .stop⟩
  · obtain ⟨one, taken, read⟩ := ok_of_bind read
    obtain ⟨front, spelled, first⟩ := each _ _ _ one taken
    split at read
    · rename_i comma next
      obtain ⟨later, remainder, same⟩ := ok_of_bind read
      cases same
      obtain ⟨separator, kind, split⟩ := accept?_token next
      have shorter : comma.rest.length < ts.length := Nat.lt_trans comma.shorter one.shorter
      obtain ⟨back, closing, closes, whole, others⟩ := separated_run each remainder
      refine ⟨front ++ separator :: back, closing, closes, ?_, .next first kind others⟩
      simpa [Parsed.after] using split_trans spelled (split_trans split whole)
    · obtain ⟨stop, closed, same⟩ := ok_of_bind read
      cases same
      obtain ⟨closing, kind, split⟩ := accept?_token (accept?_of_expectAs closed)
      exact ⟨front, closing, kind, split_trans spelled split, .last first⟩
termination_by ts.length

theorem term_run {ts : List Token} {scope : Option (List Parameter)} {found : Parsed Argument ts}
    (read : term r scope ts = .ok found) :
    Spelled (TermRun r.namespaces (scope.getD [])) found := by
  unfold term at read
  split at read
  · cases read
  · rename_i t rest
    split at read
    · rename_i opens
      obtain ⟨items, inside, same⟩ := ok_of_bind read
      cases same
      obtain ⟨front, closing, closes, whole, listed⟩ := separated_run
        (fun _ _ fewer _ taken => term_run taken) inside
      exact ⟨t :: front ++ [closing], congrArg (t :: ·) whole, .list opens closes listed⟩
    · obtain ⟨value, spelled, same⟩ := ok_of_bind read
      cases same
      exact ⟨[t], rfl, .atom (simpleTerm_atom spelled)⟩
termination_by ts.length

theorem term_ends {ts : List Token} {scope : Option (List Parameter)} {found : Parsed Argument ts}
    (read : term r scope ts = .ok found) : Ends ts found.last found.rest := by
  unfold term at read
  split at read
  · cases read
  · rename_i t rest
    split at read
    · obtain ⟨items, inside, same⟩ := ok_of_bind read
      cases same
      refine (separated_ends ?_ inside).behind (List.suffix_cons t rest)
      exact fun _ _ _ _ taken => term_rest taken
    · obtain ⟨value, _, same⟩ := ok_of_bind read
      cases same
      exact .single t

theorem constant_ends {found : Parsed Term ts} (read : constant r ts = .ok found) :
    Ends ts found.last found.rest := by
  unfold constant at read
  split at read
  · cases read
  · obtain ⟨inner, taken, read⟩ := ok_of_bind read
    split at read
    · cases read
      exact term_ends taken
    · cases read

theorem constant_run {found : Parsed Term ts} (read : constant r ts = .ok found) :
    Spelled (ConstantRun r.namespaces) found := by
  unfold constant at read
  split at read
  · cases read
  · obtain ⟨inner, taken, read⟩ := ok_of_bind read
    obtain ⟨front, spelled, run⟩ := term_run taken
    obtain ⟨value, concrete⟩ := concrete_of_termRun run
    rw [concrete] at read run
    cases read
    exact ⟨front, spelled, run⟩

theorem argument_run {scope : List Parameter} {found : Parsed Argument ts}
    (read : argument r scope ts = .ok found) :
    Spelled (ArgumentRun r.namespaces scope) found := by
  unfold argument at read
  split at read
  · rename_i mark accepted
    obtain ⟨inner, taken, same⟩ := ok_of_bind read
    cases same
    obtain ⟨t, marked, split⟩ := accept?_token accepted
    obtain ⟨front, spelled, run⟩ := term_run taken
    exact ⟨[t] ++ front, split_trans split spelled, .expand marked run⟩
  · obtain ⟨front, spelled, run⟩ := term_run read
    exact ⟨front, spelled, .plain run⟩

theorem paramType_run {ts : List Token} {found : Parsed ParamType ts}
    (read : paramType r ts = .ok found) : Spelled (TypeRun r.namespaces) found := by
  unfold paramType at read
  split at read
  · cases read
  · rename_i t rest
    split at read
    · rename_i opens
      obtain ⟨element, inner, read⟩ := ok_of_bind read
      obtain ⟨close, closed, same⟩ := ok_of_bind read
      cases same
      obtain ⟨front, spelled, inside⟩ := paramType_run inner
      obtain ⟨closing, closes, split⟩ := expect_token closed
      exact ⟨t :: front ++ [closing], congrArg (t :: ·) (split_trans spelled split),
        .list opens closes inside⟩
    · rename_i opens
      obtain ⟨element, inner, read⟩ := ok_of_bind read
      obtain ⟨close, closed, same⟩ := ok_of_bind read
      cases same
      obtain ⟨front, spelled, inside⟩ := paramType_run inner
      obtain ⟨closing, closes, split⟩ := expect_token closed
      exact ⟨t :: front ++ [closing], congrArg (t :: ·) (split_trans spelled split),
        .nonEmptyList opens closes inside⟩
    · rename_i written
      obtain ⟨iri, resolved, read⟩ := ok_of_bind read
      split at read
      · rename_i known
        cases read
        exact ⟨[t], rfl, .named written (resolves_of_resolve resolved) known⟩
      · cases read
    · cases read
termination_by ts.length

theorem marks_run {nonBlank optional : Bool} {found : Marks ts}
    (read : marks nonBlank optional ts = .ok found) :
    ∃ front, ts = front ++ found.rest ∧
      MarksRun nonBlank optional front found.nonBlank found.optional := by
  induction ts generalizing nonBlank optional with
  | nil =>
    cases read
    exact ⟨[], rfl, .done⟩
  | cons t rest ih =>
    unfold marks at read
    split at read
    · rename_i bang
      split at read
      · cases read
      · rename_i first
        obtain ⟨later, remainder, same⟩ := ok_of_bind read
        cases same
        cases Bool.eq_false_of_not_eq_true first
        obtain ⟨front, spelled, run⟩ := ih remainder
        exact ⟨t :: front, congrArg (t :: ·) spelled, .nonBlank bang run⟩
    · split at read
      · rename_i question
        split at read
        · cases read
        · rename_i first
          obtain ⟨later, remainder, same⟩ := ok_of_bind read
          cases same
          cases Bool.eq_false_of_not_eq_true first
          obtain ⟨front, spelled, run⟩ := ih remainder
          exact ⟨t :: front, congrArg (t :: ·) spelled, .optional question run⟩
      · cases read
        exact ⟨[], rfl, .done⟩

theorem typed_run {found : Typed ts} (read : typed r ts = .ok found) :
    ∃ front, ts = front ++ found.rest ∧ TypedRun r.namespaces front found.type := by
  unfold typed at read
  split at read
  · obtain ⟨inner, taken, same⟩ := ok_of_bind read
    cases same
    obtain ⟨front, spelled, run⟩ := paramType_run taken
    exact ⟨front, spelled, .typed run⟩
  · cases read
    exact ⟨[], rfl, .untyped⟩

theorem variableName_run {found : Parsed String ts} (read : variableName r ts = .ok found) :
    ∃ t : Token, t.kind = .variable found.value ∧ ts = [t] ++ found.rest := by
  unfold variableName at read
  split at read
  · cases read
  · split at read
    · rename_i written
      cases read
      exact ⟨_, written, rfl⟩
    · cases read

theorem variableName_ends {found : Parsed String ts} (read : variableName r ts = .ok found) :
    Ends ts found.last found.rest := by
  unfold variableName at read
  split at read
  · cases read
  · split at read
    · cases read
      exact .single _
    · cases read

theorem constant_of_defaultValue {found : Parsed Term ts} (read : defaultValue r ts = .ok found) :
    constant r ts = .ok found := by
  unfold defaultValue at read
  split at read
  · rename_i accepted
    cases read
    exact accepted
  · split at read <;> cases read

theorem defaultValue_run {found : Parsed Term ts} (read : defaultValue r ts = .ok found) :
    Spelled (ConstantRun r.namespaces) found :=
  constant_run (constant_of_defaultValue read)

theorem parameter_run {index : Nat} {found : Parsed Parameter ts}
    (read : parameter r index ts = .ok found) :
    Spelled (ParameterRun r.namespaces index) found := by
  unfold parameter at read
  obtain ⟨front, marked, read⟩ := ok_of_bind read
  obtain ⟨type, isTyped, read⟩ := ok_of_bind read
  obtain ⟨name, named, read⟩ := ok_of_bind read
  obtain ⟨marks, split, marking⟩ := marks_run marked
  obtain ⟨types, split', typing⟩ := typed_run isTyped
  obtain ⟨t, written, split''⟩ := variableName_run named
  have onward := split_trans (split_trans split split') split''
  have inside : type.rest <:+ ts := (typed_rest isTyped).trans (marks_rest marked)
  dsimp only at read
  split at read
  · cases read
    refine ⟨_, onward, ?_⟩
    rw [((variableName_ends named).behind inside).through onward]
    exact .parameter marking typing written .none
  · rename_i equals accepted
    obtain ⟨value, given, same⟩ := ok_of_bind read
    cases same
    obtain ⟨mark, assigned, split⟩ := accept?_token accepted
    obtain ⟨back, spelled, constant⟩ := defaultValue_run given
    have whole : ts = marks ++ types ++ t :: mark :: back ++ value.rest := by
      simpa using split_trans onward (split_trans split spelled)
    have ends := (constant_ends (constant_of_defaultValue given)).behind
      (((accept?_rest accepted).trans (variableName_rest named)).trans inside)
    refine ⟨marks ++ types ++ t :: mark :: back, whole, ?_⟩
    rw [Parsed.after, ends.through whole]
    exact .parameter marking typing written (.given assigned constant)

theorem newParameter_run {earlier : List Parameter} {found : Parsed Parameter ts}
    (read : newParameter r earlier ts = .ok found) :
    Spelled (NewParameterRun r.namespaces earlier) found := by
  unfold newParameter at read
  obtain ⟨one, taken, read⟩ := ok_of_bind read
  split at read
  · cases read
  · rename_i fresh
    cases read
    obtain ⟨front, spelled, run⟩ := parameter_run taken
    exact ⟨front, spelled, run, by simpa using fresh⟩

theorem moded_run {found : Moded ts} (read : moded r ts = .ok found) :
    ∃ front, ts = front ++ found.rest ∧ ModeRun front found.mode := by
  unfold moded at read
  split at read
  · rename_i t bar rest
    split at read
    · rename_i written piped
      split at read
      · rename_i known
        cases read
        exact ⟨[t, bar], rfl, .mode written piped known⟩
      · cases read
    · cases read
      exact ⟨[], rfl, .none⟩
  · cases read
    exact ⟨[], rfl, .none⟩

theorem name_run {found : Parsed Iri ts} (read : r.name ts = .ok found) :
    Spelled (NameRun r.namespaces) found := by
  unfold Reader.name at read
  split at read
  · cases read
  · rename_i t rest
    split at read
    · rename_i written
      obtain ⟨iri, resolved, same⟩ := ok_of_bind read
      cases same
      exact ⟨[t], rfl, .name written (resolves_of_resolve resolved)⟩
    · cases read

theorem modes_agree {mode : Option ExpansionMode} {arguments : List Argument} {span : Text.Span}
    (checked : checkMode mode arguments span = .ok ()) :
    mode.isSome = arguments.any Argument.isExpand := by
  unfold checkMode at checked
  cases mode <;> cases expands : arguments.any Argument.isExpand <;> rw [expands] at checked
  · rfl
  · cases checked
  · cases checked
  · rfl

theorem call_run {scope : List Parameter} {found : Parsed Call ts}
    (read : call r scope ts = .ok found) : Spelled (CallRun r.namespaces scope) found := by
  unfold call at read
  obtain ⟨mode, isModed, read⟩ := ok_of_bind read
  obtain ⟨template, isNamed, read⟩ := ok_of_bind read
  obtain ⟨opening, opened, read⟩ := ok_of_bind read
  obtain ⟨arguments, given, read⟩ := ok_of_bind read
  obtain ⟨_, checked, same⟩ := ok_of_bind read
  cases same
  obtain ⟨front, split, moding⟩ := moded_run isModed
  obtain ⟨names, split', naming⟩ := name_run isNamed
  obtain ⟨bracket, opens, split''⟩ := expect_token opened
  obtain ⟨inside, closing, closes, rest, listed⟩ := separated_run
    (fun _ _ _ _ taken => argument_run taken) given
  have whole : ts = front ++ names ++ bracket :: inside ++ [closing] ++ arguments.rest := by
    simpa using split_trans (split_trans (split_trans split split') split'') rest
  have onward := ((expect_rest opened).trans (name_rest isNamed)).trans (moded_rest isModed)
  have ends := (separated_ends (fun _ _ _ _ taken => argument_rest taken) given).behind onward
  refine ⟨front ++ names ++ bracket :: inside ++ [closing], whole, ?_⟩
  rw [Parsed.after, ends.through whole]
  exact .call moding naming opens closes listed (modes_agree checked)

theorem template_run {found : Parsed Template ts} (read : template r ts = .ok found) :
    Spelled (TemplateRun r.namespaces) found := by
  unfold template at read
  obtain ⟨iri, isNamed, read⟩ := ok_of_bind read
  obtain ⟨bracket, opened, read⟩ := ok_of_bind read
  obtain ⟨parameters, signature, read⟩ := ok_of_bind read
  obtain ⟨colons, isDefined, read⟩ := ok_of_bind read
  obtain ⟨brace, isBegun, read⟩ := ok_of_bind read
  obtain ⟨calls, body, read⟩ := ok_of_bind read
  obtain ⟨dot, isEnded, same⟩ := ok_of_bind read
  cases same
  obtain ⟨names, split, naming⟩ := name_run isNamed
  obtain ⟨opening, opens, split₁⟩ := expect_token opened
  obtain ⟨inside, closing, closes, split₂, signed⟩ := separated_run
    (fun _ _ _ _ taken => newParameter_run taken) signature
  obtain ⟨define, defined, split₃⟩ := expect_token isDefined
  obtain ⟨begins, begun, split₄⟩ := expect_token isBegun
  obtain ⟨within, ends, ended, split₅, made⟩ := separated_run
    (fun _ _ _ _ taken => call_run taken) body
  obtain ⟨stop, stops, split₆⟩ := expect_token isEnded
  have head := split_trans (split_trans split split₁) split₂
  have middle := split_trans (split_trans head split₃) split₄
  have body := split_trans middle split₅
  have whole : ts = names ++ opening :: inside ++ closing :: define :: begins :: within ++
      [ends, stop] ++ dot.rest := by
    simpa using split_trans body split₆
  have last := (accept?_ends (accept?_of_expectAs isEnded)).behind ⟨_, body.symm⟩
  refine ⟨_, whole, ?_⟩
  rw [Parsed.after, last.through whole]
  exact .template naming opens closes signed defined begun ended made stops

theorem groundInstance_run {found : Parsed Instance ts}
    (read : groundInstance r ts = .ok found) : Spelled (InstanceRun r.namespaces) found := by
  unfold groundInstance at read
  obtain ⟨template, isNamed, read⟩ := ok_of_bind read
  obtain ⟨opening, opened, read⟩ := ok_of_bind read
  obtain ⟨arguments, given, read⟩ := ok_of_bind read
  obtain ⟨dot, isEnded, same⟩ := ok_of_bind read
  cases same
  obtain ⟨names, split, naming⟩ := name_run isNamed
  obtain ⟨bracket, opens, split₁⟩ := expect_token opened
  obtain ⟨inside, closing, closes, split₂, listed⟩ := separated_run
    (fun _ _ _ _ taken => constant_run taken) given
  obtain ⟨stop, stops, split₃⟩ := expect_token isEnded
  have body := split_trans (split_trans split split₁) split₂
  have whole : ts = names ++ bracket :: inside ++ [closing, stop] ++ dot.rest := by
    simpa using split_trans body split₃
  have last := (accept?_ends (accept?_of_expectAs isEnded)).behind ⟨_, body.symm⟩
  refine ⟨_, whole, ?_⟩
  rw [Parsed.after, last.through whole]
  exact .ground naming opens closes listed stops

theorem prefixLabel_run {found : Parsed String ts} (read : prefixLabel r ts = .ok found) :
    ∃ t : Token, t.kind = .iri (.prefixed found.value "") ∧ ts = [t] ++ found.rest := by
  unfold prefixLabel at read
  split at read
  · cases read
  · split at read
    · rename_i written
      cases read
      exact ⟨_, written, rfl⟩
    · cases read

theorem namespaceText_run {found : Parsed String ts} (read : namespaceText r ts = .ok found) :
    ∃ t : Token, t.kind = .iri (.full found.value) ∧ ts = [t] ++ found.rest := by
  unfold namespaceText at read
  split at read
  · cases read
  · split at read
    · rename_i written
      cases read
      exact ⟨_, written, rfl⟩
    · cases read

theorem binding_run {found : Parsed Binding ts} (read : binding r ts = .ok found) :
    Spelled BindingRun found := by
  unfold binding at read
  obtain ⟨keyword, begun, read⟩ := ok_of_bind read
  obtain ⟨label, labelled, read⟩ := ok_of_bind read
  obtain ⟨space, isSpaced, read⟩ := ok_of_bind read
  obtain ⟨dot, isEnded, same⟩ := ok_of_bind read
  cases same
  obtain ⟨first, begins, split⟩ := expect_token begun
  obtain ⟨second, named, split₁⟩ := prefixLabel_run labelled
  obtain ⟨third, spaced, split₂⟩ := namespaceText_run isSpaced
  obtain ⟨last, stops, split₃⟩ := expect_token isEnded
  exact ⟨[first, second, third, last], split_trans (split_trans (split_trans split split₁) split₂)
    split₃, .binding begins named spaced stops⟩

section Texts

variable {item : Item α} {Run : Namespaces → List Token → α → Prop}

theorem declaration_run
    (each : ∀ us (one : Parsed α us), item r us = .ok one → Spelled (Run r.namespaces) one)
    {found : Parsed (Declared α) ts} (read : declaration r (item r) ts = .ok found) :
    Spelled (DeclarationRun Run r.namespaces) found := by
  unfold declaration at read
  split at read
  · obtain ⟨b, bound, same⟩ := ok_of_bind read
    cases same
    obtain ⟨front, spelled, run⟩ := binding_run bound
    exact ⟨front, spelled, .binding run⟩
  · obtain ⟨one, taken, same⟩ := ok_of_bind read
    cases same
    obtain ⟨front, spelled, run⟩ := each ts one taken
    exact ⟨front, spelled, .item run⟩

theorem ofTokens_declarations
    (each : ∀ r us (one : Parsed α us), item r us = .ok one → Spelled (Run r.namespaces) one)
    (stop : Text.Span) (ns : Namespaces) (ts : List Token)
    (clean : (ofTokens item stop ns ts).errors = []) :
    Declarations Run ns ts (ofTokens item stop ns ts).items
      (ofTokens item stop ns ts).namespaces := by
  induction ns, ts using ofTokens.induct item stop with
  | case1 ns =>
    rw [ofTokens]
    exact .done
  | case2 ns t rest e failed _ ih =>
    rw [ofTokens, failed] at clean
    cases clean
  | case3 ns t rest found read _ b binding ih =>
    obtain ⟨front, spelled, run⟩ := declaration_run (each _) read
    rw [binding] at run
    rw [ofTokens, read] at clean ⊢
    simp only [binding] at clean ⊢
    cases run with
    | binding bound =>
      have all := Declarations.binding bound (ih clean)
      rwa [← spelled] at all
  | case4 ns t rest found read _ value declared ih =>
    obtain ⟨front, spelled, run⟩ := declaration_run (each _) read
    rw [declared] at run
    rw [ofTokens, read] at clean ⊢
    simp only [declared] at clean ⊢
    cases run with
    | item one =>
      have all := Declarations.item one (ih clean)
      rwa [← spelled] at all

theorem read_declarations
    (each : ∀ r us (one : Parsed α us), item r us = .ok one → Spelled (Run r.namespaces) one)
    {ns : Namespaces} {text : String} {items : List α}
    (accepted : (read item ns text).outcome = .ok items) :
    ∃ stream, Token.scan text = .ok stream ∧
      Declarations Run ns stream.tokens items (read item ns text).namespaces := by
  unfold read at accepted ⊢
  split at accepted
  · cases accepted
  · rename_i stream scanned
    rw [scanned]
    unfold Reading.ofDocument at accepted ⊢
    split at accepted
    · rename_i clean
      cases accepted
      exact ⟨stream, rfl, ofTokens_declarations each _ _ _ clean⟩
    · cases accepted

end Texts

end Stottr.Document

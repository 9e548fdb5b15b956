import Stottr.Proofs.Library.Sources

namespace Stottr.Document

variable {α β : Type} {r : Reader} {ts us vs : List Token}

-- A dot ends a declaration, and the keyword begins a prefix declaration wherever it stands.
def interior : TokenKind → Bool
  | .dot | .prefixKeyword => false
  | _ => true

theorem interior_iff {kind : TokenKind} :
    interior kind = true ↔ kind ≠ .dot ∧ kind ≠ .prefixKeyword := by
  cases kind <;> simp [interior]

-- The second tokens are what is left of the first behind interior ones.
def Crosses (ts us : List Token) : Prop :=
  ∃ front, ts = front ++ us ∧ ∀ t ∈ front, interior t.kind = true

namespace Crosses

theorem refl (ts : List Token) : Crosses ts ts := ⟨[], rfl, nofun⟩

theorem cons {t : Token} {rest : List Token} (inner : interior t.kind = true)
    (crosses : Crosses rest us) : Crosses (t :: rest) us := by
  obtain ⟨front, rfl, inside⟩ := crosses
  exact ⟨t :: front, rfl, List.forall_mem_cons.mpr ⟨inner, inside⟩⟩

theorem one {t : Token} {kind : TokenKind} (written : t.kind = kind)
    (inner : interior kind = true) (rest : List Token) : Crosses (t :: rest) rest :=
  (refl rest).cons (written ▸ inner)

theorem trans (first : Crosses ts us) (later : Crosses us vs) : Crosses ts vs := by
  obtain ⟨front, rfl, inside⟩ := first
  obtain ⟨next, rfl, inside'⟩ := later
  exact ⟨front ++ next, by simp, List.forall_mem_append.mpr ⟨inside, inside'⟩⟩

theorem suffix (crosses : Crosses ts us) : us <:+ ts := by
  obtain ⟨front, same, -⟩ := crosses
  exact ⟨front, same.symm⟩

end Crosses

-- If the reading fails, all tokens in front of the place that it blames are interior.
def Stuck (r : Reader) (ts : List Token) (x : Except ParseError α) : Prop :=
  ∀ e, x = .error e →
    ∃ us, Crosses ts us ∧ e.line = (r.here us).line ∧ e.column = (r.here us).column

-- Where it succeeds it takes interior tokens only, too.
structure Anchored (r : Reader) (ts : List Token) (rest : α → List Token)
    (x : Except ParseError α) : Prop where
  stuck : Stuck r ts x
  crosses : ∀ a, x = .ok a → Crosses ts (rest a)

variable {x : Except ParseError α} {rest : α → List Token} {rest' : β → List Token}

namespace Stuck

theorem ok (a : α) : Stuck r ts (.ok a : Except ParseError α) := by
  intro e failed
  cases failed

theorem here (fault : ParseFault) (ts : List Token) :
    Stuck r ts (errorAt fault (r.here ts) : Except ParseError α) := by
  intro e failed
  cases failed
  exact ⟨ts, .refl ts, rfl, rfl⟩

theorem first (fault : ParseFault) (t : Token) (more : List Token) :
    Stuck r (t :: more) (errorAt fault t.span : Except ParseError α) :=
  here fault (t :: more)

theorem fail (fault : Option TokenKind → ParseFault) (ts : List Token) :
    Stuck r ts (r.fail fault ts : Except ParseError α) :=
  here _ ts

theorem behind (stuck : Stuck r us x) (front : Crosses ts us) : Stuck r ts x := by
  intro e failed
  obtain ⟨vs, crosses, place⟩ := stuck e failed
  exact ⟨vs, front.trans crosses, place⟩

theorem bind {f : α → Except ParseError β} (first : Stuck r ts x)
    (later : ∀ a, x = .ok a → Stuck r ts (f a)) : Stuck r ts (x >>= f) := by
  cases read : x with
  | error e =>
    intro e' failed
    cases failed
    exact first e read
  | ok a => exact later a read

theorem keep {f : α → β} (first : Stuck r ts x) : Stuck r ts (x >>= fun a => .ok (f a)) :=
  first.bind fun a _ => ok (f a)

theorem andThen {f : α → Except ParseError β} (first : Stuck r ts x)
    (later : ∀ a, x = .ok a → Anchored r ts rest' (f a)) : Anchored r ts rest' (x >>= f) := by
  refine ⟨first.bind fun a read => (later a read).stuck, ?_⟩
  intro b read
  obtain ⟨a, taken, read⟩ := ok_of_bind read
  exact (later a taken).crosses b read

end Stuck

namespace Anchored

theorem ok {a : α} (crosses : Crosses ts (rest a)) : Anchored r ts rest (.ok a) := by
  refine ⟨.ok a, ?_⟩
  intro b read
  cases read
  exact crosses

theorem here (fault : ParseFault) (ts : List Token) :
    Anchored r ts rest (errorAt fault (r.here ts)) := by
  refine ⟨.here fault ts, ?_⟩
  intro a read
  cases read

theorem first (fault : ParseFault) (t : Token) (more : List Token) :
    Anchored r (t :: more) rest (errorAt fault t.span) :=
  here fault (t :: more)

theorem fail (fault : Option TokenKind → ParseFault) (ts : List Token) :
    Anchored r ts rest (r.fail fault ts) :=
  here _ ts

theorem behind (anchored : Anchored r us rest x) (front : Crosses ts us) :
    Anchored r ts rest x :=
  ⟨anchored.stuck.behind front, fun a read => front.trans (anchored.crosses a read)⟩

theorem bind {f : α → Except ParseError β} (first : Anchored r ts rest x)
    (later : ∀ a, x = .ok a → Crosses ts (rest a) → Anchored r ts rest' (f a)) :
    Anchored r ts rest' (x >>= f) :=
  first.stuck.andThen fun a read => later a read (first.crosses a read)

-- Where the whole takes more than interior tokens, but nothing fails behind them.
theorem stuck_bind {f : α → Except ParseError β} (first : Anchored r ts rest x)
    (later : ∀ a, x = .ok a → Crosses ts (rest a) → Stuck r ts (f a)) : Stuck r ts (x >>= f) :=
  first.stuck.bind fun a read => later a read (first.crosses a read)

theorem keep {f : α → β} (first : Anchored r ts rest x) (same : ∀ a, rest' (f a) = rest a) :
    Anchored r ts rest' (x >>= fun a => .ok (f a)) :=
  first.bind fun a _ crosses => ok (same a ▸ crosses)

theorem suffix {a : α} (anchored : Anchored r ts rest x) (read : x = .ok a) : rest a <:+ ts :=
  (anchored.crosses a read).suffix

end Anchored

theorem accept?_eq_some {kind : TokenKind} {found : Parsed Unit ts}
    (accepted : accept? kind ts = some found) :
    ∃ t rest, ts = t :: rest ∧ t.kind = kind ∧ found.last = t.span ∧ found.rest = rest := by
  cases ts with
  | nil => cases accepted
  | cons t rest =>
    by_cases same : t.kind = kind
    · rw [accept?, if_pos same] at accepted
      cases accepted
      exact ⟨t, rest, rfl, same, rfl, rfl⟩
    · rw [accept?, if_neg same] at accepted
      cases accepted

theorem accept?_of_expectAs {expected : Expected} {kind : TokenKind} {found : Parsed Unit ts}
    (read : r.expectAs expected kind ts = .ok found) : accept? kind ts = some found := by
  unfold Reader.expectAs at read
  split at read
  · rename_i accepted
    cases read
    exact accepted
  · cases read

theorem accept?_crosses {kind : TokenKind} {found : Parsed Unit ts}
    (accepted : accept? kind ts = some found) (inner : interior kind = true) :
    Crosses ts found.rest := by
  obtain ⟨t, more, rfl, written, -, left⟩ := accept?_eq_some accepted
  rw [left]
  exact .one written inner more

theorem resolve_stuck (name : WrittenIri) (t : Token) (more : List Token) :
    Stuck r (t :: more) (r.resolve name t.span) := by
  unfold Reader.resolve
  split
  · split
    · exact .ok _
    · exact .first _ t more
  · split
    · exact .ok _
    · exact .first _ t more

theorem expectAs_stuck (expected : Expected) (kind : TokenKind) (ts : List Token) :
    Stuck r ts (r.expectAs expected kind ts) := by
  unfold Reader.expectAs
  split
  · exact .ok _
  · exact .fail _ ts

theorem expect_stuck (kind : TokenKind) (ts : List Token) : Stuck r ts (r.expect kind ts) :=
  expectAs_stuck _ kind ts

theorem expectAs_anchored (expected : Expected) {kind : TokenKind}
    (inner : interior kind = true) (ts : List Token) :
    Anchored r ts Parsed.rest (r.expectAs expected kind ts) :=
  ⟨expectAs_stuck expected kind ts,
    fun _ read => accept?_crosses (accept?_of_expectAs read) inner⟩

theorem expect_anchored {kind : TokenKind} (inner : interior kind = true) (ts : List Token) :
    Anchored r ts Parsed.rest (r.expect kind ts) :=
  expectAs_anchored _ inner ts

theorem separated_anchored {close : TokenKind} {outer : List Token}
    {item : List α → (us : List Token) → us.length < outer.length → Result α us}
    (inner : interior close = true)
    (each : ∀ found us fewer, Anchored r us Parsed.rest (item found us fewer)) (found : List α)
    (ts : List Token) (within : ts.length < outer.length) :
    Anchored r ts Parsed.rest (r.separated close outer item found ts within) := by
  rw [Reader.separated]
  split
  · rename_i stop closed
    exact .ok (accept?_crosses closed inner)
  · refine (each found ts within).bind fun one _ front => ?_
    split
    · rename_i comma next
      have shorter : comma.rest.length < ts.length := Nat.lt_trans comma.shorter one.shorter
      have onward := front.trans (accept?_crosses next rfl)
      refine Anchored.keep (Anchored.behind ?_ onward) fun _ => rfl
      exact separated_anchored inner each (one.value :: found) comma.rest _
    · exact ((expectAs_anchored _ inner one.rest).behind front).keep fun _ => rfl
termination_by ts.length

theorem name_anchored (ts : List Token) : Anchored r ts Parsed.rest (r.name ts) := by
  unfold Reader.name
  split
  · exact .fail _ []
  · rename_i t more
    split
    · rename_i name written
      exact (resolve_stuck _ t more).andThen fun _ _ => .ok (.one written rfl more)
    · exact .fail _ (t :: more)

theorem literal_stuck (lexical : String) (tag : Option LiteralTag) (t : Token)
    (more : List Token) : Stuck r (t :: more) (literal r lexical tag t.span) := by
  unfold literal
  split
  · exact .ok _
  · split
    · exact .ok _
    · exact .first _ t more
  · exact (resolve_stuck _ t more).keep

theorem simpleTerm_stuck (scope : Option (List Parameter)) (t : Token) (more : List Token) :
    Stuck r (t :: more) (simpleTerm r scope t) := by
  unfold simpleTerm
  split
  · exact (resolve_stuck _ t more).keep
  · exact .ok _
  · exact (literal_stuck _ _ t more).keep
  · exact .ok _
  · exact .ok _
  · split
    · exact .first _ t more
    · split
      · exact .ok _
      · exact .first _ t more
  · split
    · exact .ok _
    · exact .first _ t more
  · exact .first _ t more

theorem interior_of_simpleTerm {scope : Option (List Parameter)} {t : Token} {a : Argument}
    (read : simpleTerm r scope t = .ok a) : interior t.kind = true := by
  rw [interior_iff]
  constructor
  all_goals
    intro written
    rw [simpleTerm, written] at read
    cases read

theorem term_anchored (scope : Option (List Parameter)) (ts : List Token) :
    Anchored r ts Parsed.rest (term r scope ts) := by
  cases ts with
  | nil =>
    rw [term]
    exact .fail _ []
  | cons t more =>
    rw [term]
    split
    · rename_i opens
      refine Anchored.keep (Anchored.behind ?_ (.one opens rfl more)) fun _ => rfl
      exact separated_anchored rfl (fun _ us fewer => term_anchored scope us) [] more _
    · exact (simpleTerm_stuck scope t more).andThen fun _ read =>
        .ok (.one rfl (interior_of_simpleTerm read) more)
termination_by ts.length
decreasing_by exact fewer

theorem constant_anchored (ts : List Token) : Anchored r ts Parsed.rest (constant r ts) := by
  unfold constant
  split
  · exact .here _ ts
  · refine (term_anchored none ts).bind fun found _ front => ?_
    split
    · exact .ok front
    · exact .here _ ts

theorem argument_anchored (scope : List Parameter) (ts : List Token) :
    Anchored r ts Parsed.rest (argument r scope ts) := by
  unfold argument
  split
  · rename_i mark accepted
    exact ((term_anchored (some scope) mark.rest).behind (accept?_crosses accepted rfl)).keep
      fun _ => rfl
  · exact term_anchored (some scope) ts

theorem paramType_anchored (ts : List Token) : Anchored r ts Parsed.rest (paramType r ts) := by
  unfold paramType
  split
  · exact .fail _ []
  · rename_i t more
    split
    · rename_i opens
      have front := Crosses.one opens rfl more
      refine ((paramType_anchored more).behind front).bind fun element _ inside => ?_
      exact ((expect_anchored rfl element.rest).behind inside).keep fun _ => rfl
    · rename_i opens
      have front := Crosses.one opens rfl more
      refine ((paramType_anchored more).behind front).bind fun element _ inside => ?_
      exact ((expect_anchored rfl element.rest).behind inside).keep fun _ => rfl
    · rename_i name written
      refine (resolve_stuck _ t more).andThen fun iri _ => ?_
      split
      · exact .ok (.one written rfl more)
      · exact .first _ t more
    · exact .fail _ (t :: more)
termination_by ts.length

theorem marks_anchored (nonBlank optional : Bool) (ts : List Token) :
    Anchored r ts Marks.rest (marks nonBlank optional ts) := by
  induction ts generalizing nonBlank optional with
  | nil => exact .ok (.refl [])
  | cons t more ih =>
    unfold marks
    split
    · rename_i bang
      split
      · exact .first _ t more
      · exact ((ih true optional).behind (.one bang rfl more)).keep fun _ => rfl
    · split
      · rename_i question
        split
        · exact .first _ t more
        · exact ((ih nonBlank true).behind (.one question rfl more)).keep
            fun _ => rfl
      · exact .ok (.refl (t :: more))

theorem typed_anchored (ts : List Token) : Anchored r ts Typed.rest (typed r ts) := by
  unfold typed
  split
  · exact (paramType_anchored ts).keep fun _ => rfl
  · exact .ok (.refl ts)

theorem variableName_anchored (ts : List Token) :
    Anchored r ts Parsed.rest (variableName r ts) := by
  unfold variableName
  split
  · exact .fail _ []
  · rename_i t more
    split
    · rename_i name written
      exact .ok (.one written rfl more)
    · exact .fail _ (t :: more)

theorem defaultValue_anchored (ts : List Token) :
    Anchored r ts Parsed.rest (defaultValue r ts) := by
  have constant : Anchored r ts Parsed.rest (constant r ts) := constant_anchored ts
  unfold defaultValue
  split
  · rename_i found taken
    exact .ok (constant.crosses found taken)
  · rename_i e failed
    split
    · exact .here _ ts
    · rw [← failed]
      exact constant

theorem parameter_anchored (index : Nat) (ts : List Token) :
    Anchored r ts Parsed.rest (parameter r index ts) := by
  unfold parameter
  refine (marks_anchored false false ts).bind fun marks _ marked => ?_
  refine ((typed_anchored marks.rest).behind marked).bind fun type _ front => ?_
  refine ((variableName_anchored type.rest).behind front).bind fun name _ named => ?_
  dsimp only
  split
  · exact .ok named
  · rename_i equals accepted
    have assigned := named.trans (accept?_crosses accepted rfl)
    exact ((defaultValue_anchored equals.rest).behind assigned).keep fun _ => rfl

theorem parameter_begins {index : Nat} {found : Parsed Parameter ts}
    (read : parameter r index ts = .ok found) :
    ∃ last, found.value.span = (r.here ts).through last := by
  unfold parameter at read
  obtain ⟨marks, _, read⟩ := ok_of_bind read
  obtain ⟨type, _, read⟩ := ok_of_bind read
  obtain ⟨name, _, read⟩ := ok_of_bind read
  dsimp only at read
  split at read
  · cases read
    exact ⟨_, rfl⟩
  · obtain ⟨value, _, same⟩ := ok_of_bind read
    cases same
    exact ⟨_, rfl⟩

theorem newParameter_anchored (earlier : List Parameter) (ts : List Token) :
    Anchored r ts Parsed.rest (newParameter r earlier ts) := by
  unfold newParameter
  refine (parameter_anchored earlier.length ts).bind fun one taken front => ?_
  split
  · obtain ⟨last, span⟩ := parameter_begins taken
    rw [span]
    exact .here _ ts
  · exact .ok front

theorem moded_anchored (ts : List Token) : Anchored r ts Moded.rest (moded r ts) := by
  unfold moded
  split
  · rename_i t bar more
    split
    · rename_i word written piped
      split
      · exact .ok (.trans (.one written rfl _) (.one piped rfl more))
      · exact .fail _ _
    · exact .ok (.refl _)
  · exact .ok (.refl _)

theorem checkMode_stuck (mode : Option ExpansionMode) (arguments : List Argument)
    (ts : List Token) : Stuck r ts (checkMode mode arguments (r.here ts)) := by
  unfold checkMode
  split
  · exact .here _ ts
  · exact .here _ ts
  · exact .ok _

-- A call whose mode does not fit its arguments is blamed where it begins.
theorem call_anchored (scope : List Parameter) (ts : List Token) :
    Anchored r ts Parsed.rest (call r scope ts) := by
  unfold call
  refine (moded_anchored ts).bind fun mode _ front => ?_
  refine ((name_anchored mode.rest).behind front).bind fun template _ named => ?_
  refine ((expect_anchored rfl template.rest).behind named).bind fun opening _ opened => ?_
  refine ((separated_anchored rfl (fun _ us _ => argument_anchored scope us) [] opening.rest
    _).behind opened).bind fun arguments _ given => ?_
  exact (checkMode_stuck mode.mode arguments.value ts).andThen fun _ _ => .ok given

theorem template_stuck (ts : List Token) : Stuck r ts (template r ts) := by
  unfold template
  refine (name_anchored ts).stuck_bind fun iri _ named => ?_
  refine ((expect_anchored rfl iri.rest).behind named).stuck_bind fun bracket _ opened => ?_
  refine ((separated_anchored rfl (fun earlier us _ => newParameter_anchored earlier us) []
    bracket.rest _).behind opened).stuck_bind fun parameters _ signed => ?_
  refine ((expect_anchored rfl parameters.rest).behind signed).stuck_bind fun colons _ defined => ?_
  refine ((expect_anchored rfl colons.rest).behind defined).stuck_bind fun brace _ begun => ?_
  refine ((separated_anchored rfl (fun _ us _ => call_anchored parameters.value us) [] brace.rest
    _).behind begun).stuck_bind fun calls _ made => ?_
  exact ((expect_stuck .dot calls.rest).behind made).keep

theorem groundInstance_stuck (ts : List Token) : Stuck r ts (groundInstance r ts) := by
  unfold groundInstance
  refine (name_anchored ts).stuck_bind fun template _ named => ?_
  refine ((expect_anchored rfl template.rest).behind named).stuck_bind fun opening _ opened => ?_
  refine ((separated_anchored rfl (fun _ us _ => constant_anchored us) [] opening.rest
    _).behind opened).stuck_bind fun arguments _ given => ?_
  exact ((expect_stuck .dot arguments.rest).behind given).keep

theorem prefixLabel_anchored (ts : List Token) :
    Anchored r ts Parsed.rest (prefixLabel r ts) := by
  unfold prefixLabel
  split
  · exact .fail _ []
  · rename_i t more
    split
    · rename_i label written
      exact .ok (.one written rfl more)
    · exact .fail _ (t :: more)

theorem namespaceText_anchored (ts : List Token) :
    Anchored r ts Parsed.rest (namespaceText r ts) := by
  unfold namespaceText
  split
  · exact .fail _ []
  · rename_i t more
    split
    · rename_i space written
      exact .ok (.one written rfl more)
    · exact .fail _ (t :: more)

theorem binding_stuck {t : Token} (begins : t.kind = .prefixKeyword) (more : List Token) :
    Stuck r more (binding r (t :: more)) := by
  have keyword : r.expect .prefixKeyword (t :: more) = .ok (.single () t more) := by
    rw [Reader.expect, Reader.expectAs, accept?, if_pos begins]
  rw [binding, keyword]
  refine (prefixLabel_anchored more).stuck_bind fun label _ labelled => ?_
  refine ((namespaceText_anchored label.rest).behind labelled).stuck_bind fun space _ spaced => ?_
  exact ((expect_stuck .dot space.rest).behind spaced).keep

-- The first token is blamed or taken. A keyword is taken, and a dot is not.
theorem declaration_stuck {item : Item α} (each : ∀ us, Stuck r us (item r us)) {t : Token}
    {more : List Token} {e : ParseError}
    (failed : declaration r (item r) (t :: more) = .error e) :
    ∃ us, (us = t :: more ∧ t.kind ≠ .prefixKeyword ∨ t.kind ≠ .dot ∧ Crosses more us) ∧
      e.line = (r.here us).line ∧ e.column = (r.here us).column := by
  unfold declaration at failed
  split at failed
  · rename_i begins
    have keyword : t.kind = .prefixKeyword := by simpa using begins
    obtain ⟨us, crosses, place⟩ := (binding_stuck keyword more).keep e failed
    exact ⟨us, .inr ⟨by simp [keyword], crosses⟩, place⟩
  · rename_i begins
    obtain ⟨us, ⟨front, same, inside⟩, place⟩ := (each (t :: more)).keep e failed
    refine ⟨us, ?_, place⟩
    cases front with
    | nil => exact .inl ⟨same.symm, by simpa using begins⟩
    | cons u front =>
      cases same
      obtain ⟨inner, inside⟩ := List.forall_mem_cons.mp inside
      exact .inr ⟨(interior_iff.mp inner).1, front, rfl, inside⟩

end Stottr.Document

import Stottr.Document

namespace Stottr.Document

-- Two outcomes of reading: the same error, or two successes that are related.
inductive Alike {α β : Type} (Same : α → β → Prop) :
    Except ParseError α → Except ParseError β → Prop where
  | error (e : ParseError) : Alike Same (.error e) (.error e)
  | ok {a : α} {b : β} (same : Same a b) : Alike Same (.ok a) (.ok b)

theorem Alike.bind {α β α' β' : Type} {Same : α → β → Prop} {Same' : α' → β' → Prop}
    {x : Except ParseError α} {y : Except ParseError β} {f : α → Except ParseError α'}
    {g : β → Except ParseError β'} (first : Alike Same x y)
    (later : ∀ a b, Same a b → Alike Same' (f a) (g b)) : Alike Same' (x >>= f) (y >>= g) := by
  cases first with
  | error e => exact .error e
  | ok same => exact later _ _ same

theorem Alike.refl {α : Type} (x : Except ParseError α) : Alike Eq x x := by
  cases x with
  | error e => exact .error e
  | ok a => exact .ok rfl

def Dotted (ts : List Token) : Prop := ∃ t ∈ ts, t.kind = .dot

theorem not_dotted_nil : ¬ Dotted [] := nofun

theorem Dotted.exists_cons {ts : List Token} (dotted : Dotted ts) : ∃ t rest, ts = t :: rest := by
  cases ts with
  | nil => exact absurd dotted not_dotted_nil
  | cons t rest => exact ⟨t, rest, rfl⟩

theorem Dotted.tail {t : Token} {rest : List Token} (dotted : Dotted (t :: rest))
    (other : t.kind ≠ .dot) : Dotted rest := by
  obtain ⟨dot, member, kind⟩ := dotted
  rcases List.mem_cons.mp member with rfl | later
  · exact absurd kind other
  · exact ⟨dot, later, kind⟩

variable {α : Type} {behind : List Token}

-- The same is found twice, the second time with more tokens behind those that are left.
structure Matches (behind : List Token) {ts us : List Token} (a : Parsed α ts) (b : Parsed α us) :
    Prop where
  value : b.value = a.value
  last : b.last = a.last
  rest : b.rest = a.rest ++ behind

structure MatchesInside (behind : List Token) {ts us : List Token} (a : Parsed α ts)
    (b : Parsed α us) : Prop extends Matches behind a b where
  ahead : Dotted a.rest

variable {ns : Namespaces} {stop stop' : Text.Span} {ts : List Token}

theorem matchesInside_single (value : α) {t : Token} {rest : List Token}
    (dotted : Dotted (t :: rest)) (other : t.kind ≠ .dot) :
    MatchesInside behind (.single value t rest) (.single value t (rest ++ behind)) :=
  ⟨⟨rfl, rfl, rfl⟩, dotted.tail other⟩

theorem here_local (dotted : Dotted ts) :
    Reader.here ⟨ns, stop'⟩ (ts ++ behind) = Reader.here ⟨ns, stop⟩ ts := by
  obtain ⟨t, rest, rfl⟩ := dotted.exists_cons
  rfl

theorem fail_local {β β' : Type} {Same : β → β' → Prop} (fault : Option TokenKind → ParseFault)
    (dotted : Dotted ts) :
    Alike Same (Reader.fail ⟨ns, stop⟩ fault ts) (Reader.fail ⟨ns, stop'⟩ fault (ts ++ behind)) := by
  obtain ⟨t, rest, rfl⟩ := dotted.exists_cons
  exact .error _

theorem accept?_local (behind : List Token) {kind : TokenKind} (dotted : Dotted ts)
    (other : kind ≠ .dot) :
    (accept? kind ts = none ∧ accept? kind (ts ++ behind) = none) ∨
    ∃ a b, accept? kind ts = some a ∧ accept? kind (ts ++ behind) = some b ∧
      MatchesInside behind a b := by
  obtain ⟨t, rest, rfl⟩ := dotted.exists_cons
  by_cases same : t.kind = kind
  · exact .inr ⟨.single () t rest, .single () t (rest ++ behind), if_pos same, if_pos same,
      matchesInside_single () dotted (same ▸ other)⟩
  · exact .inl ⟨if_neg same, if_neg same⟩

theorem expectAs_local {expected : Expected} {kind : TokenKind} (dotted : Dotted ts)
    (other : kind ≠ .dot) :
    Alike (MatchesInside behind) (Reader.expectAs ⟨ns, stop⟩ expected kind ts)
      (Reader.expectAs ⟨ns, stop'⟩ expected kind (ts ++ behind)) := by
  rcases accept?_local behind dotted other with ⟨one, two⟩ | ⟨a, b, one, two, same⟩
  · simp only [Reader.expectAs, one, two]
    exact fail_local _ dotted
  · simp only [Reader.expectAs, one, two]
    exact .ok same

theorem expect_local (kind : TokenKind) (dotted : Dotted ts) (other : kind ≠ .dot) :
    Alike (MatchesInside behind) (Reader.expect ⟨ns, stop⟩ kind ts)
      (Reader.expect ⟨ns, stop'⟩ kind (ts ++ behind)) :=
  expectAs_local dotted other

theorem expect_dot_local (dotted : Dotted ts) :
    Alike (Matches behind) (Reader.expect ⟨ns, stop⟩ .dot ts)
      (Reader.expect ⟨ns, stop'⟩ .dot (ts ++ behind)) := by
  obtain ⟨t, rest, rfl⟩ := dotted.exists_cons
  by_cases same : t.kind = .dot
  · simp only [Reader.expect, Reader.expectAs, accept?, List.cons_append, if_pos same]
    exact .ok ⟨rfl, rfl, rfl⟩
  · simp only [Reader.expect, Reader.expectAs, accept?, List.cons_append, if_neg same]
    exact .error _

theorem separated_local (close : TokenKind) {outer outer' : List Token}
    {item : List α → (us : List Token) → us.length < outer.length → Result α us}
    {item' : List α → (us : List Token) → us.length < outer'.length → Result α us}
    (closes : close ≠ .dot)
    (each : ∀ found us fewer fewer', Dotted us →
      Alike (MatchesInside behind) (item found us fewer) (item' found (us ++ behind) fewer'))
    {found : List α} {ts : List Token} {within : ts.length < outer.length}
    {within' : (ts ++ behind).length < outer'.length} (dotted : Dotted ts) :
    Alike (MatchesInside behind)
      (Reader.separated ⟨ns, stop⟩ close outer item found ts within)
      (Reader.separated ⟨ns, stop'⟩ close outer' item' found (ts ++ behind) within') := by
  rw [Reader.separated, Reader.separated]
  rcases accept?_local behind dotted closes with ⟨one, two⟩ | ⟨a, b, one, two, same⟩
  · simp only [one, two]
    refine (each found ts within within' dotted).bind ?_
    rintro a ⟨value, last, rest, shorter⟩ ⟨⟨rfl, rfl, rfl⟩, ahead⟩
    dsimp only
    rcases accept?_local behind ahead (by simp : TokenKind.comma ≠ .dot) with
      ⟨one, two⟩ | ⟨comma, ⟨_, last, rest, fewer⟩, one, two, ⟨⟨rfl, rfl, rfl⟩, inside⟩⟩
    · simp only [one, two]
      refine (expectAs_local ahead closes).bind ?_
      rintro stop ⟨_, last, rest, shorter⟩ ⟨⟨rfl, rfl, rfl⟩, ahead⟩
      exact .ok ⟨⟨rfl, rfl, rfl⟩, ahead⟩
    · simp only [one, two]
      have shorter : comma.rest.length < ts.length := Nat.lt_trans comma.shorter a.shorter
      refine (separated_local close closes each inside).bind ?_
      rintro all ⟨value, last, rest, shorter⟩ ⟨⟨rfl, rfl, rfl⟩, ahead⟩
      exact .ok ⟨⟨rfl, rfl, rfl⟩, ahead⟩
  · obtain ⟨_, last, rest, shorter⟩ := b
    obtain ⟨⟨rfl, rfl, rfl⟩, ahead⟩ := same
    simp only [one, two]
    exact .ok ⟨⟨rfl, rfl, rfl⟩, ahead⟩
termination_by ts.length

theorem name_local (dotted : Dotted ts) :
    Alike (MatchesInside behind) (Reader.name ⟨ns, stop⟩ ts)
      (Reader.name ⟨ns, stop'⟩ (ts ++ behind)) := by
  obtain ⟨t, rest, rfl⟩ := dotted.exists_cons
  cases written : t.kind with
  | iri name =>
    simp only [Reader.name, List.cons_append, written]
    refine Alike.bind (Alike.refl _) ?_
    rintro iri _ rfl
    exact .ok (matchesInside_single iri dotted (by simp [written]))
  | _ =>
    simp only [Reader.name, List.cons_append, written]
    exact fail_local _ dotted

theorem term_local {scope : Option (List Parameter)} {ts : List Token} (dotted : Dotted ts) :
    Alike (MatchesInside behind) (term ⟨ns, stop⟩ scope ts)
      (term ⟨ns, stop'⟩ scope (ts ++ behind)) := by
  cases ts with
  | nil => exact absurd dotted not_dotted_nil
  | cons t rest =>
    rw [term, List.cons_append, term]
    by_cases opens : t.kind = .openParen
    · rw [if_pos opens, if_pos opens]
      have onward : Dotted rest := dotted.tail (by simp [opens])
      refine Alike.bind (separated_local .closeParen (by simp) ?_ onward) ?_
      · intro _ us fewer _ inside
        exact term_local inside
      · rintro items ⟨value, last, rest, shorter⟩ ⟨⟨rfl, rfl, rfl⟩, ahead⟩
        exact .ok ⟨⟨rfl, rfl, rfl⟩, ahead⟩
    · rw [if_neg opens, if_neg opens]
      by_cases ends : t.kind = .dot
      · simp only [simpleTerm, ends]
        exact .error _
      · refine Alike.bind (Alike.refl (simpleTerm ⟨ns, stop⟩ scope t)) ?_
        rintro value _ rfl
        exact .ok (matchesInside_single value dotted ends)
termination_by ts.length

theorem constant_local (dotted : Dotted ts) :
    Alike (MatchesInside behind) (constant ⟨ns, stop⟩ ts)
      (constant ⟨ns, stop'⟩ (ts ++ behind)) := by
  have start : Reader.here ⟨ns, stop'⟩ (ts ++ behind) = Reader.here ⟨ns, stop⟩ ts :=
    here_local dotted
  rcases accept?_local behind dotted (by simp : TokenKind.plusPlus ≠ .dot) with
    ⟨one, two⟩ | ⟨a, b, one, two, same⟩
  · simp only [constant, one, two]
    refine (term_local dotted).bind ?_
    rintro found ⟨value, last, rest, shorter⟩ ⟨⟨rfl, rfl, rfl⟩, ahead⟩
    dsimp only
    cases found.value.constant? with
    | none =>
      rw [start]
      exact .error _
    | some value => exact .ok ⟨⟨rfl, rfl, rfl⟩, ahead⟩
  · simp only [constant, one, two, start]
    exact .error _

theorem argument_local {scope : List Parameter} (dotted : Dotted ts) :
    Alike (MatchesInside behind) (argument ⟨ns, stop⟩ scope ts)
      (argument ⟨ns, stop'⟩ scope (ts ++ behind)) := by
  rcases accept?_local behind dotted (by simp : TokenKind.plusPlus ≠ .dot) with
    ⟨one, two⟩ | ⟨mark, ⟨_, last, rest, shorter⟩, one, two, ⟨⟨rfl, rfl, rfl⟩, ahead⟩⟩
  · simp only [argument, one, two]
    exact term_local dotted
  · simp only [argument, one, two]
    refine (term_local ahead).bind ?_
    rintro found ⟨value, last, rest, shorter⟩ ⟨⟨rfl, rfl, rfl⟩, ahead⟩
    exact .ok ⟨⟨rfl, rfl, rfl⟩, ahead⟩

theorem paramType_local {ts : List Token} (dotted : Dotted ts) :
    Alike (MatchesInside behind) (paramType ⟨ns, stop⟩ ts)
      (paramType ⟨ns, stop'⟩ (ts ++ behind)) := by
  cases ts with
  | nil => exact absurd dotted not_dotted_nil
  | cons t rest =>
    cases written : t.kind with
    | listType | nonEmptyListType =>
      simp only [paramType, List.cons_append, written]
      refine (paramType_local (dotted.tail (by simp [written]))).bind ?_
      rintro element ⟨value, last, rest, shorter⟩ ⟨⟨rfl, rfl, rfl⟩, ahead⟩
      refine (expect_local .closeAngle ahead (by simp)).bind ?_
      rintro close ⟨_, last, rest, shorter⟩ ⟨⟨rfl, rfl, rfl⟩, ahead⟩
      exact .ok ⟨⟨rfl, rfl, rfl⟩, ahead⟩
    | iri name =>
      simp only [paramType, List.cons_append, written]
      refine Alike.bind (Alike.refl _) ?_
      rintro iri _ rfl
      cases ParamType.ofIri? iri with
      | none => exact .error _
      | some type => exact .ok (matchesInside_single type dotted (by simp [written]))
    | _ =>
      simp only [paramType, List.cons_append, written]
      exact fail_local _ dotted
termination_by ts.length

structure MarksMatch (behind : List Token) {ts us : List Token} (a : Marks ts) (b : Marks us) :
    Prop where
  nonBlank : b.nonBlank = a.nonBlank
  optional : b.optional = a.optional
  rest : b.rest = a.rest ++ behind
  ahead : Dotted a.rest

theorem marks_local {nonBlank optional : Bool} {ts : List Token} (dotted : Dotted ts) :
    Alike (MarksMatch behind) (marks nonBlank optional ts)
      (marks nonBlank optional (ts ++ behind)) := by
  induction ts generalizing nonBlank optional with
  | nil => exact absurd dotted not_dotted_nil
  | cons t rest ih =>
    simp only [marks, List.cons_append]
    by_cases bang : t.kind = .bang
    · rw [if_pos bang, if_pos bang]
      cases nonBlank with
      | true => exact .error _
      | false =>
        refine (ih (dotted.tail (by simp [bang]))).bind ?_
        rintro a b ⟨marked, omittable, left, ahead⟩
        exact .ok ⟨marked, omittable, left, ahead⟩
    · rw [if_neg bang, if_neg bang]
      by_cases question : t.kind = .question
      · rw [if_pos question, if_pos question]
        cases optional with
        | true => exact .error _
        | false =>
          refine (ih (dotted.tail (by simp [question]))).bind ?_
          rintro a b ⟨marked, omittable, left, ahead⟩
          exact .ok ⟨marked, omittable, left, ahead⟩
      · rw [if_neg question, if_neg question]
        exact .ok ⟨rfl, rfl, rfl, dotted⟩

structure TypedMatch (behind : List Token) {ts us : List Token} (a : Typed ts) (b : Typed us) :
    Prop where
  type : b.type = a.type
  rest : b.rest = a.rest ++ behind
  ahead : Dotted a.rest

theorem typed_local (dotted : Dotted ts) :
    Alike (TypedMatch behind) (typed ⟨ns, stop⟩ ts) (typed ⟨ns, stop'⟩ (ts ++ behind)) := by
  obtain ⟨t, rest, rfl⟩ := dotted.exists_cons
  cases opens : opensType t.kind with
  | true =>
    simp only [typed, List.cons_append, List.head?_cons, Option.map_some, Option.getD_some, opens,
      if_true]
    refine (paramType_local dotted).bind ?_
    rintro found ⟨value, last, rest, shorter⟩ ⟨⟨rfl, rfl, rfl⟩, ahead⟩
    exact .ok ⟨rfl, rfl, ahead⟩
  | false =>
    simp only [typed, List.cons_append, List.head?_cons, Option.map_some, Option.getD_some, opens,
      Bool.false_eq_true, if_false]
    exact .ok ⟨rfl, rfl, dotted⟩

theorem variableName_local (dotted : Dotted ts) :
    Alike (MatchesInside behind) (variableName ⟨ns, stop⟩ ts)
      (variableName ⟨ns, stop'⟩ (ts ++ behind)) := by
  obtain ⟨t, rest, rfl⟩ := dotted.exists_cons
  cases written : t.kind with
  | «variable» name =>
    simp only [variableName, List.cons_append, written]
    exact .ok (matchesInside_single name dotted (by simp [written]))
  | _ =>
    simp only [variableName, List.cons_append, written]
    exact fail_local _ dotted

theorem defaultValue_local (dotted : Dotted ts) :
    Alike (MatchesInside behind) (defaultValue ⟨ns, stop⟩ ts)
      (defaultValue ⟨ns, stop'⟩ (ts ++ behind)) := by
  have start : Reader.here ⟨ns, stop'⟩ (ts ++ behind) = Reader.here ⟨ns, stop⟩ ts :=
    here_local dotted
  have same : Alike (MatchesInside behind) (constant ⟨ns, stop⟩ ts)
    (constant ⟨ns, stop'⟩ (ts ++ behind)) := constant_local dotted
  unfold defaultValue
  generalize constant ⟨ns, stop⟩ ts = x at same
  generalize constant ⟨ns, stop'⟩ (ts ++ behind) = y at same
  cases same with
  | error e =>
    dsimp only
    rw [start]
    cases e.fault <;> exact .error _
  | ok same => exact .ok same

theorem parameter_local {index : Nat} (dotted : Dotted ts) :
    Alike (MatchesInside behind) (parameter ⟨ns, stop⟩ index ts)
      (parameter ⟨ns, stop'⟩ index (ts ++ behind)) := by
  have start : Reader.here ⟨ns, stop'⟩ (ts ++ behind) = Reader.here ⟨ns, stop⟩ ts :=
    here_local dotted
  unfold parameter
  refine (marks_local dotted).bind ?_
  rintro marked ⟨_, _, rest, within⟩ ⟨rfl, rfl, rfl, ahead⟩
  refine (typed_local ahead).bind ?_
  rintro typed ⟨_, rest, within⟩ ⟨rfl, rfl, ahead⟩
  refine (variableName_local ahead).bind ?_
  rintro name ⟨_, last, rest, shorter⟩ ⟨⟨rfl, rfl, rfl⟩, ahead⟩
  rcases accept?_local behind ahead (by simp : TokenKind.equals ≠ .dot) with
    ⟨one, two⟩ | ⟨equals, ⟨_, last, rest, shorter⟩, one, two, ⟨⟨rfl, rfl, rfl⟩, ahead⟩⟩
  · simp only [one, two, start]
    exact .ok ⟨⟨rfl, rfl, rfl⟩, ahead⟩
  · simp only [one, two, start]
    refine (defaultValue_local ahead).bind ?_
    rintro value ⟨_, last, rest, shorter⟩ ⟨⟨rfl, rfl, rfl⟩, ahead⟩
    exact .ok ⟨⟨rfl, rfl, rfl⟩, ahead⟩

theorem newParameter_local {found : List Parameter} (dotted : Dotted ts) :
    Alike (MatchesInside behind) (newParameter ⟨ns, stop⟩ found ts)
      (newParameter ⟨ns, stop'⟩ found (ts ++ behind)) := by
  unfold newParameter
  refine (parameter_local dotted).bind ?_
  rintro one ⟨_, last, rest, shorter⟩ ⟨⟨rfl, rfl, rfl⟩, ahead⟩
  dsimp only
  split
  · exact .error _
  · exact .ok ⟨⟨rfl, rfl, rfl⟩, ahead⟩

structure ModedMatch (behind : List Token) {ts us : List Token} (a : Moded ts) (b : Moded us) :
    Prop where
  mode : b.mode = a.mode
  rest : b.rest = a.rest ++ behind
  ahead : Dotted a.rest

-- A mode takes two tokens, and a dot is neither of them.
theorem moded_local (dotted : Dotted ts) :
    Alike (ModedMatch behind) (moded ⟨ns, stop⟩ ts) (moded ⟨ns, stop'⟩ (ts ++ behind)) := by
  obtain ⟨t, rest, rfl⟩ := dotted.exists_cons
  cases rest with
  | nil =>
    have ends : t.kind = .dot := by simpa [Dotted] using dotted
    cases behind with
    | nil => exact .ok ⟨rfl, rfl, dotted⟩
    | cons b behind =>
      simp only [moded, List.cons_append, List.nil_append, ends]
      exact .ok ⟨rfl, rfl, dotted⟩
  | cons bar rest =>
    simp only [moded, List.cons_append]
    cases written : t.kind with
    | word word =>
      cases piped : bar.kind with
      | pipe =>
        dsimp only
        cases ExpansionMode.ofKeyword? word with
        | none => exact fail_local _ dotted
        | some mode =>
          exact .ok ⟨rfl, rfl, (dotted.tail (by simp [written])).tail (by simp [piped])⟩
      | _ => exact .ok ⟨rfl, rfl, dotted⟩
    | _ => exact .ok ⟨rfl, rfl, dotted⟩

theorem call_local {scope : List Parameter} (dotted : Dotted ts) :
    Alike (MatchesInside behind) (call ⟨ns, stop⟩ scope ts)
      (call ⟨ns, stop'⟩ scope (ts ++ behind)) := by
  have start : Reader.here ⟨ns, stop'⟩ (ts ++ behind) = Reader.here ⟨ns, stop⟩ ts :=
    here_local dotted
  unfold call
  refine (moded_local dotted).bind ?_
  rintro moded ⟨_, rest, within⟩ ⟨rfl, rfl, ahead⟩
  refine (name_local ahead).bind ?_
  rintro name ⟨_, last, rest, shorter⟩ ⟨⟨rfl, rfl, rfl⟩, ahead⟩
  refine (expect_local .openParen ahead (by simp)).bind ?_
  rintro opening ⟨_, last, rest, shorter⟩ ⟨⟨rfl, rfl, rfl⟩, ahead⟩
  refine Alike.bind (separated_local .closeParen (by simp) ?_ ahead) ?_
  · intro _ us _ _ inside
    exact argument_local inside
  · rintro arguments ⟨_, last, rest, shorter⟩ ⟨⟨rfl, rfl, rfl⟩, ahead⟩
    dsimp only
    rw [start]
    refine Alike.bind (Alike.refl _) ?_
    rintro _ _ rfl
    exact .ok ⟨⟨rfl, rfl, rfl⟩, ahead⟩

theorem template_local (dotted : Dotted ts) :
    Alike (Matches behind) (template ⟨ns, stop⟩ ts) (template ⟨ns, stop'⟩ (ts ++ behind)) := by
  have start : Reader.here ⟨ns, stop'⟩ (ts ++ behind) = Reader.here ⟨ns, stop⟩ ts :=
    here_local dotted
  unfold template
  refine (name_local dotted).bind ?_
  rintro iri ⟨_, last, rest, shorter⟩ ⟨⟨rfl, rfl, rfl⟩, ahead⟩
  refine (expect_local .openBracket ahead (by simp)).bind ?_
  rintro bracket ⟨_, last, rest, shorter⟩ ⟨⟨rfl, rfl, rfl⟩, ahead⟩
  refine Alike.bind (separated_local .closeBracket (by simp) ?_ ahead) ?_
  · intro _ us _ _ inside
    exact newParameter_local inside
  rintro parameters ⟨_, last, rest, shorter⟩ ⟨⟨rfl, rfl, rfl⟩, ahead⟩
  refine (expect_local .doubleColon ahead (by simp)).bind ?_
  rintro colons ⟨_, last, rest, shorter⟩ ⟨⟨rfl, rfl, rfl⟩, ahead⟩
  refine (expect_local .openBrace ahead (by simp)).bind ?_
  rintro brace ⟨_, last, rest, shorter⟩ ⟨⟨rfl, rfl, rfl⟩, ahead⟩
  refine Alike.bind (separated_local .closeBrace (by simp) ?_ ahead) ?_
  · intro _ us _ _ inside
    exact call_local inside
  rintro calls ⟨_, last, rest, shorter⟩ ⟨⟨rfl, rfl, rfl⟩, ahead⟩
  refine (expect_dot_local ahead).bind ?_
  rintro dot ⟨_, last, rest, shorter⟩ ⟨rfl, rfl, rfl⟩
  dsimp only
  rw [start]
  exact .ok ⟨rfl, rfl, rfl⟩

theorem groundInstance_local (dotted : Dotted ts) :
    Alike (Matches behind) (groundInstance ⟨ns, stop⟩ ts)
      (groundInstance ⟨ns, stop'⟩ (ts ++ behind)) := by
  have start : Reader.here ⟨ns, stop'⟩ (ts ++ behind) = Reader.here ⟨ns, stop⟩ ts :=
    here_local dotted
  unfold groundInstance
  refine (name_local dotted).bind ?_
  rintro name ⟨_, last, rest, shorter⟩ ⟨⟨rfl, rfl, rfl⟩, ahead⟩
  refine (expect_local .openParen ahead (by simp)).bind ?_
  rintro opening ⟨_, last, rest, shorter⟩ ⟨⟨rfl, rfl, rfl⟩, ahead⟩
  refine Alike.bind (separated_local .closeParen (by simp) ?_ ahead) ?_
  · intro _ us _ _ inside
    exact constant_local inside
  rintro arguments ⟨_, last, rest, shorter⟩ ⟨⟨rfl, rfl, rfl⟩, ahead⟩
  refine (expect_dot_local ahead).bind ?_
  rintro dot ⟨_, last, rest, shorter⟩ ⟨rfl, rfl, rfl⟩
  dsimp only
  rw [start]
  exact .ok ⟨rfl, rfl, rfl⟩

theorem prefixLabel_local (dotted : Dotted ts) :
    Alike (MatchesInside behind) (prefixLabel ⟨ns, stop⟩ ts)
      (prefixLabel ⟨ns, stop'⟩ (ts ++ behind)) := by
  obtain ⟨t, rest, rfl⟩ := dotted.exists_cons
  simp only [prefixLabel, List.cons_append]
  split
  · rename_i label written
    exact .ok (matchesInside_single label dotted (by simp [written]))
  · exact fail_local _ dotted

theorem namespaceText_local (dotted : Dotted ts) :
    Alike (MatchesInside behind) (namespaceText ⟨ns, stop⟩ ts)
      (namespaceText ⟨ns, stop'⟩ (ts ++ behind)) := by
  obtain ⟨t, rest, rfl⟩ := dotted.exists_cons
  simp only [namespaceText, List.cons_append]
  split
  · rename_i space written
    exact .ok (matchesInside_single space dotted (by simp [written]))
  · exact fail_local _ dotted

theorem binding_local (dotted : Dotted ts) :
    Alike (Matches behind) (binding ⟨ns, stop⟩ ts) (binding ⟨ns, stop'⟩ (ts ++ behind)) := by
  unfold binding
  refine (expect_local .prefixKeyword dotted (by simp)).bind ?_
  rintro keyword ⟨_, last, rest, shorter⟩ ⟨⟨rfl, rfl, rfl⟩, ahead⟩
  refine (prefixLabel_local ahead).bind ?_
  rintro label ⟨_, last, rest, shorter⟩ ⟨⟨rfl, rfl, rfl⟩, ahead⟩
  refine (namespaceText_local ahead).bind ?_
  rintro space ⟨_, last, rest, shorter⟩ ⟨⟨rfl, rfl, rfl⟩, ahead⟩
  refine (expect_dot_local ahead).bind ?_
  rintro dot ⟨_, last, rest, shorter⟩ ⟨rfl, rfl, rfl⟩
  exact .ok ⟨rfl, rfl, rfl⟩

def Local (item : Item α) : Prop :=
  ∀ ns stop stop' ts behind, Dotted ts →
    Alike (Matches behind) (item ⟨ns, stop⟩ ts) (item ⟨ns, stop'⟩ (ts ++ behind))

theorem declaration_local {item : Item α} (limited : Local item) (dotted : Dotted ts) :
    Alike (Matches behind) (declaration ⟨ns, stop⟩ (item ⟨ns, stop⟩) ts)
      (declaration ⟨ns, stop'⟩ (item ⟨ns, stop'⟩) (ts ++ behind)) := by
  have start : (ts ++ behind).head? = ts.head? := by
    obtain ⟨t, rest, rfl⟩ := dotted.exists_cons
    rfl
  unfold declaration
  rw [start]
  split
  · refine (binding_local dotted).bind ?_
    rintro found ⟨_, last, rest, shorter⟩ ⟨rfl, rfl, rfl⟩
    exact .ok ⟨rfl, rfl, rfl⟩
  · refine (limited _ _ _ _ _ dotted).bind ?_
    rintro found ⟨_, last, rest, shorter⟩ ⟨rfl, rfl, rfl⟩
    exact .ok ⟨rfl, rfl, rfl⟩

end Stottr.Document

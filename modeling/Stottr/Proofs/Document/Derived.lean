import Stottr.Proofs.Document.Isolation
import Stottr.Proofs.Document.Proper

namespace Stottr

-- What a token spells out is valid: an IRI in full, the datatype of a literal or its language tag.
def TokenKind.wellFormed : TokenKind → Bool
  | .iri (.full text) | .literal _ (some (.datatype (.full text))) => (Iri.parse text).isOk
  | .literal lexical (some (.language tag)) => (Literal.tagged lexical tag).isOk
  | _ => true

namespace Document

variable {α : Type} {r : Reader} {ts : List Token}

-- Where a run of tokens is followed by these, reading takes the run, leaves them, and comes to the
-- value.
def Takes (item : (ts : List Token) → Result α ts) (run : List Token) (value : α)
    (rest : List Token) : Prop :=
  ∀ ts, ts = run ++ rest → ∃ one, item ts = .ok one ∧ one.value = value ∧ one.rest = rest

theorem resolve_of_resolves {name : WrittenIri} {iri : Iri}
    (resolved : Resolves r.namespaces name iri) (span : Text.Span) :
    r.resolve name span = .ok iri := by
  cases resolved with
  | full valid => rw [Reader.resolve, valid]
  | prefixed bound => rw [Reader.resolve, bound]

theorem literal_of_run {lexical : String} {tag : Option LiteralTag} {value : Literal}
    (run : LiteralRun r.namespaces lexical tag value) (span : Text.Span) :
    literal r lexical tag span = .ok value := by
  cases run with
  | plain => rfl
  | language valid => rw [literal, valid]
  | datatype resolved => exact bind_of_ok (resolve_of_resolves resolved span) _

theorem simpleTerm_of_atom {scope : Option (List Parameter)} {t : Token} {a : Argument}
    (meaning : Atom r.namespaces (scope.getD []) t.kind a) : simpleTerm r scope t = .ok a := by
  obtain ⟨kind, span⟩ := t
  cases meaning with
  | iri resolved => exact bind_of_ok (resolve_of_resolves resolved span) _
  | blank | integer | decimal => rfl
  | literal read => exact bind_of_ok (literal_of_run read span) _
  | word meaning => simp only [simpleTerm, meaning]
  | «variable» declared =>
    cases scope with
    | none => cases declared
    | some parameters =>
      rw [Option.getD_some] at declared
      simp only [simpleTerm, declared]

section Begins

variable {ns : Namespaces} {scope : List Parameter}

def BeginsWithout (kinds : List TokenKind) (ts : List Token) : Prop :=
  ∃ t rest, ts = t :: rest ∧ t.kind ∉ kinds

theorem BeginsWithout.mono {kinds fewer : List TokenKind} (begins : BeginsWithout kinds ts)
    (listed : fewer ⊆ kinds) : BeginsWithout fewer ts := by
  obtain ⟨t, rest, whole, other⟩ := begins
  exact ⟨t, rest, whole, fun member => other (listed member)⟩

theorem TermRun.begins {a : Argument} (run : TermRun ns scope ts a) :
    BeginsWithout [.closeParen, .plusPlus] ts := by
  cases run with
  | @atom t _ meaning =>
    refine ⟨t, [], rfl, ?_⟩
    generalize t.kind = kind at meaning
    cases meaning <;> simp
  | list opens => exact ⟨_, _, rfl, by rw [opens]; decide⟩

theorem ArgumentRun.begins {a : Argument} (run : ArgumentRun ns scope ts a) :
    BeginsWithout [.closeParen] ts := by
  cases run with
  | plain term =>
    obtain ⟨t, rest, whole, kind⟩ := term.begins
    exact ⟨t, rest, whole, fun listed => kind (List.mem_cons.mpr (.inl (by simpa using listed)))⟩
  | expand marked => exact ⟨_, _, rfl, by rw [marked]; decide⟩

theorem TypeRun.begins {type : ParamType} (run : TypeRun ns ts type) :
    ∃ t rest, ts = t :: rest ∧ opensType t.kind = true := by
  cases run with
  | named written => exact ⟨_, _, rfl, by rw [written]; rfl⟩
  | list opens | nonEmptyList opens => exact ⟨_, _, rfl, by rw [opens]; rfl⟩

theorem ParameterRun.begins {index : Nat} {p : Parameter} (run : ParameterRun ns index ts p) :
    BeginsWithout [.closeBracket] ts := by
  cases run with
  | parameter marked typed named value =>
    cases marked with
    | nonBlank mark | optional mark => exact ⟨_, _, rfl, by rw [mark]; decide⟩
    | done =>
      cases typed with
      | untyped => exact ⟨_, _, rfl, by simp [named]⟩
      | typed given =>
        obtain ⟨first, rest, rfl, opens⟩ := given.begins
        refine ⟨first, _, rfl, ?_⟩
        rintro closes
        rw [List.mem_singleton.mp closes] at opens
        cases opens

theorem NameRun.begins {iri : Iri} (run : NameRun ns ts iri) :
    ∃ t name, ts = [t] ∧ t.kind = .iri name := by
  cases run with
  | name written => exact ⟨_, _, rfl, written⟩

theorem CallRun.begins {inner : Call} (run : CallRun ns scope ts inner) :
    BeginsWithout [.closeBrace] ts := by
  cases run with
  | call moded named =>
    cases moded with
    | none =>
      obtain ⟨t, name, rfl, written⟩ := named.begins
      exact ⟨t, _, rfl, by simp [written]⟩
    | mode written => exact ⟨_, _, rfl, by simp [written]⟩

theorem TemplateRun.begins {t : Template} (run : TemplateRun ns ts t) :
    BeginsWithout [.prefixKeyword] ts := by
  cases run with
  | template named =>
    obtain ⟨first, name, rfl, written⟩ := named.begins
    exact ⟨first, _, rfl, by simp [written]⟩

theorem InstanceRun.begins {i : Instance} (run : InstanceRun ns ts i) :
    BeginsWithout [.prefixKeyword] ts := by
  cases run with
  | ground named =>
    obtain ⟨first, name, rfl, written⟩ := named.begins
    exact ⟨first, _, rfl, by simp [written]⟩

end Begins

theorem accept?_eq_none {kind : TokenKind} {t : Token} {rest : List Token} (other : t.kind ≠ kind)
    (spelled : ts = t :: rest) : accept? kind ts = none := by
  rw [spelled, accept?, if_neg other]

theorem accept?_takes {kind : TokenKind} {t : Token} {rest : List Token} (same : t.kind = kind)
    (spelled : ts = t :: rest) : ∃ found, accept? kind ts = some found ∧ found.rest = rest := by
  cases spelled
  exact ⟨.single () t rest, by rw [accept?, if_pos same], rfl⟩

theorem expectAs_takes {expected : Expected} {kind : TokenKind} {t : Token} {rest : List Token}
    (same : t.kind = kind) (spelled : ts = t :: rest) :
    ∃ found, r.expectAs expected kind ts = .ok found ∧ found.rest = rest := by
  obtain ⟨found, accepted, left⟩ := accept?_takes same spelled
  exact ⟨found, by rw [Reader.expectAs, accepted], left⟩

theorem expect_takes {kind : TokenKind} {t : Token} {rest : List Token} (same : t.kind = kind)
    (spelled : ts = t :: rest) : ∃ found, r.expect kind ts = .ok found ∧ found.rest = rest :=
  expectAs_takes same spelled

theorem separated_takes {close : TokenKind} {outer : List Token}
    {item : List α → (us : List Token) → us.length < outer.length → Result α us}
    {Item : List α → List Token → α → Prop} (notComma : close ≠ .comma)
    (each : ∀ found us a next rest, Item found us a → next.kind = .comma ∨ next.kind = close →
      ∀ ts (fewer : ts.length < outer.length), ts = us ++ next :: rest →
        ∃ one, item found ts fewer = .ok one ∧ one.value = a ∧ one.rest = next :: rest)
    (begins : ∀ found us a, Item found us a → BeginsWithout [close] us)
    {found all : List α} {front : List Token} (listed : Listed Item found front all)
    {closing : Token} (closes : closing.kind = close) {rest : List Token} {ts : List Token}
    (spelled : ts = front ++ closing :: rest) (within : ts.length < outer.length) :
    ∃ done, r.separated close outer item found ts within = .ok done ∧ done.value = all ∧
      done.rest = rest := by
  have notClosed : ∀ {found us a vs ts}, Item found us a → ts = us ++ vs →
      accept? close ts = none := by
    intro found us a vs ts one spelled
    obtain ⟨t, others, rfl, kind⟩ := begins _ _ _ one
    exact accept?_eq_none (by simpa using kind) spelled
  induction listed generalizing ts with
  | @stop found =>
    obtain ⟨stop, closed, left⟩ := accept?_takes closes spelled
    refine ⟨stop.map fun _ => found.reverse, ?_, rfl, left⟩
    rw [Reader.separated, closed]
  | @last found us a one =>
    obtain ⟨first, taken, value, left⟩ := each _ _ _ _ _ one (.inr closes) ts within spelled
    have noComma : accept? .comma first.rest = none :=
      accept?_eq_none (closes ▸ notComma) left
    obtain ⟨stop, closed, left⟩ := @expectAs_takes r _ (.commaOr close) _ _ _ closes left
    refine ⟨stop.after (first.value :: found).reverse (Nat.le_of_lt first.shorter), ?_, ?_, left⟩
    · rw [Reader.separated, notClosed one spelled]
      refine (bind_of_ok taken _).trans ?_
      rw [noComma]
      exact bind_of_ok closed _
    · rw [← value]
      rfl
  | @next found all us vs a comma one separator _ ih =>
    have spelled : ts = us ++ comma :: (vs ++ closing :: rest) := by simpa using spelled
    obtain ⟨first, taken, value, left⟩ := each _ _ _ _ _ one (.inl separator) ts within spelled
    obtain ⟨next, separates, left⟩ := accept?_takes separator left
    have shorter : next.rest.length < ts.length := Nat.lt_trans next.shorter first.shorter
    subst value
    obtain ⟨done, later, values, left⟩ := ih left (Nat.lt_trans shorter within)
    refine ⟨done.after done.value (Nat.le_of_lt shorter), ?_, values, left⟩
    rw [Reader.separated, notClosed one spelled]
    refine (bind_of_ok taken _).trans ?_
    rw [separates]
    exact bind_of_ok later _

theorem term_takes {scope : Option (List Parameter)} {run : List Token} {a : Argument}
    (spelled : TermRun r.namespaces (scope.getD []) run a) (rest : List Token) :
    Takes (term r scope) run a rest := by
  refine TermRun.induction (P := fun run a => ∀ rest, Takes (term r scope) run a rest)
    ?_ ?_ spelled rest
  · intro t a meaning rest ts whole
    have whole : ts = t :: rest := whole
    subst whole
    have notList : t.kind ≠ .openParen := by
      intro opens
      rw [opens] at meaning
      cases meaning
    refine ⟨.single a t rest, ?_, rfl, rfl⟩
    rw [term, if_neg notList]
    exact bind_of_ok (simpleTerm_of_atom meaning) _
  · intro opening closing us items opens closes inside rest ts whole
    have whole : ts = opening :: (us ++ closing :: rest) := by simpa using whole
    subst whole
    have fewer : (us ++ closing :: rest).length < (opening :: (us ++ closing :: rest)).length :=
      Nat.lt_succ_self _
    obtain ⟨done, read, values, left⟩ := separated_takes (r := r) (by decide)
      (fun _ _ _ _ _ one _ ts _ whole => one.2 _ ts whole)
      (fun _ _ _ one => by
        obtain ⟨t, others, whole, kind⟩ := one.1.begins
        exact ⟨t, others, whole, fun listed => kind (by simp [List.mem_singleton.mp listed])⟩)
      inside closes rfl fewer
    refine ⟨done.after (Argument.ofList done.value) (by simp), ?_, ?_, left⟩
    · rw [term, if_pos opens]
      exact bind_of_ok read _
    · rw [← values]
      rfl

theorem notMark_of_run {ns : Namespaces} {scope : List Parameter} {run rest : List Token}
    {a : Argument} (spelled : TermRun ns scope run a) (whole : ts = run ++ rest) :
    accept? .plusPlus ts = none := by
  obtain ⟨t, others, rfl, kind⟩ := spelled.begins
  exact accept?_eq_none (fun mark => kind (by simp [mark])) whole

theorem constant_takes {run : List Token} {value : Term}
    (spelled : ConstantRun r.namespaces run value) (rest : List Token) :
    Takes (constant r) run value rest := by
  intro ts whole
  obtain ⟨one, taken, concrete, left⟩ := @term_takes r none _ _ spelled rest ts whole
  refine ⟨one.map fun _ => value, ?_, rfl, left⟩
  rw [constant, notMark_of_run spelled whole]
  refine (bind_of_ok taken _).trans ?_
  rw [concrete]
  rfl

theorem argument_takes {scope : List Parameter} {run : List Token} {a : Argument}
    (spelled : ArgumentRun r.namespaces scope run a) (rest : List Token) :
    Takes (argument r scope) run a rest := by
  intro ts whole
  cases spelled with
  | plain term =>
    rw [argument, notMark_of_run term whole]
    exact @term_takes r (some scope) _ _ term rest ts whole
  | @expand mark run a marked term =>
    obtain ⟨found, accepted, left⟩ := accept?_takes marked whole
    obtain ⟨one, taken, value, left⟩ := @term_takes r (some scope) _ _ term rest _ left
    refine ⟨one.after (.expand one.value) (Nat.le_of_lt found.shorter), ?_, ?_, left⟩
    · rw [argument, accepted]
      exact bind_of_ok taken _
    · rw [← value]
      rfl

theorem element_takes {run rest : List Token} {element : ParamType} {closing : Token}
    (closes : closing.kind = .closeAngle)
    (takes : Takes (paramType r) run element (closing :: rest)) :
    ∃ (inner : Parsed ParamType (run ++ closing :: rest)) (close : Parsed Unit inner.rest),
      paramType r (run ++ closing :: rest) = .ok inner ∧ inner.value = element ∧
      r.expect .closeAngle inner.rest = .ok close ∧ close.rest = rest := by
  obtain ⟨inner, taken, value, left⟩ := takes _ rfl
  obtain ⟨close, closed, left⟩ := @expect_takes r _ _ _ _ closes left
  exact ⟨inner, close, taken, value, closed, left⟩

theorem element_within (opening : Token) (inner : Parsed α ts) :
    inner.rest.length ≤ (opening :: ts).length :=
  Nat.le_succ_of_le (Nat.le_of_lt inner.shorter)

theorem paramType_takes {run : List Token} {type : ParamType}
    (spelled : TypeRun r.namespaces run type) (rest : List Token) :
    Takes (paramType r) run type rest := by
  induction spelled generalizing rest with
  | @named t name iri type written resolved known =>
    intro ts whole
    have whole : ts = t :: rest := whole
    subst whole
    refine ⟨.single type t rest, ?_, rfl, rfl⟩
    simp only [paramType, written]
    refine (bind_of_ok (resolve_of_resolves resolved t.span) _).trans ?_
    rw [known]
  | @list opening closing run element opens closes _ ih =>
    intro ts whole
    have whole : ts = opening :: (run ++ closing :: rest) := by simpa using whole
    subst whole
    obtain ⟨inner, close, taken, rfl, closed, left⟩ := element_takes closes (ih (closing :: rest))
    refine ⟨close.after (.list inner.value) (element_within opening inner), ?_, rfl, left⟩
    simp only [paramType, opens]
    exact (bind_of_ok taken _).trans (bind_of_ok closed _)
  | @nonEmptyList opening closing run element opens closes _ ih =>
    intro ts whole
    have whole : ts = opening :: (run ++ closing :: rest) := by simpa using whole
    subst whole
    obtain ⟨inner, close, taken, rfl, closed, left⟩ := element_takes closes (ih (closing :: rest))
    refine ⟨close.after (.nonEmptyList inner.value) (element_within opening inner), ?_, rfl, left⟩
    simp only [paramType, opens]
    exact (bind_of_ok taken _).trans (bind_of_ok closed _)

-- The marks end where neither of the two follows.
theorem marks_takes {nonBlank optional marked omittable : Bool} {run : List Token}
    (spelled : MarksRun nonBlank optional run marked omittable) {next : Token} {rest : List Token}
    (notBang : next.kind ≠ .bang) (notQuestion : next.kind ≠ .question)
    (whole : ts = run ++ next :: rest) :
    ∃ found, marks nonBlank optional ts = .ok found ∧ found.nonBlank = marked ∧
      found.optional = omittable ∧ found.rest = next :: rest := by
  induction spelled generalizing ts with
  | @done nonBlank optional =>
    have whole : ts = next :: rest := whole
    subst whole
    refine ⟨⟨nonBlank, optional, next :: rest, Nat.le_refl _⟩, ?_, rfl, rfl, rfl⟩
    rw [marks, if_neg notBang, if_neg notQuestion]
  | @nonBlank optional marked omittable t run bang _ ih =>
    have whole : ts = t :: (run ++ next :: rest) := whole
    subst whole
    obtain ⟨found, read, first, second, left⟩ := ih rfl
    refine ⟨found.behind, ?_, first, second, left⟩
    rw [marks, if_pos bang]
    exact bind_of_ok read _
  | @optional nonBlank marked omittable t run question _ ih =>
    have whole : ts = t :: (run ++ next :: rest) := whole
    subst whole
    obtain ⟨found, read, first, second, left⟩ := ih rfl
    refine ⟨found.behind, ?_, first, second, left⟩
    rw [marks, if_neg (by rw [question]; decide), if_pos question]
    exact bind_of_ok read _

theorem typed_takes {run : List Token} {type : ParamType}
    (spelled : TypedRun r.namespaces run type) {next : Token} {name : String}
    (named : next.kind = .variable name) {rest : List Token} (whole : ts = run ++ next :: rest) :
    ∃ found, typed r ts = .ok found ∧ found.type = type ∧ found.rest = next :: rest := by
  cases spelled with
  | untyped =>
    subst whole
    refine ⟨⟨.resource, next :: rest, Nat.le_refl _⟩, ?_, rfl, rfl⟩
    simp [typed, named, opensType]
  | typed given =>
    obtain ⟨t, others, rfl, opens⟩ := given.begins
    obtain ⟨found, taken, value, left⟩ := paramType_takes given (next :: rest) ts whole
    refine ⟨⟨found.value, found.rest, Nat.le_of_lt found.shorter⟩, ?_, value, left⟩
    subst whole
    rw [typed, if_pos (by simpa using opens)]
    exact bind_of_ok taken _

theorem variableName_takes {t : Token} {name : String} (written : t.kind = .variable name)
    (rest : List Token) : Takes (variableName r) [t] name rest := by
  intro ts whole
  have whole : ts = t :: rest := whole
  subst whole
  refine ⟨.single name t rest, ?_, rfl, rfl⟩
  simp only [variableName, written]

theorem defaultValue_takes {run : List Token} {value : Term}
    (spelled : ConstantRun r.namespaces run value) (rest : List Token) :
    Takes (defaultValue r) run value rest := by
  intro ts whole
  obtain ⟨one, taken, value, left⟩ := constant_takes spelled rest ts whole
  exact ⟨one, by rw [defaultValue, taken], value, left⟩

theorem parameter_takes {index : Nat} {run : List Token} {p : Parameter}
    (spelled : ParameterRun r.namespaces index run p) {next : Token} {rest : List Token}
    (noDefault : next.kind ≠ .equals) : Takes (parameter r index) run p (next :: rest) := by
  intro ts whole
  cases spelled with
  | @parameter front types back t name type nonBlank optional default marking typing written given =>
    have split : ts = front ++ (types ++ t :: (back ++ next :: rest)) := by simpa using whole
    have read : ∃ marked, marks false false ts = .ok marked ∧ marked.nonBlank = nonBlank ∧
        marked.optional = optional ∧ marked.rest = types ++ t :: (back ++ next :: rest) := by
      cases typing with
      | untyped => exact marks_takes marking (by simp [written]) (by simp [written]) split
      | typed inside =>
        obtain ⟨first, others, rfl, opens⟩ := inside.begins
        refine marks_takes marking ?_ ?_ split
        · exact fun bang => by simp [bang, opensType] at opens
        · exact fun question => by simp [question, opensType] at opens
    obtain ⟨marked, isMarked, rfl, rfl, left⟩ := read
    obtain ⟨typed, isTyped, rfl, left⟩ := typed_takes typing written left
    obtain ⟨one, isNamed, rfl, left⟩ := variableName_takes (r := r) written _ _ left
    have inside : typed.rest <:+ ts := (typed_rest isTyped).trans (marks_rest isMarked)
    cases given with
    | none =>
      have noValue : accept? .equals one.rest = none := accept?_eq_none noDefault left
      have span : (r.here ts).through one.last = spanOf (front ++ types ++ [t]) :=
        ((variableName_ends isNamed).behind inside).through (by rw [left]; exact whole)
      refine ⟨⟨⟨one.value, index, typed.type, marked.nonBlank, marked.optional, none,
        (r.here ts).through one.last⟩, one.last, one.rest, ?_⟩, ?_, ?_, left⟩
      · exact Nat.lt_of_lt_of_le one.shorter (Nat.le_trans typed.within marked.within)
      · unfold parameter
        refine (bind_of_ok isMarked _).trans ((bind_of_ok isTyped _).trans ?_)
        refine (bind_of_ok isNamed _).trans ?_
        dsimp only
        rw [noValue]
      · rw [span]
    | @given equals back value assigned constant =>
      obtain ⟨sign, accepted, left⟩ := accept?_takes assigned left
      obtain ⟨held, taken, rfl, left⟩ := defaultValue_takes constant _ _ left
      have onward := ((accept?_rest accepted).trans (variableName_rest isNamed)).trans inside
      have ends := (constant_ends (constant_of_defaultValue taken)).behind onward
      have span : (r.here ts).through held.last = spanOf (front ++ types ++ t :: equals :: back) :=
        ends.through (by rw [left]; exact whole)
      refine ⟨held.after ⟨one.value, index, typed.type, marked.nonBlank, marked.optional,
        some held.value, (r.here ts).through held.last⟩ ?_, ?_, ?_, left⟩
      · exact Nat.le_of_lt (Nat.lt_trans sign.shorter
          (Nat.lt_of_lt_of_le one.shorter (Nat.le_trans typed.within marked.within)))
      · unfold parameter
        refine (bind_of_ok isMarked _).trans ((bind_of_ok isTyped _).trans ?_)
        refine (bind_of_ok isNamed _).trans ?_
        dsimp only
        rw [accepted]
        exact bind_of_ok taken _
      · rw [Parsed.after, span]

theorem newParameter_takes {earlier : List Parameter} {run : List Token} {p : Parameter}
    (spelled : NewParameterRun r.namespaces earlier run p) {next : Token} {rest : List Token}
    (noDefault : next.kind ≠ .equals) : Takes (newParameter r earlier) run p (next :: rest) := by
  intro ts whole
  obtain ⟨one, taken, rfl, left⟩ := parameter_takes spelled.1 noDefault ts whole
  refine ⟨one, ?_, rfl, left⟩
  refine (bind_of_ok taken _).trans ?_
  rw [if_neg (by simpa using spelled.2)]

-- Only a word can stand where a mode does, and a call without a mode begins with an IRI.
theorem moded_takes {run : List Token} {mode : Option ExpansionMode} (spelled : ModeRun run mode)
    {next : Token} {name : WrittenIri} (named : next.kind = .iri name) {rest : List Token}
    (whole : ts = run ++ next :: rest) :
    ∃ found, moded r ts = .ok found ∧ found.mode = mode ∧ found.rest = next :: rest := by
  cases spelled with
  | none =>
    subst whole
    cases rest with
    | nil => exact ⟨⟨none, [next], Nat.le_refl _⟩, rfl, rfl, rfl⟩
    | cons bar rest =>
      refine ⟨⟨none, next :: bar :: rest, Nat.le_refl _⟩, ?_, rfl, rfl⟩
      simp only [List.nil_append, moded, named]
  | @mode t bar word mode written piped known =>
    have whole : ts = t :: bar :: next :: rest := whole
    subst whole
    refine ⟨⟨some mode, next :: rest, Nat.le_trans (Nat.le_succ _) (Nat.le_succ _)⟩, ?_, rfl, rfl⟩
    simp only [moded, written, piped, known]

theorem name_takes {run : List Token} {iri : Iri} (spelled : NameRun r.namespaces run iri)
    (rest : List Token) : Takes r.name run iri rest := by
  intro ts whole
  cases spelled with
  | @name t name _ written resolved =>
    have whole : ts = t :: rest := whole
    subst whole
    refine ⟨.single iri t rest, ?_, rfl, rfl⟩
    simp only [Reader.name, written]
    exact bind_of_ok (resolve_of_resolves resolved t.span) _

theorem checkMode_of_agree {mode : Option ExpansionMode} {arguments : List Argument}
    (agree : mode.isSome = arguments.any Argument.isExpand) (span : Text.Span) :
    checkMode mode arguments span = .ok () := by
  unfold checkMode
  cases mode <;> rw [← agree] <;> rfl

theorem call_takes {scope : List Parameter} {run : List Token} {inner : Call}
    (spelled : CallRun r.namespaces scope run inner) (rest : List Token) :
    Takes (call r scope) run inner rest := by
  intro ts whole
  cases spelled with
  | @call front names us opening closing mode iri arguments moding naming opens closes given agree =>
    obtain ⟨first, name, rfl, written⟩ := naming.begins
    have split : ts = front ++ first :: (opening :: us ++ closing :: rest) := by
      simpa using whole
    obtain ⟨mode, isModed, rfl, left⟩ := @moded_takes r _ _ _ moding _ _ written _ split
    obtain ⟨template, isNamed, rfl, left⟩ := name_takes naming _ _ left
    obtain ⟨bracket, opened, left⟩ := @expect_takes r _ _ _ _ opens left
    have shorter : bracket.rest.length < ts.length :=
      Nat.lt_of_lt_of_le (Nat.lt_trans bracket.shorter template.shorter) mode.within
    obtain ⟨done, read, rfl, left⟩ := separated_takes (r := r) (by decide)
      (fun _ _ _ _ _ one _ ts _ whole => argument_takes one _ ts whole)
      (fun _ _ _ one => one.begins) given closes left shorter
    have onward := ((expect_rest opened).trans (name_rest isNamed)).trans (moded_rest isModed)
    have ends := (separated_ends (fun _ _ _ _ taken => argument_rest taken) read).behind onward
    have span : (r.here ts).through done.last = spanOf (front ++ [first] ++ opening :: us ++
        [closing]) := ends.through (by rw [left]; exact whole)
    refine ⟨done.after ⟨template.value, done.value, mode.mode, (r.here ts).through done.last⟩
      (Nat.le_of_lt shorter), ?_, ?_, left⟩
    · unfold call
      refine (bind_of_ok isModed _).trans ((bind_of_ok isNamed _).trans ?_)
      refine (bind_of_ok opened _).trans ((bind_of_ok read _).trans ?_)
      exact bind_of_ok (checkMode_of_agree agree _) _
    · rw [Parsed.after, span]

theorem template_takes {run : List Token} {t : Template}
    (spelled : TemplateRun r.namespaces run t) (rest : List Token) :
    Takes (template r) run t rest := by
  intro ts whole
  cases spelled with
  | @template names signature body opening closing colons begins ends dot iri parameters calls naming
      opens closes signed defined begun ended made stops =>
    have split : ts = names ++ (opening :: (signature ++ closing :: (colons :: (begins ::
        (body ++ ends :: (dot :: rest)))))) := by simpa using whole
    obtain ⟨name, isNamed, rfl, left⟩ := name_takes naming _ _ split
    obtain ⟨bracket, opened, left⟩ := @expect_takes r _ _ _ _ opens left
    obtain ⟨parameters, isSigned, rfl, left⟩ := @separated_takes Parameter r .closeBracket name.rest
      (fun earlier us _ => newParameter r earlier us) _ (by decide)
      (fun _ _ _ _ _ one next ts _ whole =>
        newParameter_takes one (by rcases next with next | next <;> rw [next] <;> decide) ts whole)
      (fun _ _ _ one => one.1.begins) _ _ _ signed _ closes _ _ left bracket.shorter
    obtain ⟨define, isDefined, left⟩ := @expect_takes r _ _ _ _ defined left
    obtain ⟨brace, isBegun, left⟩ := @expect_takes r _ _ _ _ begun left
    obtain ⟨calls, isMade, rfl, left⟩ := separated_takes (r := r) (by decide)
      (fun _ _ _ _ _ one _ ts _ whole => call_takes one _ ts whole)
      (fun _ _ _ one => one.begins) made ended left brace.shorter
    obtain ⟨stop, isEnded, last⟩ := @expect_takes r _ _ _ _ stops left
    have inside : calls.rest <:+ ts := by
      refine ⟨names ++ opening :: signature ++ closing :: colons :: begins :: body ++ [ends], ?_⟩
      rw [left, whole]
      simp
    have ending := (accept?_ends (accept?_of_expectAs isEnded)).behind inside
    have span : (r.here ts).through stop.last = spanOf (names ++ opening :: signature ++
        closing :: colons :: begins :: body ++ [ends, dot]) :=
      ending.through (by rw [last]; exact whole)
    have head := Nat.lt_trans parameters.shorter (Nat.lt_trans bracket.shorter name.shorter)
    have body := Nat.lt_trans calls.shorter (Nat.lt_trans brace.shorter define.shorter)
    refine ⟨stop.after ⟨name.value, parameters.value, .calls calls.value,
      (r.here ts).through stop.last⟩ (Nat.le_of_lt (Nat.lt_trans body head)), ?_, ?_, last⟩
    · unfold template
      refine (bind_of_ok isNamed _).trans ((bind_of_ok opened _).trans ?_)
      refine (bind_of_ok isSigned _).trans ((bind_of_ok isDefined _).trans ?_)
      refine (bind_of_ok isBegun _).trans ((bind_of_ok isMade _).trans ?_)
      exact bind_of_ok isEnded _
    · rw [Parsed.after, span]

theorem groundInstance_takes {run : List Token} {i : Instance}
    (spelled : InstanceRun r.namespaces run i) (rest : List Token) :
    Takes (groundInstance r) run i rest := by
  intro ts whole
  cases spelled with
  | @ground names us opening closing dot iri arguments naming opens closes given stops =>
    have split : ts = names ++ (opening :: (us ++ closing :: (dot :: rest))) := by
      simpa using whole
    obtain ⟨name, isNamed, rfl, left⟩ := name_takes naming _ _ split
    obtain ⟨bracket, opened, left⟩ := @expect_takes r _ _ _ _ opens left
    obtain ⟨done, read, rfl, left⟩ := separated_takes (r := r) (by decide)
      (fun _ _ _ _ _ one _ ts _ whole => constant_takes one _ ts whole)
      (fun _ _ _ one => (TermRun.begins one).mono (by simp)) given closes left bracket.shorter
    obtain ⟨stop, isEnded, last⟩ := @expect_takes r _ _ _ _ stops left
    have inside : done.rest <:+ ts := by
      refine ⟨names ++ opening :: us ++ [closing], ?_⟩
      rw [left, whole]
      simp
    have ending := (accept?_ends (accept?_of_expectAs isEnded)).behind inside
    have span : (r.here ts).through stop.last = spanOf (names ++ opening :: us ++
        [closing, dot]) := ending.through (by rw [last]; exact whole)
    have front := Nat.lt_trans done.shorter (Nat.lt_trans bracket.shorter name.shorter)
    refine ⟨stop.after ⟨name.value, done.value, (r.here ts).through stop.last⟩
      (Nat.le_of_lt front), ?_, ?_, last⟩
    · unfold groundInstance
      refine (bind_of_ok isNamed _).trans ((bind_of_ok opened _).trans ?_)
      exact (bind_of_ok read _).trans (bind_of_ok isEnded _)
    · rw [Parsed.after, span]

theorem prefixLabel_takes {t : Token} {label : String}
    (written : t.kind = .iri (.prefixed label "")) (rest : List Token) :
    Takes (prefixLabel r) [t] label rest := by
  intro ts whole
  have whole : ts = t :: rest := whole
  subst whole
  refine ⟨.single label t rest, ?_, rfl, rfl⟩
  simp only [prefixLabel, written]

theorem namespaceText_takes {t : Token} {space : String} (written : t.kind = .iri (.full space))
    (rest : List Token) : Takes (namespaceText r) [t] space rest := by
  intro ts whole
  have whole : ts = t :: rest := whole
  subst whole
  refine ⟨.single space t rest, ?_, rfl, rfl⟩
  simp only [namespaceText, written]

theorem binding_takes {run : List Token} {b : Binding} (spelled : BindingRun run b)
    (rest : List Token) : Takes (binding r) run b rest := by
  intro ts whole
  cases spelled with
  | binding begins named spaced stops =>
    obtain ⟨keyword, isBegun, left⟩ := @expect_takes r _ _ _ _ begins whole
    obtain ⟨label, isNamed, rfl, left⟩ := prefixLabel_takes (r := r) named _ _ left
    obtain ⟨space, isSpaced, rfl, left⟩ := namespaceText_takes (r := r) spaced _ _ left
    obtain ⟨dot, isEnded, left⟩ := @expect_takes r _ _ _ _ stops left
    have front := Nat.lt_trans space.shorter (Nat.lt_trans label.shorter keyword.shorter)
    refine ⟨dot.after ⟨label.value, space.value⟩ (Nat.le_of_lt front), ?_, rfl, left⟩
    unfold binding
    refine (bind_of_ok isBegun _).trans ((bind_of_ok isNamed _).trans ?_)
    exact (bind_of_ok isSpaced _).trans (bind_of_ok isEnded _)

section Texts

variable {item : Item α} {Run : Namespaces → List Token → α → Prop}

theorem declaration_takes {r : Reader}
    (each : ∀ us a rest, Run r.namespaces us a → Takes (item r) us a rest)
    (begins : ∀ us a, Run r.namespaces us a → BeginsWithout [.prefixKeyword] us)
    {front : List Token} {declared : Declared α}
    (spelled : DeclarationRun Run r.namespaces front declared) (rest : List Token) :
    Takes (declaration r (item r)) front declared rest := by
  intro ts whole
  cases spelled with
  | @binding b bound =>
    obtain ⟨one, taken, value, left⟩ := binding_takes (r := r) bound rest ts whole
    refine ⟨one.map .binding, ?_, congrArg Declared.binding value, left⟩
    have keyword : ts.head?.map Token.kind = some .prefixKeyword := by
      cases bound with
      | binding begins =>
        rw [whole]
        exact congrArg some begins
    rw [declaration, if_pos keyword]
    exact bind_of_ok taken _
  | @item a one =>
    obtain ⟨found, taken, rfl, left⟩ := each _ _ rest one ts whole
    refine ⟨found.map .item, ?_, rfl, left⟩
    have other : ts.head?.map Token.kind ≠ some .prefixKeyword := by
      obtain ⟨t, others, rfl, kind⟩ := begins _ _ one
      rw [whole]
      simpa using kind
    rw [declaration, if_neg other]
    exact bind_of_ok taken _

theorem ofTokens_of_declarations
    (each : ∀ r us a rest, Run r.namespaces us a → Takes (item r) us a rest)
    (begins : ∀ ns us a, Run ns us a → BeginsWithout [.prefixKeyword] us)
    (stop : Text.Span) {ns after : Namespaces} {items : List α}
    (run : Declarations Run ns ts items after) :
    ofTokens item stop ns ts = ⟨items, [], after⟩ := by
  have takes := fun ns => @declaration_takes α item Run ⟨ns, stop⟩ (each _) (begins _)
  induction run with
  | done => rw [ofTokens]
  | @binding ns after front rest b items bound _ ih =>
    obtain ⟨one, read, value, left⟩ := takes ns (.binding bound) rest _ rfl
    rw [ofTokens_ok read, value, left, ofDeclared, ih]
    rfl
  | @item ns after front rest a items one _ ih =>
    obtain ⟨found, read, value, left⟩ := takes ns (.item one) rest _ rfl
    rw [ofTokens_ok read, value, left, ofDeclared, ih]
    rfl

theorem ofTokens_iff_declarations
    (run : ∀ r us (one : Parsed α us), item r us = .ok one → Spelled (Run r.namespaces) one)
    (takes : ∀ r us a rest, Run r.namespaces us a → Takes (item r) us a rest)
    (begins : ∀ ns us a, Run ns us a → BeginsWithout [.prefixKeyword] us) {stop : Text.Span}
    {ns after : Namespaces} {items : List α} :
    ofTokens item stop ns ts = ⟨items, [], after⟩ ↔ Declarations Run ns ts items after := by
  constructor
  · intro accepted
    have derived := ofTokens_declarations run stop ns ts (by rw [accepted])
    rwa [accepted] at derived
  · exact ofTokens_of_declarations takes begins stop

theorem read_iff_declarations
    (run : ∀ r us (one : Parsed α us), item r us = .ok one → Spelled (Run r.namespaces) one)
    (takes : ∀ r us a rest, Run r.namespaces us a → Takes (item r) us a rest)
    (begins : ∀ ns us a, Run ns us a → BeginsWithout [.prefixKeyword] us)
    {ns after : Namespaces} {text : String} {items : List α} :
    read item ns text = ⟨.ok items, after⟩ ↔ ∃ stream, Token.scan text = .ok stream ∧
      Declarations Run ns stream.tokens items after := by
  constructor
  · intro accepted
    have outcome : (read item ns text).outcome = .ok items := by rw [accepted]
    obtain ⟨stream, scanned, derived⟩ := read_declarations run outcome
    rw [accepted] at derived
    exact ⟨stream, scanned, derived⟩
  · rintro ⟨stream, scanned, derived⟩
    rw [read_of_scan scanned, ofStream, (ofTokens_iff_declarations run takes begins).mpr derived]
    rfl

end Texts

section WellFormed

variable {ns : Namespaces} {scope : List Parameter}

def WellFormed (ts : List Token) : Prop := ∀ t ∈ ts, t.kind.wellFormed = true

-- Tokens that prefix declarations can stand between: what they spell out is valid, and none of them
-- begins such a declaration.
def Inner (ts : List Token) : Prop :=
  ∀ t ∈ ts, t.kind.wellFormed = true ∧ t.kind ≠ .prefixKeyword

@[simp] theorem inner_nil : Inner [] := nofun

@[simp] theorem inner_cons (t : Token) (ts : List Token) :
    Inner (t :: ts) ↔ (t.kind.wellFormed = true ∧ t.kind ≠ .prefixKeyword) ∧ Inner ts :=
  List.forall_mem_cons

@[simp] theorem inner_append (ts us : List Token) : Inner (ts ++ us) ↔ Inner ts ∧ Inner us :=
  List.forall_mem_append

theorem Resolves.wellFormed {name : WrittenIri} {iri : Iri} (resolved : Resolves ns name iri) :
    (TokenKind.iri name).wellFormed = true := by
  cases resolved with
  | full valid => rw [TokenKind.wellFormed, valid]; rfl
  | prefixed => rfl

theorem LiteralRun.wellFormed {lexical : String} {tag : Option LiteralTag} {value : Literal}
    (run : LiteralRun ns lexical tag value) : (TokenKind.literal lexical tag).wellFormed = true := by
  cases run with
  | plain => rfl
  | language valid => rw [TokenKind.wellFormed, valid]; rfl
  | @datatype name iri resolved =>
    cases name with
    | full text => exact resolved.wellFormed
    | prefixed => rfl

theorem Listed.inner {Item : List α → List Token → α → Prop} {found all : List α}
    (listed : Listed Item found ts all)
    (each : ∀ found us a, Item found us a → Inner us) : Inner ts := by
  refine listed.run (P := Inner) inner_nil each ?_
  intro us vs comma separator one others
  simp [one, others, separator, TokenKind.wellFormed]

theorem TermRun.inner {a : Argument} (run : TermRun ns scope ts a) : Inner ts := by
  refine TermRun.induction (P := fun ts _ => Inner ts) ?_ ?_ run
  · intro t a meaning
    refine List.forall_mem_singleton.mpr ?_
    generalize t.kind = kind at meaning
    cases meaning with
    | iri resolved => exact ⟨resolved.wellFormed, nofun⟩
    | literal read => exact ⟨read.wellFormed, nofun⟩
    | blank | integer | decimal | word | «variable» => exact ⟨rfl, nofun⟩
  · intro opening closing ts items opens closes inside
    simp [opens, closes, inside.inner fun _ _ _ one => one.2, TokenKind.wellFormed]

theorem ArgumentRun.inner {a : Argument} (run : ArgumentRun ns scope ts a) : Inner ts := by
  cases run with
  | plain term => exact term.inner
  | expand marked term => simp [marked, term.inner, TokenKind.wellFormed]

theorem TypeRun.inner {type : ParamType} (run : TypeRun ns ts type) : Inner ts := by
  induction run with
  | named written resolved => simp [written, resolved.wellFormed]
  | list opens closes _ ih | nonEmptyList opens closes _ ih =>
    simp [opens, closes, ih, TokenKind.wellFormed]

theorem MarksRun.inner {nonBlank optional marked omittable : Bool}
    (run : MarksRun nonBlank optional ts marked omittable) : Inner ts := by
  induction run with
  | done => exact inner_nil
  | nonBlank mark _ ih | optional mark _ ih => simp [mark, ih, TokenKind.wellFormed]

theorem ParameterRun.inner {index : Nat} {p : Parameter} (run : ParameterRun ns index ts p) :
    Inner ts := by
  cases run with
  | @parameter front types back t name type nonBlank optional default marked typed named value =>
    have typing : Inner types := by
      cases typed with
      | untyped => exact inner_nil
      | typed given => exact given.inner
    have constant : Inner back := by
      cases value with
      | none => exact inner_nil
      | given assigned constant =>
        simp [assigned, TermRun.inner constant, TokenKind.wellFormed]
    simp [marked.inner, typing, named, constant, TokenKind.wellFormed]

theorem NameRun.inner {iri : Iri} (run : NameRun ns ts iri) : Inner ts := by
  cases run with
  | name written resolved => simp [written, resolved.wellFormed]

theorem CallRun.inner {inner : Call} (run : CallRun ns scope ts inner) : Inner ts := by
  cases run with
  | @call front names us opening closing mode iri arguments moded named opens closes given =>
    have moding : Inner front := by
      cases moded with
      | none => exact inner_nil
      | mode written piped => simp [written, piped, TokenKind.wellFormed]
    simp [moding, named.inner, opens, closes, given.inner fun _ _ _ one => one.inner,
      TokenKind.wellFormed]

theorem TemplateRun.inner {t : Template} (run : TemplateRun ns ts t) : Inner ts := by
  cases run with
  | template named opens closes signed defined begun ended made stops =>
    have head := signed.inner fun _ _ _ one => one.1.inner
    have body := made.inner fun _ _ _ one => one.inner
    simp [named.inner, opens, closes, defined, begun, ended, stops, head, body,
      TokenKind.wellFormed]

def Spaces (ts : List Token) (t : Token) : Prop :=
  ∃ keyword name dot b, BindingRun [keyword, name, t, dot] b ∧ [keyword, name, t, dot] <:+: ts

theorem Spaces.behind {front rest : List Token} {t : Token} (spaces : Spaces rest t) :
    Spaces (front ++ rest) t := by
  obtain ⟨keyword, name, dot, b, bound, inside⟩ := spaces
  exact ⟨keyword, name, dot, b, bound, inside.trans (List.suffix_append front rest).isInfix⟩

theorem InstanceRun.inner {i : Instance} (run : InstanceRun ns ts i) : Inner ts := by
  cases run with
  | ground named opens closes given stops =>
    have inside := given.inner fun _ _ _ one => TermRun.inner one
    simp [named.inner, opens, closes, stops, inside, TokenKind.wellFormed]

theorem Declarations.wellFormed_or_spaces {Run : Namespaces → List Token → α → Prop}
    (each : ∀ ns us a, Run ns us a → WellFormed us) {after : Namespaces} {items : List α}
    (run : Declarations Run ns ts items after) :
    ∀ t ∈ ts, t.kind.wellFormed = true ∨ Spaces ts t := by
  induction run with
  | done => exact nofun
  | @binding ns after front rest b items bound _ ih =>
    refine List.forall_mem_append.mpr ⟨?_, fun t member => (ih t member).imp_right .behind⟩
    have whole := bound
    cases bound with
    | @binding keyword name space dot label text begins named spaced stops =>
      simp only [List.forall_mem_cons]
      refine ⟨.inl (by rw [begins]; rfl), .inl (by rw [named]; rfl), .inr ?_,
        .inl (by rw [stops]; rfl), List.forall_mem_nil _⟩
      exact ⟨keyword, name, dot, _, whole, (List.prefix_append _ rest).isInfix⟩
  | item one _ ih =>
    refine List.forall_mem_append.mpr ⟨?_, fun t member => (ih t member).imp_right .behind⟩
    exact fun t member => .inl (each _ _ _ one t member)

theorem Declarations.wellFormed {after : Namespaces} {items : List Template}
    (run : Declarations TemplateRun ns ts items after) :
    ∀ t ∈ ts, t.kind.wellFormed = true ∨ Spaces ts t :=
  run.wellFormed_or_spaces fun _ _ _ one t member => (one.inner t member).1

end WellFormed

-- The grammar decides what is accepted and what the templates of an accepted text are. Of what the
-- tokens spell out only the namespaces of prefix declarations need not be valid.
theorem templates_iff_derived (stop : Text.Span) (ns after : Namespaces) (ts : List Token)
    (items : List Template) :
    (ofTokens template stop ns ts = ⟨items, [], after⟩ ↔
      Declarations TemplateRun ns ts items after) ∧
    (Declarations TemplateRun ns ts items after →
      ∀ t ∈ ts, t.kind.wellFormed = true ∨ Spaces ts t) ∧
    ∀ text, templates ns text = ⟨.ok items, after⟩ ↔
      ∃ stream, Token.scan text = .ok stream ∧
        Declarations TemplateRun ns stream.tokens items after := by
  have tokens : ∀ stop ts, ofTokens template stop ns ts = ⟨items, [], after⟩ ↔
      Declarations TemplateRun ns ts items after := by
    intro stop ts
    refine ⟨?_, ofTokens_of_declarations (fun _ _ _ rest run => template_takes run rest)
      (fun _ _ _ run => run.begins) stop⟩
    intro accepted
    have derived := @ofTokens_declarations _ _ TemplateRun
      (fun _ _ _ taken => template_run taken) stop ns ts (by rw [accepted])
    rwa [accepted] at derived
  refine ⟨tokens stop ts, fun run => run.wellFormed, fun text => ⟨?_, ?_⟩⟩
  · intro accepted
    obtain ⟨stream, scanned, run⟩ := @templates_declarations ns text items (by rw [accepted])
    rw [accepted] at run
    exact ⟨stream, scanned, run⟩
  · rintro ⟨stream, scanned, run⟩
    rw [templates, read, scanned]
    dsimp only
    rw [(tokens _ _).mpr run]
    rfl

-- Both marks, a default, both trailing commas, a mode with what it expands, and a language tag.
def manifold : String :=
  "@prefix ex: <http://e/> . ex:A[ ? ! List<ottr:IRI> ?x = (<u:d>), ?y, ] :: " ++
    "\x7b cross | ex:B(++?x, \"a\"@en), \x7d ."

theorem templates_iff_derived_manifold :
    ∃ t stream after, templates Namespaces.standard manifold = ⟨.ok [t], after⟩ ∧
      Token.scan manifold = .ok stream ∧
      Declarations TemplateRun Namespaces.standard stream.tokens [t] after ∧
      t.iri = ⟨"http://e/A"⟩ ∧
      t.parameters = [⟨"x", 0, .list .iri, true, true, some (.list [.iri ⟨"u:d"⟩]), ⟨32, 63, 1, 33⟩⟩,
        ⟨"y", 1, .resource, false, false, none, ⟨65, 67, 1, 66⟩⟩] ∧
      t.calls.map (fun inner => (inner.mode, inner.span)) = [(some .cross, ⟨76, 102, 1, 77⟩)] ∧
      ∀ token ∈ stream.tokens, token.kind.wellFormed = true ∨ Spaces stream.tokens token := by
  have named : (templates Namespaces.standard manifold).outcome.toOption.map
      (List.map Template.iri) = some [⟨"http://e/A"⟩] := by decide +kernel
  have signed : (templates Namespaces.standard manifold).outcome.toOption.map
      (List.map Template.parameters) =
        some [[⟨"x", 0, .list .iri, true, true, some (.list [.iri ⟨"u:d"⟩]), ⟨32, 63, 1, 33⟩⟩,
          ⟨"y", 1, .resource, false, false, none, ⟨65, 67, 1, 66⟩⟩]] := by decide +kernel
  have moded : (templates Namespaces.standard manifold).outcome.toOption.map
      (List.map fun t => t.calls.map fun inner => (inner.mode, inner.span)) =
        some [[(some .cross, ⟨76, 102, 1, 77⟩)]] := by decide +kernel
  obtain ⟨items, accepted, same⟩ := Option.map_eq_some_iff.mp named
  obtain ⟨t, rfl, iri⟩ := List.map_eq_singleton_iff.mp same
  rw [accepted] at signed moded
  have reading : templates Namespaces.standard manifold =
      ⟨.ok [t], (templates Namespaces.standard manifold).namespaces⟩ := by
    rw [← ok_of_toOption accepted]
  obtain ⟨stream, scanned, run⟩ :=
    ((templates_iff_derived .nowhere _ _ [] [t]).2.2 manifold).mp reading
  refine ⟨t, stream, _, reading, scanned, run, iri, ?_, ?_,
    (templates_iff_derived .nowhere _ _ _ _).2.1 run⟩
  · exact List.singleton_inj.mp (Option.some.inj signed)
  · exact List.singleton_inj.mp (Option.some.inj moded)

def unchecked : String := "@prefix ex: <rel/> .\nex:A[ ?x ] :: \x7b \x7d ."

theorem not_templates_iff_wellFormed :
    ¬∀ (ns : Namespaces) (text : String) (stream : TokenStream), Token.scan text = .ok stream →
      ((∃ items after, templates ns text = ⟨.ok items, after⟩) ↔
        (∃ items after, Declarations TemplateRun ns stream.tokens items after) ∧
          WellFormed stream.tokens) := by
  intro claimed
  have named : (templates Namespaces.standard unchecked).outcome.toOption.map
      (List.map Template.iri) = some [⟨"rel/A"⟩] := by decide +kernel
  have defective : (Token.scan unchecked).toOption.map
      (fun stream => stream.tokens.all fun t => t.kind.wellFormed) = some false := by decide +kernel
  obtain ⟨items, accepted, -⟩ := Option.map_eq_some_iff.mp named
  obtain ⟨stream, scanned, refused⟩ := Option.map_eq_some_iff.mp defective
  have reading : templates Namespaces.standard unchecked =
      ⟨.ok items, (templates Namespaces.standard unchecked).namespaces⟩ := by
    rw [← ok_of_toOption accepted]
  obtain ⟨-, valid⟩ := (claimed _ _ stream (ok_of_toOption scanned)).mp ⟨items, _, reading⟩
  rw [List.all_eq_true.mpr valid] at refused
  cases refused

end Document

end Stottr

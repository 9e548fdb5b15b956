import Stottr.Proofs.Document.Unplaced

namespace Stottr.Document

variable {α : Type} {ns after : Namespaces} {b : Binding}
  {line ts us front rest behind : List Token}

-- Tokens some of whose prefixed names are written out, outside the prefix declarations. Where the
-- tokens stand does not matter.
inductive WrittenOut : Namespaces → List Token → List Token → Prop where
  | done {ns : Namespaces} : WrittenOut ns [] []
  | binding {ns : Namespaces} {line line' rest rest' : List Token} {b : Binding}
    (bound : BindingRun line b) (same : SameKinds line line')
    (others : WrittenOut (ns.bind b.label b.space) rest rest') :
    WrittenOut ns (line ++ rest) (line' ++ rest')
  | token {ns : Namespaces} {t u : Token} {rest rest' : List Token}
    (inner : t.kind ≠ .prefixKeyword) (spells : Spells ns t.kind u.kind)
    (others : WrittenOut ns rest rest') : WrittenOut ns (t :: rest) (u :: rest')

theorem BindingRun.exists_cons (run : BindingRun line b) :
    ∃ keyword others, line = keyword :: others ∧ keyword.kind = .prefixKeyword ∧
      ∀ t ∈ others, t.kind ≠ .prefixKeyword := by
  cases run with
  | binding begins named spaced stops =>
    exact ⟨_, _, rfl, begins, by simp [named, spaced, stops]⟩

theorem BindingRun.unique {b' : Binding} {line' rest' : List Token} (run : BindingRun line b)
    (run' : BindingRun line' b') (same : line ++ rest = line' ++ rest') :
    b = b' ∧ rest = rest' := by
  cases run with
  | binding begins named spaced stops =>
    cases run' with
    | binding begins' named' spaced' stops' =>
      simp only [List.cons_append, List.nil_append, List.cons.injEq] at same
      obtain ⟨-, rfl, rfl, -, rest⟩ := same
      cases named.symm.trans named'
      cases spaced.symm.trans spaced'
      exact ⟨rfl, rest⟩

namespace WrittenOut

theorem nil (written : WrittenOut ns [] us) : us = [] := by
  generalize whole : ([] : List Token) = ts at written
  cases written with
  | done => rfl
  | binding bound =>
    obtain ⟨keyword, others, rfl, -⟩ := bound.exists_cons
    cases whole
  | token => cases whole

theorem behind_binding (bound : BindingRun line b) (written : WrittenOut ns (line ++ rest) us) :
    ∃ line' rest', us = line' ++ rest' ∧ SameKinds line line' ∧
      WrittenOut (ns.bind b.label b.space) rest rest' := by
  generalize whole : line ++ rest = ts at written
  cases written with
  | done =>
    obtain ⟨keyword, others, rfl, -⟩ := bound.exists_cons
    cases whole
  | @binding _ line₁ line' rest₁ rest' b₁ bound' same others =>
    obtain ⟨rfl, rfl⟩ := bound.unique bound' whole
    rw [List.append_cancel_right whole]
    exact ⟨line', rest', rfl, same, others⟩
  | token inner =>
    obtain ⟨keyword, others, rfl, begins, -⟩ := bound.exists_cons
    cases whole
    exact absurd begins inner

theorem behind_item (free : ∀ t ∈ front, t.kind ≠ .prefixKeyword)
    (written : WrittenOut ns (front ++ rest) us) :
    ∃ front' rest', us = front' ++ rest' ∧
      Respelled ns (fun _ => .nowhere) (fun _ => .nowhere) front front' ∧
      WrittenOut ns rest rest' := by
  induction front generalizing us with
  | nil => exact ⟨[], us, rfl, List.Forall₂.nil, written⟩
  | cons t front ih =>
    obtain ⟨plain, free⟩ := List.forall_mem_cons.mp free
    generalize whole : t :: front ++ rest = ts at written
    cases written with
    | done => cases whole
    | binding bound =>
      obtain ⟨keyword, others, rfl, begins, -⟩ := bound.exists_cons
      rw [List.cons_append, List.cons_append, List.cons.injEq] at whole
      exact absurd begins (whole.1 ▸ plain)
    | token inner spells others =>
      cases whole
      obtain ⟨front', rest', rfl, same, left⟩ := ih free others
      exact ⟨_, rest', rfl, List.Forall₂.cons ⟨spells, rfl⟩ same, left⟩

end WrittenOut

section Declarations

variable {Run : Namespaces → List Token → α → Prop} {f : α → α} {items : List α}

theorem Declarations.writtenOut (run : Declarations Run ns ts items after)
    (inner : ∀ ns us a, Run ns us a → Inner us)
    (each : ∀ {ns ts us a}, Respelled ns (fun _ => .nowhere) (fun _ => .nowhere) ts us →
      Run ns ts a → ∃ b, Run ns us b ∧ f b = f a) (written : WrittenOut ns ts us) :
    ∃ items', Declarations Run ns us items' after ∧ items'.map f = items.map f := by
  induction run generalizing us with
  | done =>
    rw [written.nil]
    exact ⟨[], .done, rfl⟩
  | binding bound _ ih =>
    obtain ⟨line', rest', rfl, same, left⟩ := written.behind_binding bound
    obtain ⟨items', others, alike⟩ := ih left
    exact ⟨items', .binding (bound.relaid same) others, alike⟩
  | item one _ ih =>
    obtain ⟨front', rest', rfl, same, left⟩ :=
      written.behind_item fun t member => (inner _ _ _ one t member).2
    obtain ⟨a', one', alikeOne⟩ := each same one
    obtain ⟨items', others, alike⟩ := ih left
    exact ⟨a' :: items', .item one' others, congrArg₂ List.cons alikeOne alike⟩

theorem front_of_free {next : Token} (free : ∀ t ∈ ts, t.kind ≠ next.kind)
    (whole : ts ++ rest = front ++ next :: behind) :
    ∃ between, front = ts ++ between ∧ rest = between ++ next :: behind := by
  rcases List.append_eq_append_iff.mp whole with ⟨between, longer, left⟩ | ⟨between, longer, left⟩
  · exact ⟨between, longer, left⟩
  · cases between with
    | nil => exact ⟨[], by simpa using longer.symm, by simpa using left.symm⟩
    | cons t between =>
      cases left
      exact absurd rfl (free next (by simp [longer]))

theorem Declarations.split (run : Declarations Run ns ts items after)
    (inner : ∀ ns us a, Run ns us a → Inner us) (bound : BindingRun line b)
    (whole : ts = front ++ (line ++ behind)) :
    ∃ earlier later here, Declarations Run ns front earlier here ∧
      Declarations Run (here.bind b.label b.space) behind later after ∧
      items = earlier ++ later := by
  obtain ⟨keyword, others, spelled, begins, -⟩ := bound.exists_cons
  induction run generalizing front with
  | done => simp [spelled] at whole
  | @binding ns after line₁ rest b₁ items bound' declared ih =>
    cases front with
    | nil =>
      obtain ⟨rfl, rfl⟩ := bound'.unique bound whole
      exact ⟨[], items, ns, .done, declared, rfl⟩
    | cons t front =>
      obtain ⟨keyword', others', rfl, -, free⟩ := bound'.exists_cons
      rw [spelled, List.cons_append, List.cons_append, List.cons_append, List.cons.injEq] at whole
      obtain ⟨rfl, whole⟩ := whole
      obtain ⟨between, rfl, left⟩ := front_of_free (begins ▸ free) whole
      obtain ⟨earlier, later, here, before, next, rfl⟩ := ih (left.trans (by rw [spelled]; rfl))
      exact ⟨earlier, later, here, .binding bound' before, next, rfl⟩
  | @item ns after run₁ rest a items one _ ih =>
    have free := fun t member => (inner _ _ _ one t member).2
    rw [spelled, List.cons_append] at whole
    obtain ⟨between, rfl, left⟩ := front_of_free (begins ▸ free) whole
    obtain ⟨earlier, later, here, before, next, rfl⟩ := ih (left.trans (by rw [spelled]; rfl))
    exact ⟨a :: earlier, later, here, .item one before, next, rfl⟩

end Declarations

-- What holds of tokens that are accepted: names may be written out, and what stands in front of a
-- prefix declaration is read as if the text ended there.
structure Abbreviated (item : Item α) (f : α → α) (ns : Namespaces) (ts : List Token)
    (items : List α) (after : Namespaces) : Prop where
  writtenOut : ∀ us, WrittenOut ns ts us → ∀ stop, ∃ items',
    ofTokens item stop ns us = ⟨items', [], after⟩ ∧ items'.map f = items.map f
  earlier : ∀ front line behind b, ts = front ++ (line ++ behind) → BindingRun line b →
    ∃ before later here, (∀ stop, ofTokens item stop ns front = ⟨before, [], here⟩) ∧
      (∀ stop, ofTokens item stop (here.bind b.label b.space) behind = ⟨later, [], after⟩) ∧
      items = before ++ later

theorem Grammar.abbreviated {item : Item α} {Run : Namespaces → List Token → α → Prop} {f : α → α}
    (grammar : Grammar item Run)
    (each : ∀ {ns ts us a}, Respelled ns (fun _ => .nowhere) (fun _ => .nowhere) ts us →
      Run ns ts a → ∃ b, Run ns us b ∧ f b = f a) {stop : Text.Span} {items : List α}
    (accepted : ofTokens item stop ns ts = ⟨items, [], after⟩) :
    Abbreviated item f ns ts items after := by
  have run := grammar.ofTokens_iff.mp accepted
  refine ⟨?_, ?_⟩
  · intro us written stop
    obtain ⟨items', run', alike⟩ := run.writtenOut grammar.inner each written
    exact ⟨items', grammar.ofTokens_iff.mpr run', alike⟩
  · intro front line behind b whole bound
    obtain ⟨before, later, here, first, next, split⟩ := run.split grammar.inner bound whole
    exact ⟨before, later, here, fun _ => grammar.ofTokens_iff.mpr first,
      fun _ => grammar.ofTokens_iff.mpr next, split⟩

-- Prefixed names are abbreviations and nothing else, in templates and in instances.
theorem names_abbreviate (stop : Text.Span) (ns after : Namespaces) (ts : List Token) :
    (∀ items, ofTokens template stop ns ts = ⟨items, [], after⟩ →
      Abbreviated template Template.unplaced ns ts items after) ∧
    ∀ items, ofTokens groundInstance stop ns ts = ⟨items, [], after⟩ →
      Abbreviated groundInstance Instance.unplaced ns ts items after := by
  refine ⟨fun items accepted => ?_, fun items accepted => ?_⟩
  · refine template_grammar.abbreviated (fun same run => ?_) accepted
    simp only [Template.unplaced_eq]
    exact run.respelled joins_nowhere joins_nowhere same
  · refine groundInstance_grammar.abbreviated (fun same run => ?_) accepted
    exact run.respelled joins_nowhere joins_nowhere same

-- Two templates whose names are written alike if they are abbreviated, with the prefix bound anew
-- between them.
def rebinding (first type datatype second : WrittenIri) : List Token :=
  let kinds : List TokenKind := [.iri first, .openBracket, .iri type, .variable "x", .equals,
    .literal "1" (some (.datatype datatype)), .closeBracket, .doubleColon, .openBrace, .closeBrace,
    .dot, .prefixKeyword, .iri (.prefixed "p" ""), .iri (.full "v:"), .dot, .iri second,
    .openBracket, .closeBracket, .doubleColon, .openBrace, .closeBrace, .dot]
  kinds.map fun kind => ⟨kind, .nowhere⟩

def abbreviated : List Token :=
  rebinding (.prefixed "p" "A") (.prefixed "xsd" "int") (.prefixed "p" "t") (.prefixed "p" "A")

def unabbreviated : List Token :=
  rebinding (.full "u:A") (.full "http://www.w3.org/2001/XMLSchema#int") (.full "u:t")
    (.full "v:A")

theorem writtenOut_unabbreviated :
    WrittenOut (Namespaces.standard.bind "p" "u:") abbreviated unabbreviated := by
  have keep {ns : Namespaces} {t : Token} {rest rest' : List Token} (other : t.kind ≠ .prefixKeyword)
      (others : WrittenOut ns rest rest') : WrittenOut ns (t :: rest) (t :: rest') :=
    .token other (.same _) others
  have name {ns : Namespaces} {label name text : String} (bound : ns.resolve label name = some ⟨text⟩)
      (valid : Iri.parse text = .ok ⟨text⟩) : Rewrites ns (.prefixed label name) (.full text) :=
    .full bound valid
  refine .token nofun (.iri (name (by decide +kernel) (by decide +kernel))) (keep nofun ?_)
  refine .token nofun (.iri (name (by decide +kernel) (by decide +kernel))) ?_
  refine keep nofun (keep nofun ?_)
  refine .token nofun (.datatype (name (by decide +kernel) (by decide +kernel))) ?_
  refine keep nofun (keep nofun (keep nofun (keep nofun (keep nofun ?_))))
  refine WrittenOut.binding (b := ⟨"p", "v:"⟩) (.binding rfl rfl rfl rfl) rfl ?_
  refine .token nofun (.iri (name (by decide +kernel) (by decide +kernel))) ?_
  exact keep nofun (keep nofun (keep nofun (keep nofun (keep nofun (keep nofun .done)))))

theorem names_abbreviate_rebinding :
    let ns := Namespaces.standard.bind "p" "u:"
    ∃ items after, ofTokens template .nowhere ns abbreviated = ⟨items, [], after⟩ ∧
      items.map Template.iri = [⟨"u:A"⟩, ⟨"v:A"⟩] ∧
      Abbreviated template Template.unplaced ns abbreviated items after ∧
      ∃ items', ofTokens template .nowhere ns unabbreviated = ⟨items', [], after⟩ ∧
        items'.map Template.unplaced = items.map Template.unplaced := by
  intro ns
  have computed : (ofTokens template .nowhere ns abbreviated).errors = [] ∧
      (ofTokens template .nowhere ns abbreviated).items.map Template.iri =
        [⟨"u:A"⟩, ⟨"v:A"⟩] := by decide +kernel
  obtain ⟨clean, named⟩ := computed
  have accepted : ofTokens template .nowhere ns abbreviated =
      ⟨(ofTokens template .nowhere ns abbreviated).items, [],
        (ofTokens template .nowhere ns abbreviated).namespaces⟩ := by rw [← clean]
  have pure := (names_abbreviate .nowhere ns _ abbreviated).1 _ accepted
  exact ⟨_, _, accepted, named, pure, pure.writtenOut _ writtenOut_unabbreviated .nowhere⟩

end Stottr.Document

import Stottr.Proofs.Document.Anchored

namespace Stottr.Document

variable {r : Reader} {ts : List Token}

theorem accept?_rest {kind : TokenKind} {found : Parsed Unit ts}
    (accepted : accept? kind ts = some found) : found.rest <:+ ts := by
  obtain ⟨t, rest, same, -, -, left⟩ := accept?_eq_some accepted
  rw [left, same]
  exact List.suffix_cons t rest

theorem expect_rest {kind : TokenKind} {found : Parsed Unit ts}
    (read : r.expect kind ts = .ok found) : found.rest <:+ ts :=
  accept?_rest (accept?_of_expectAs read)

section Items

variable {α : Type} {close : TokenKind} {outer : List Token}
  {item : List α → (us : List Token) → us.length < outer.length → Result α us}

theorem separated_items {ts : List Token}
    (each : ∀ earlier us fewer (one : Parsed α us), item earlier us fewer = .ok one →
      us <:+ ts → one.rest <:+ us)
    {found : List α} {within : ts.length < outer.length} {all : Parsed (List α) ts}
    (read : r.separated close outer item found ts within = .ok all) :
    all.rest <:+ ts ∧ ∀ a ∈ all.value, a ∈ found ∨ ∃ earlier us fewer one,
      us <:+ ts ∧ item earlier us fewer = .ok one ∧ one.value = a := by
  rw [Reader.separated] at read
  split at read
  · rename_i stop closed
    cases read
    exact ⟨accept?_rest closed, fun a member => .inl (List.mem_reverse.mp member)⟩
  · obtain ⟨one, taken, read⟩ := ok_of_bind read
    have first := each _ _ _ one taken (List.suffix_refl ts)
    have new : ∀ a ∈ one.value :: found, a ∈ found ∨ ∃ earlier us fewer one,
        us <:+ ts ∧ item earlier us fewer = .ok one ∧ one.value = a := by
      intro a member
      rcases List.mem_cons.mp member with rfl | old
      · exact .inr ⟨found, ts, within, one, List.suffix_refl ts, taken, rfl⟩
      · exact .inl old
    split at read
    · rename_i comma next
      obtain ⟨later, remainder, same⟩ := ok_of_bind read
      cases same
      have onward := (accept?_rest next).trans first
      have shorter : comma.rest.length < ts.length := Nat.lt_trans comma.shorter one.shorter
      obtain ⟨rest, items⟩ := separated_items
        (fun earlier us fewer one taken within =>
          each earlier us fewer one taken (within.trans onward)) remainder
      refine ⟨rest.trans onward, ?_⟩
      intro a member
      rcases items a member with old | ⟨earlier, us, fewer, one, inside, taken, same⟩
      · exact new a old
      · exact .inr ⟨earlier, us, fewer, one, inside.trans onward, taken, same⟩
    · obtain ⟨stop, closed, same⟩ := ok_of_bind read
      cases same
      refine ⟨(accept?_rest (accept?_of_expectAs closed)).trans first, ?_⟩
      intro a member
      exact new a (List.mem_reverse.mp member)
termination_by ts.length

end Items

theorem name_rest {found : Parsed Iri ts} (read : r.name ts = .ok found) : found.rest <:+ ts :=
  (name_anchored ts).suffix read

theorem term_rest {ts : List Token} {scope : Option (List Parameter)} {found : Parsed Argument ts}
    (read : term r scope ts = .ok found) : found.rest <:+ ts :=
  (term_anchored scope ts).suffix read

theorem constant_rest {found : Parsed Term ts} (read : constant r ts = .ok found) :
    found.rest <:+ ts :=
  (constant_anchored ts).suffix read

theorem argument_rest {scope : List Parameter} {found : Parsed Argument ts}
    (read : argument r scope ts = .ok found) : found.rest <:+ ts :=
  (argument_anchored scope ts).suffix read

-- The marks are read in the same way whatever the reader.
theorem marks_rest {nonBlank optional : Bool} {found : Marks ts}
    (read : marks nonBlank optional ts = .ok found) : found.rest <:+ ts :=
  (@marks_anchored ⟨.standard, .nowhere⟩ nonBlank optional ts).suffix read

theorem typed_rest {found : Typed ts} (read : typed r ts = .ok found) : found.rest <:+ ts :=
  (typed_anchored ts).suffix read

theorem variableName_rest {found : Parsed String ts} (read : variableName r ts = .ok found) :
    found.rest <:+ ts :=
  (variableName_anchored ts).suffix read

theorem newParameter_rest {earlier : List Parameter} {found : Parsed Parameter ts}
    (read : newParameter r earlier ts = .ok found) : found.rest <:+ ts :=
  (newParameter_anchored earlier ts).suffix read

theorem moded_rest {found : Moded ts} (read : moded r ts = .ok found) : found.rest <:+ ts :=
  (moded_anchored ts).suffix read

theorem call_rest {scope : List Parameter} {found : Parsed Call ts}
    (read : call r scope ts = .ok found) :
    found.rest <:+ ts ∧ ∃ last, found.value.span = (r.here ts).through last := by
  refine ⟨(call_anchored scope ts).suffix read, ?_⟩
  unfold call at read
  obtain ⟨mode, _, read⟩ := ok_of_bind read
  obtain ⟨template, _, read⟩ := ok_of_bind read
  obtain ⟨opening, _, read⟩ := ok_of_bind read
  obtain ⟨arguments, _, read⟩ := ok_of_bind read
  obtain ⟨_, _, same⟩ := ok_of_bind read
  cases same
  exact ⟨_, rfl⟩

theorem template_items {found : Parsed Template ts} (read : template r ts = .ok found) :
    found.rest <:+ ts ∧ ∀ inner ∈ found.value.calls, ∃ scope us one,
      us <:+ ts ∧ call r scope us = .ok one ∧ one.value = inner := by
  unfold template at read
  obtain ⟨iri, named, read⟩ := ok_of_bind read
  obtain ⟨bracket, opened, read⟩ := ok_of_bind read
  obtain ⟨parameters, signature, read⟩ := ok_of_bind read
  obtain ⟨colons, defined, read⟩ := ok_of_bind read
  obtain ⟨brace, begun, read⟩ := ok_of_bind read
  obtain ⟨calls, body, read⟩ := ok_of_bind read
  obtain ⟨dot, ended, same⟩ := ok_of_bind read
  cases same
  have head := ((separated_items (fun _ _ _ _ taken _ => newParameter_rest taken) signature).1.trans
    (expect_rest opened)).trans (name_rest named)
  have onward := ((expect_rest begun).trans (expect_rest defined)).trans head
  obtain ⟨rest, items⟩ := separated_items (fun _ _ _ _ taken _ => (call_rest taken).1) body
  refine ⟨((expect_rest ended).trans rest).trans onward, ?_⟩
  intro inner member
  rcases items inner member with none | ⟨_, us, _, one, inside, taken, same⟩
  · cases none
  · exact ⟨parameters.value, us, one, inside.trans onward, taken, same⟩

theorem groundInstance_items {found : Parsed Instance ts} (read : groundInstance r ts = .ok found) :
    found.rest <:+ ts ∧ ∃ dot ∈ ts, found.value.span = (r.here ts).through dot.span := by
  unfold groundInstance at read
  obtain ⟨template, named, read⟩ := ok_of_bind read
  obtain ⟨opening, opened, read⟩ := ok_of_bind read
  obtain ⟨arguments, given, read⟩ := ok_of_bind read
  obtain ⟨dot, ended, same⟩ := ok_of_bind read
  cases same
  have onward := ((separated_items (fun _ _ _ _ taken _ => constant_rest taken) given).1.trans
    (expect_rest opened)).trans (name_rest named)
  refine ⟨(expect_rest ended).trans onward, ?_⟩
  obtain ⟨t, rest, whole, -, last, -⟩ := accept?_eq_some (accept?_of_expectAs ended)
  refine ⟨t, onward.mem (whole ▸ List.mem_cons_self), ?_⟩
  rw [← last]
  rfl

theorem prefixLabel_rest {found : Parsed String ts} (read : prefixLabel r ts = .ok found) :
    found.rest <:+ ts :=
  (prefixLabel_anchored ts).suffix read

theorem namespaceText_rest {found : Parsed String ts} (read : namespaceText r ts = .ok found) :
    found.rest <:+ ts :=
  (namespaceText_anchored ts).suffix read

theorem binding_rest {found : Parsed Binding ts} (read : binding r ts = .ok found) :
    found.rest <:+ ts := by
  unfold binding at read
  obtain ⟨keyword, begun, read⟩ := ok_of_bind read
  obtain ⟨label, labelled, read⟩ := ok_of_bind read
  obtain ⟨space, spaced, read⟩ := ok_of_bind read
  obtain ⟨dot, ended, same⟩ := ok_of_bind read
  cases same
  have front := (prefixLabel_rest labelled).trans (expect_rest begun)
  exact ((expect_rest ended).trans (namespaceText_rest spaced)).trans front

section Declarations

variable {α : Type} {item : Item α}

theorem declaration_rest (each : ∀ us (one : Parsed α us), item r us = .ok one → one.rest <:+ us)
    {found : Parsed (Declared α) ts} (read : declaration r (item r) ts = .ok found) :
    found.rest <:+ ts := by
  unfold declaration at read
  split at read
  · obtain ⟨b, bound, same⟩ := ok_of_bind read
    cases same
    exact binding_rest bound
  · obtain ⟨one, taken, same⟩ := ok_of_bind read
    cases same
    exact each ts one taken

theorem skip_rest (depth : Int) (ts : List Token) : skip depth ts <:+ ts := by
  induction ts generalizing depth with
  | nil => exact List.suffix_refl []
  | cons t rest ih =>
    unfold skip
    split
    · exact List.suffix_cons t rest
    · split
      · exact List.suffix_cons t rest
      · exact (ih _).trans (List.suffix_cons t rest)

theorem ofTokens_parts
    (each : ∀ r us (one : Parsed α us), item r us = .ok one → one.rest <:+ us)
    (stop : Text.Span) (ns : Namespaces) (ts : List Token) :
    ∀ a ∈ (ofTokens item stop ns ts).items, ∃ r us one,
      us <:+ ts ∧ item r us = .ok one ∧ one.value = a := by
  induction ns, ts using ofTokens.induct item stop with
  | case1 ns => simp [ofTokens]
  | case2 ns t rest e failed _ ih =>
    rw [ofTokens, failed]
    intro a member
    obtain ⟨r, us, one, inside, taken, same⟩ := ih a member
    exact ⟨r, us, one, inside.trans (skip_rest 0 _), taken, same⟩
  | case3 ns t rest found read _ b binding ih =>
    rw [ofTokens, read]
    simp only [binding]
    intro a member
    obtain ⟨r, us, one, inside, taken, same⟩ := ih a member
    exact ⟨r, us, one, inside.trans (declaration_rest (each _) read), taken, same⟩
  | case4 ns t rest found read _ value declared ih =>
    obtain ⟨one, taken, same⟩ := item_of_declaration read declared
    have onward := declaration_rest (each _) read
    rw [ofTokens, read]
    simp only [declared]
    intro a member
    rcases List.mem_cons.mp member with rfl | later
    · exact ⟨_, _, one, List.suffix_refl _, taken, same⟩
    · obtain ⟨r, us, one, inside, taken, same⟩ := ih a later
      exact ⟨r, us, one, inside.trans onward, taken, same⟩

theorem read_parts (each : ∀ r us (one : Parsed α us), item r us = .ok one → one.rest <:+ us)
    {ns : Namespaces} {text : String} {items : List α}
    (accepted : (read item ns text).outcome = .ok items) :
    ∃ stream, Token.scan text = .ok stream ∧ ∀ a ∈ items, ∃ r us one,
      us <:+ stream.tokens ∧ item r us = .ok one ∧ one.value = a := by
  unfold read at accepted
  split at accepted
  · cases accepted
  · rename_i stream scanned
    unfold Reading.ofDocument at accepted
    split at accepted
    · cases accepted
      exact ⟨stream, scanned, ofTokens_parts each _ _ _⟩
    · cases accepted

end Declarations

end Stottr.Document

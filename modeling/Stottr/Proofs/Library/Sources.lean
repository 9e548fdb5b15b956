import Stottr.Library

namespace Stottr

theorem ok_of_bind {ε α β : Type} {first : Except ε α} {later : α → Except ε β} {result : β}
    (accepted : (first >>= later) = .ok result) :
    ∃ value, first = .ok value ∧ later value = .ok result := by
  cases first with
  | error e => cases accepted
  | ok value => exact ⟨value, rfl, accepted⟩

theorem bind_of_ok {ε α β : Type} {first : Except ε α} {value : α} (done : first = .ok value)
    (later : α → Except ε β) : (first >>= later) = later value := by
  rw [done]
  rfl

theorem ok_of_map {ε α β : Type} {x : Except ε α} {f : α → β} {result : β}
    (mapped : x.map f = .ok result) : ∃ value, x = .ok value ∧ f value = result := by
  cases x with
  | error e => cases mapped
  | ok value => exact ⟨value, rfl, Except.ok.inj mapped⟩

theorem error_of_map {ε α β : Type} {x : Except ε α} {f : α → β} {e : ε}
    (mapped : x.map f = .error e) : x = .error e := by
  cases x with
  | error e => exact congrArg Except.error (Except.error.inj mapped)
  | ok value => cases mapped

theorem ok_of_isOk {ε α : Type} {x : Except ε α} (succeeds : x.isOk = true) :
    ∃ value, x = .ok value := by
  cases x with
  | error e => cases succeeds
  | ok value => exact ⟨value, rfl⟩

theorem ok_of_toOption {ε α : Type} {x : Except ε α} {value : α}
    (held : x.toOption = some value) : x = .ok value := by
  cases x with
  | error e => cases held
  | ok value => exact congrArg Except.ok (Option.some.inj held)

namespace Document

variable {α : Type} {P : α → Prop}

theorem item_of_declaration {r : Reader} {ts : List Token} {item : (us : List Token) → Result α us}
    {found : Parsed (Declared α) ts} {value : α} (read : declaration r item ts = .ok found)
    (declared : found.value = .item value) :
    ∃ one : Parsed α ts, item ts = .ok one ∧ one.value = value := by
  unfold declaration at read
  split at read
  · obtain ⟨b, _, same⟩ := ok_of_bind read
    cases same
    cases declared
  · obtain ⟨one, taken, same⟩ := ok_of_bind read
    cases same
    cases declared
    exact ⟨one, taken, rfl⟩

-- The induction is on the declarations; those that fail or bind a prefix add no item.
theorem ofTokens_items {item : Item α}
    (each : ∀ r ts (one : Parsed α ts), item r ts = .ok one → P one.value)
    (stop : Text.Span) (ns : Namespaces) (ts : List Token) :
    ∀ a ∈ (ofTokens item stop ns ts).items, P a := by
  induction ns, ts using ofTokens.induct item stop with
  | case1 ns => simp [ofTokens]
  | case2 ns t rest e failed _ ih =>
    rw [ofTokens, failed]
    exact ih
  | case3 ns t rest found read _ b binding ih =>
    rw [ofTokens, read]
    simp only [binding]
    exact ih
  | case4 ns t rest found read _ value declared ih =>
    obtain ⟨one, taken, same⟩ := item_of_declaration read declared
    rw [ofTokens, read]
    simp only [declared]
    intro a member
    rcases List.mem_cons.mp member with rfl | later
    · rw [← same]
      exact each _ _ one taken
    · exact ih a later

theorem read_items {item : Item α}
    (each : ∀ r ts (one : Parsed α ts), item r ts = .ok one → P one.value)
    {ns : Namespaces} {text : String} {items : List α}
    (accepted : (read item ns text).outcome = .ok items) : ∀ a ∈ items, P a := by
  unfold read at accepted
  split at accepted
  · cases accepted
  · unfold Reading.ofDocument at accepted
    split at accepted
    · cases accepted
      exact ofTokens_items each _ _ _
    · cases accepted

theorem template_calls (r : Reader) (ts : List Token) (one : Parsed Template ts)
    (read : template r ts = .ok one) : one.value.isBase = false := by
  unfold template at read
  obtain ⟨iri, _, read⟩ := ok_of_bind read
  obtain ⟨bracket, _, read⟩ := ok_of_bind read
  obtain ⟨parameters, _, read⟩ := ok_of_bind read
  obtain ⟨colons, _, read⟩ := ok_of_bind read
  obtain ⟨brace, _, read⟩ := ok_of_bind read
  obtain ⟨calls, _, read⟩ := ok_of_bind read
  obtain ⟨dot, _, read⟩ := ok_of_bind read
  cases read
  rfl

end Document

namespace Library

-- A failed reading leaves the library as it is, so it is a step like any other.
inductive FromTexts : Library → Prop where
  | base : FromTexts base
  | load {lib : Library} (earlier : FromTexts lib) (ns : Namespaces) (text : String) :
    FromTexts (lib.load ns text).library

def ofText (text : String) : Library := (base.load .standard text).library

theorem FromTexts.ofText (text : String) : (ofText text).FromTexts := .load .base _ text

theorem loadStandard_eq :
    loadStandard = fun lib : Library => (lib.load .standard standardText).toRegistration := rfl

-- The text is kept apart, so that nothing has to read it to see that the two sides are the same.
theorem FromTexts.standard {lib : Library} (texts : lib.FromTexts) :
    lib.loadStandard.library.FromTexts := by
  have read : ∀ (text : String) (f : Library → Registration),
      f = (fun lib => (lib.load .standard text).toRegistration) → (f lib).library.FromTexts := by
    rintro text _ rfl
    exact .load texts _ text
  exact read standardText _ loadStandard_eq

theorem mem_register {lib grown : Library} {t : Template} (accepted : lib.register t = .ok grown) :
    ∀ u ∈ grown.items, u = t ∨ u ∈ lib.items := by
  unfold register at accepted
  split at accepted
  · cases accepted
  · cases accepted
    intro u member
    exact Keyed.mem_insertInto t u lib.items member

theorem mem_registerAll (lib : Library) (ts : List Template) :
    ∀ u ∈ (lib.registerAll ts).library.items, u ∈ ts ∨ u ∈ lib.items := by
  induction ts generalizing lib with
  | nil => exact fun u member => .inr member
  | cons t ts ih =>
    intro u member
    unfold registerAll at member
    split at member
    · rename_i grown accepted
      rcases ih grown u member with later | held
      · exact .inl (List.mem_cons_of_mem _ later)
      · rcases mem_register accepted u held with rfl | old
        · exact .inl (by simp)
        · exact .inr old
    · rcases ih lib u member with later | old
      · exact .inl (List.mem_cons_of_mem _ later)
      · exact .inr old

theorem mem_base {t : Template} (member : t ∈ base.items) : t = triple ∨ t = cross := by
  rcases Keyed.mem_insertInto cross t _ member with rfl | earlier
  · exact .inr rfl
  · rcases Keyed.mem_insertInto triple t _ earlier with rfl | none
    · exact .inl rfl
    · cases none

theorem FromTexts.items {P : Template → Prop} (ofTriple : P triple) (ofCross : P cross)
    (ofText : ∀ ns text templates, (Document.templates ns text).outcome = .ok templates →
      ∀ t ∈ templates, P t)
    {lib : Library} (texts : lib.FromTexts) : ∀ t ∈ lib.items, P t := by
  induction texts with
  | base =>
    intro t member
    rcases mem_base member with rfl | rfl
    · exact ofTriple
    · exact ofCross
  | @load lib earlier ns text ih =>
    intro t member
    unfold Library.load at member
    dsimp only at member
    split at member
    · exact ih t member
    · rename_i templates accepted
      rcases mem_registerAll lib templates t member with written | held
      · exact ofText ns text templates accepted t written
      · exact ih t held

theorem FromTexts.primitive {lib : Library} (texts : lib.FromTexts) :
    ∀ t ∈ lib.items, t.isBase = true → t = triple ∨ t = cross := by
  refine texts.items (fun _ => .inl rfl) (fun _ => .inr rfl) ?_
  intro ns text templates accepted t written primitive
  have calls : t.isBase = false :=
    @Document.read_items _ (fun u => u.isBase = false) _ Document.template_calls _ _ _ accepted
      t written
  rw [calls] at primitive
  cases primitive

-- The only statements that such a library writes are those of the primitive.
theorem FromTexts.triple_of_statement {lib : Library} (texts : lib.FromTexts) {t : Template}
    (member : t ∈ lib.items) {pattern : Pattern} (body : t.body = .statement pattern) :
    t = triple := by
  have primitive : t.isBase = true := by simp [Template.isBase, body]
  rcases texts.primitive t member primitive with rfl | rfl
  · rfl
  · cases body

end Library

end Stottr

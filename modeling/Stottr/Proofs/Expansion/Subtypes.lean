import Stottr.Proofs.Expansion.WellFormed

namespace Stottr

namespace ParamType

-- The least order that these steps make. That every list type is above the non-empty lists of the
-- same members is a step of its own: a list type takes the empty list, and no other type does.
inductive Below : ParamType → ParamType → Prop where
  | refl (type : ParamType) : Below type type
  | trans {low middle high : ParamType} : Below low middle → Below middle high → Below low high
  | datatype (name : Iri) : Below (.datatype name) .literal
  | literal : Below .literal .resource
  | iri : Below .iri .resource
  | nonEmpty (element : ParamType) : Below (.nonEmptyList element) (.list element)
  | list {low high : ParamType} : Below low high → Below (.list low) (.list high)
  | nonEmptyList {low high : ParamType} :
    Below low high → Below (.nonEmptyList low) (.nonEmptyList high)

def Accepts (type : ParamType) (value : Term) : Prop := type.check value = .ok ()

theorem accepts_resource_iff {value : Term} :
    ParamType.resource.Accepts value ↔ value.kind ≠ .list := by
  cases value <;> simp [Accepts, check, checkSingle, Term.kind]

theorem accepts_iri_iff {value : Term} :
    ParamType.iri.Accepts value ↔ value.kind = .iri ∨ value.kind = .blank := by
  cases value <;> simp [Accepts, check, checkSingle, Term.kind]

theorem accepts_literal_iff {value : Term} :
    ParamType.literal.Accepts value ↔ ∃ l, value = .literal l := by
  cases value <;> simp [Accepts, check, checkSingle]

theorem accepts_datatype_iff {name : Iri} {value : Term} :
    (ParamType.datatype name).Accepts value ↔ ∃ l, value = .literal l ∧ l.datatype = name := by
  cases value <;> simp [Accepts, check, checkSingle]

theorem firstFailure_ok_iff {α ε : Type} {check : α → Except ε Unit} {items : List α} :
    firstFailure check items = .ok () ↔ ∀ a ∈ items, check a = .ok () := by
  refine ⟨firstFailure_ok, ?_⟩
  intro passed
  induction items with
  | nil => rfl
  | cons a rest ih =>
    simp only [firstFailure, passed a (List.mem_cons_self ..)]
    exact ih fun b member => passed b (List.mem_cons_of_mem _ member)

-- Members that are absent are not looked at.
def AcceptsAll (type : ParamType) (items : List Term) : Prop :=
  ∀ item ∈ items, item.isNone = false → type.Accepts item

theorem acceptsAll_iff {type : ParamType} {items : List Term} :
    firstFailure type.check (items.filter (!·.isNone)) = .ok () ↔ type.AcceptsAll items := by
  simp only [firstFailure_ok_iff, List.mem_filter, Bool.not_eq_true', and_imp, AcceptsAll, Accepts]

theorem accepts_list_iff {element : ParamType} {items : List Term} :
    (ParamType.list element).Accepts (.list items) ↔ element.AcceptsAll items := acceptsAll_iff

theorem accepts_nonEmptyList_iff {element : ParamType} {items : List Term} :
    (ParamType.nonEmptyList element).Accepts (.list items) ↔
      items ≠ [] ∧ element.AcceptsAll items := by
  cases items with
  | nil => simp [Accepts, check]
  | cons item rest => simp [Accepts, check, acceptsAll_iff]

theorem exists_list_of_accepts {type : ParamType} {value : Term} (list : type.isList = true)
    (accepted : type.Accepts value) : ∃ items, value = .list items := by
  cases value with
  | list items => exact ⟨items, rfl⟩
  | iri | blank | literal | none =>
    cases type with
    | list | nonEmptyList => cases accepted
    | resource | iri | literal | datatype => cases list

theorem AcceptsAll.mono {low high : ParamType} {items : List Term}
    (wider : ∀ value, low.Accepts value → high.Accepts value) (all : low.AcceptsAll items) :
    high.AcceptsAll items := by
  intro item member present
  exact wider item (all item member present)

theorem acceptsAll_single {type : ParamType} {value : Term} (present : value.isNone = false) :
    type.AcceptsAll [value] ↔ type.Accepts value := by
  simp [AcceptsAll, present]

theorem Below.accepts {low high : ParamType} (below : low.Below high) :
    ∀ value, low.Accepts value → high.Accepts value := by
  induction below with
  | refl => exact fun _ accepted => accepted
  | trans _ _ first second => exact fun value accepted => second value (first value accepted)
  | datatype name =>
    intro value accepted
    obtain ⟨l, rfl, -⟩ := accepts_datatype_iff.mp accepted
    exact accepts_literal_iff.mpr ⟨l, rfl⟩
  | literal =>
    intro value accepted
    obtain ⟨l, rfl⟩ := accepts_literal_iff.mp accepted
    exact accepts_resource_iff.mpr nofun
  | iri =>
    intro value accepted
    rcases accepts_iri_iff.mp accepted with kind | kind
    all_goals exact accepts_resource_iff.mpr (by simp [kind])
  | nonEmpty element =>
    intro value accepted
    obtain ⟨items, rfl⟩ := exists_list_of_accepts rfl accepted
    exact accepts_list_iff.mpr (accepts_nonEmptyList_iff.mp accepted).2
  | list _ wider =>
    intro value accepted
    obtain ⟨items, rfl⟩ := exists_list_of_accepts rfl accepted
    exact accepts_list_iff.mpr ((accepts_list_iff.mp accepted).mono wider)
  | nonEmptyList _ wider =>
    intro value accepted
    obtain ⟨items, rfl⟩ := exists_list_of_accepts rfl accepted
    obtain ⟨filled, all⟩ := accepts_nonEmptyList_iff.mp accepted
    exact accepts_nonEmptyList_iff.mpr ⟨filled, all.mono wider⟩

theorem of_accepts_iri {type : ParamType} {name : Iri} (accepted : type.Accepts (.iri name)) :
    type = .resource ∨ type = .iri := by
  cases type with
  | resource => exact .inl rfl
  | iri => exact .inr rfl
  | literal | datatype | list | nonEmptyList => cases accepted

theorem of_accepts_literal {type : ParamType} {l : Literal}
    (accepted : type.Accepts (.literal l)) :
    type = .resource ∨ type = .literal ∨ type = .datatype l.datatype := by
  cases type with
  | resource => exact .inl rfl
  | literal => exact .inr (.inl rfl)
  | datatype name =>
    obtain ⟨_, ⟨⟩, rfl⟩ := accepts_datatype_iff.mp accepted
    exact .inr (.inr rfl)
  | iri | list | nonEmptyList => cases accepted

theorem of_accepts_list {type : ParamType} {items : List Term}
    (accepted : type.Accepts (.list items)) :
    (∃ element, type = .list element) ∨ items ≠ [] ∧ ∃ element, type = .nonEmptyList element := by
  cases type with
  | list element => exact .inl ⟨element, rfl⟩
  | nonEmptyList element => exact .inr ⟨(accepts_nonEmptyList_iff.mp accepted).1, element, rfl⟩
  | resource | iri | literal | datatype => cases accepted

-- By induction on the lower type: a value of the lower type says what the higher one can be, and
-- lists of one member carry the members on. The absent value is left out of the hypothesis, since
-- as a member it tells nothing.
theorem below_of_accepts {low high : ParamType}
    (wider : ∀ value, value.isNone = false → low.Accepts value → high.Accepts value) :
    low.Below high := by
  induction low generalizing high with
  | resource =>
    rcases of_accepts_iri (wider (.iri Vocabulary.resource) rfl rfl) with rfl | rfl
    · exact .refl _
    · cases wider (.literal (.plain "")) rfl rfl
  | iri =>
    rcases of_accepts_iri (wider (.iri Vocabulary.resource) rfl rfl) with rfl | rfl
    · exact .iri
    · exact .refl _
  | literal =>
    rcases of_accepts_literal (wider (.literal (.plain "")) rfl rfl) with rfl | rfl | rfl
    · exact .literal
    · exact .refl _
    · cases wider (.literal (.ofBoolean true)) rfl rfl
  | datatype name =>
    have typed : (ParamType.datatype name).Accepts (.literal (.typed "" name)) :=
      accepts_datatype_iff.mpr ⟨_, rfl, rfl⟩
    rcases of_accepts_literal (wider _ rfl typed) with rfl | rfl | rfl
    · exact .trans (.datatype name) .literal
    · exact .datatype name
    · exact .refl _
  | list element ih =>
    have empty : (ParamType.list element).Accepts (.list []) := accepts_list_iff.mpr nofun
    rcases of_accepts_list (wider _ rfl empty) with ⟨other, rfl⟩ | ⟨filled, -⟩
    · refine .list (ih ?_)
      intro value present accepted
      have single := accepts_list_iff.mpr ((acceptsAll_single present).mpr accepted)
      exact (acceptsAll_single present).mp (accepts_list_iff.mp (wider _ rfl single))
    · exact absurd rfl filled
  | nonEmptyList element ih =>
    have absent : (ParamType.nonEmptyList element).Accepts (.list [.none]) :=
      accepts_nonEmptyList_iff.mpr ⟨by simp, by simp [AcceptsAll, Term.isNone]⟩
    have single (value : Term) (present : value.isNone = false) (accepted : element.Accepts value) :
        high.Accepts (.list [value]) :=
      wider (.list [value]) rfl
        (accepts_nonEmptyList_iff.mpr ⟨by simp, (acceptsAll_single present).mpr accepted⟩)
    rcases of_accepts_list (wider _ rfl absent) with ⟨other, rfl⟩ | ⟨-, other, rfl⟩
    · refine .trans (.nonEmptyList (ih ?_)) (.nonEmpty other)
      intro value present accepted
      exact (acceptsAll_single present).mp (accepts_list_iff.mp (single value present accepted))
    · refine .nonEmptyList (ih ?_)
      intro value present accepted
      exact (acceptsAll_single present).mp
        (accepts_nonEmptyList_iff.mp (single value present accepted)).2

theorem below_iff_accepts {low high : ParamType} :
    low.Below high ↔ ∀ value, low.Accepts value → high.Accepts value := by
  constructor
  · exact Below.accepts
  · intro wider
    exact below_of_accepts fun value _ => wider value

end ParamType

namespace Parameter

theorem check_mono {narrow wide : Parameter} {value : Term}
    (nonBlank : wide.nonBlank = narrow.nonBlank) (optional : wide.optional = narrow.optional)
    (below : narrow.type.Below wide.type) (passed : narrow.check value = .ok ()) :
    wide.check value = .ok () := by
  unfold check at passed ⊢
  rw [nonBlank, optional]
  split
  · simpa [*] using passed
  · split
    · simp [*] at passed
    · rw [if_neg (by assumption), if_neg (by assumption)] at passed
      exact below.accepts value passed

end Parameter

theorem types_ordered :
    (∀ low high : ParamType,
      low.Below high ↔ ∀ value, low.Accepts value → high.Accepts value) ∧
    ∀ (narrow wide : Parameter) (value : Term), wide.nonBlank = narrow.nonBlank →
      wide.optional = narrow.optional → narrow.type.Below wide.type →
      narrow.check value = .ok () → wide.check value = .ok () := by
  refine ⟨fun _ _ => ParamType.below_iff_accepts, ?_⟩
  intro narrow wide value nonBlank optional below passed
  exact Parameter.check_mono nonBlank optional below passed

theorem types_ordered_integers :
    let span : Text.Span := ⟨0, 0, 1, 1⟩
    let narrow : Parameter :=
      ⟨"x", 0, .nonEmptyList (.datatype Vocabulary.integer), true, false, none, span⟩
    let wide : Parameter := ⟨"x", 0, .list .literal, true, false, none, span⟩
    let value : Term := .list [.literal (.ofInteger 5), .none]
    narrow.check value = .ok () ∧ wide.check value = .ok () ∧ ¬wide.type.Below narrow.type := by
  intro span narrow wide value
  have below : narrow.type.Below wide.type :=
    .trans (.nonEmpty _) (.list (.datatype Vocabulary.integer))
  have passed : narrow.check value = .ok () := by decide
  refine ⟨passed, types_ordered.2 narrow wide value rfl rfl below passed, ?_⟩
  intro turned
  cases (types_ordered.1 _ _).mp turned (.list []) rfl

end Stottr

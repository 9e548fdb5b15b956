import Mathlib.Data.List.Sort
import Stottr.Proofs.Library.Sources
import Stottr.Proofs.Library.Growth

namespace Stottr

namespace Keyed

variable {α : Type} {key : α → String}

theorem insertInto_perm {a : α} {items : List α} (free : ∀ b ∈ items, key b ≠ key a) :
    (insertInto key a items).Perm (a :: items) := by
  induction items with
  | nil => exact .refl _
  | cons b bs ih =>
    obtain ⟨different, others⟩ := List.forall_mem_cons.mp free
    unfold insertInto
    split
    · exact .refl _
    · rw [if_neg different.symm]
      exact ((ih others).cons b).trans (.swap a b bs)

theorem insert_perm {m : Keyed α key} {a : α} (free : m.find? (key a) = none) :
    (m.insert a).items.Perm (a :: m.items) := by
  refine insertInto_perm ?_
  intro b held same
  have found := m.find?_of_mem b held
  rw [same, free] at found
  cases found

theorem eq_of_perm {m m' : Keyed α key} (same : m.items.Perm m'.items) : m = m' := by
  obtain ⟨items, sorted⟩ := m
  obtain ⟨items', sorted'⟩ := m'
  have equal : items = items' := by
    refine same.eq_of_pairwise ?_ sorted sorted'
    intro a b _ _ less more
    exact absurd (String.lt_trans less more) (String.lt_irrefl _)
  cases equal
  rfl

end Keyed

namespace Library

def isFirst (lib : Library) (front : List Template) (t : Template) : Bool :=
  (lib.get? t.iri).isNone && front.all fun u => u.iri ≠ t.iri

def firsts (lib : Library) (ts : List Template) : List Template :=
  (ts.zipIdx.filter fun (t, k) => lib.isFirst (ts.take k) t).map Prod.fst

def clashes (lib : Library) (ts : List Template) : List Template :=
  (ts.zipIdx.filter fun (t, k) => !lib.isFirst (ts.take k) t).map Prod.fst

def clash (t : Template) : LoadError := .redefinition t.iri t.span

variable {lib now grown : Library} {t : Template}

theorem register_of_free (free : now.get? t.iri = none) : now.register t = .ok (now.insert t) := by
  rw [register, free]

theorem register_of_held (held : (now.get? t.iri).isNone = false) :
    now.register t = .error (clash t) := by
  unfold register
  split
  · rfl
  · rename_i free
    rw [free] at held
    cases held

def Past (lib now : Library) (front : List Template) : Prop :=
  ∀ t, (now.get? t.iri).isNone = lib.isFirst front t

theorem past_nil (lib : Library) : lib.Past lib [] := by
  intro t
  simp [isFirst]

theorem isFirst_concat (lib : Library) (front : List Template) (t u : Template) :
    lib.isFirst (front ++ [t]) u = (lib.isFirst front u && decide (t.iri ≠ u.iri)) := by
  simp [isFirst, Bool.and_assoc]

theorem text_ne_iff {iri other : Iri} : iri.text ≠ other.text ↔ iri ≠ other := by
  obtain ⟨text⟩ := iri
  obtain ⟨text'⟩ := other
  simp

theorem Past.insert {front : List Template} (past : lib.Past now front) :
    lib.Past (now.insert t) (front ++ [t]) := by
  intro u
  rw [isFirst_concat, ← past u]
  unfold get?
  rw [Keyed.find?_insert]
  by_cases same : t.iri = u.iri
  · simp [same]
  · simp [same, text_ne_iff.mpr same]

theorem Past.refuse {front : List Template} (past : lib.Past now front)
    (held : (now.get? t.iri).isNone = false) : lib.Past now (front ++ [t]) := by
  intro u
  rw [isFirst_concat, ← past u]
  by_cases same : t.iri = u.iri
  · rw [← same, held]
    rfl
  · simp [same]

-- What comes of the rest of a batch, when the front of it has been gone through.
structure Takes (lib now : Library) (whole : List Template) (numbered : List (Template × Nat))
    (r : Registration) : Prop where
  items : r.library.items.Perm (now.items ++
    (numbered.filter fun (t, k) => lib.isFirst (whole.take k) t).map Prod.fst)
  accepted : r.accepted =
    ((numbered.filter fun (t, k) => lib.isFirst (whole.take k) t).map Prod.fst).length
  errors : r.errors =
    ((numbered.filter fun (t, k) => !lib.isFirst (whole.take k) t).map Prod.fst).map clash

theorem Past.takes {front : List Template} (past : lib.Past now front) (ts : List Template) :
    lib.Takes now (front ++ ts) (ts.zipIdx front.length) (now.registerAll ts) := by
  induction ts generalizing now front with
  | nil => exact ⟨by simp [registerAll], rfl, rfl⟩
  | cons t ts ih =>
    have here : (front ++ t :: ts).take front.length = front := List.take_left
    have whole : front ++ [t] ++ ts = front ++ t :: ts := by simp
    have behind : (front ++ [t]).length = front.length + 1 := by simp
    unfold registerAll
    rw [List.zipIdx_cons]
    cases first : lib.isFirst front t with
    | true =>
      have free : now.get? t.iri = none := by simpa [first] using past t
      obtain ⟨items, accepted, errors⟩ := ih (past.insert (t := t))
      rw [whole, behind] at items accepted errors
      rw [register_of_free free]
      refine ⟨?_, ?_, ?_⟩
      · simp only [List.filter_cons, here, first, if_true, List.map_cons]
        refine items.trans ?_
        exact ((Keyed.insert_perm free).append_right _).trans List.perm_middle.symm
      · simp [here, first, accepted]
      · simp [here, first, errors]
    | false =>
      have held : (now.get? t.iri).isNone = false := (past t).trans first
      obtain ⟨items, accepted, errors⟩ := ih (past.refuse held)
      rw [whole, behind] at items accepted errors
      rw [register_of_held held]
      refine ⟨?_, ?_, ?_⟩
      · simpa [here, first] using items
      · simp [here, first, accepted]
      · simp [here, first, errors]

theorem registerAll_takes (lib : Library) (ts : List Template) :
    lib.Takes lib ts ts.zipIdx (lib.registerAll ts) :=
  lib.past_nil.takes ts

theorem size_of_takes {r : Registration} {whole : List Template}
    {numbered : List (Template × Nat)} (takes : lib.Takes now whole numbered r) :
    r.library.size = now.size + r.accepted := by
  have length := takes.items.length_eq
  rw [List.length_append, ← takes.accepted] at length
  exact length

theorem firsts_of_distinct {ts : List Template} (distinct : (ts.map Template.iri).Nodup)
    (new : ∀ t ∈ ts, lib.get? t.iri = none) : lib.firsts ts = ts := by
  unfold firsts
  rw [List.filter_eq_self.mpr, List.zipIdx_map_fst]
  rintro ⟨t, k⟩ member
  obtain ⟨bound, here⟩ := List.mem_zipIdx' member
  have apart : ∀ u ∈ ts.take k, u.iri ≠ t.iri := by
    intro u front same
    rw [here] at same
    obtain ⟨j, early, rfl⟩ := List.mem_take_iff_getElem.mp front
    have equal : (ts.map Template.iri).get ⟨j, by simp; omega⟩ =
        (ts.map Template.iri).get ⟨k, by simpa using bound⟩ := by simpa using same
    have position : j = k := Fin.mk.inj (List.nodup_iff_injective_get.mp distinct equal)
    omega
  simpa [isFirst, new t (here ▸ List.getElem_mem bound)] using apart

theorem registerAll_comm {ts us : List Template} (same : ts.Perm us)
    (distinct : (ts.map Template.iri).Nodup) (new : ∀ t ∈ ts, lib.get? t.iri = none) :
    (lib.registerAll ts).library = (lib.registerAll us).library := by
  have distinct' : (us.map Template.iri).Nodup := (same.map Template.iri).nodup_iff.mp distinct
  have new' : ∀ u ∈ us, lib.get? u.iri = none := fun u member => new u (same.mem_iff.mpr member)
  have items : (lib.registerAll ts).library.items.Perm (lib.items ++ lib.firsts ts) :=
    (lib.registerAll_takes ts).items
  have items' : (lib.registerAll us).library.items.Perm (lib.items ++ lib.firsts us) :=
    (lib.registerAll_takes us).items
  rw [firsts_of_distinct distinct new] at items
  rw [firsts_of_distinct distinct' new'] at items'
  exact Keyed.eq_of_perm (items.trans ((same.append_left lib.items).trans items'.symm))

-- All that is ever done to a library. The prefixes of a text are those of its reader.
inductive Operation where
  | register (t : Template)
  | registerAll (ts : List Template)
  | load (ns : Namespaces) (text : String)
  | loadStandard

def perform (lib : Library) : Operation → Registration
  | .register t =>
    match lib.register t with
    | .ok grown => ⟨grown, 1, []⟩
    | .error e => ⟨lib, 0, [e]⟩
  | .registerAll ts => lib.registerAll ts
  | .load ns text => (lib.load ns text).toRegistration
  | .loadStandard => lib.loadStandard

def offered (ns : Namespaces) (text : String) : Except (List SyntaxError) (List Template) :=
  (Document.templates ns text).outcome

def Operation.batch : Operation → Except (List SyntaxError) (List Template)
  | .register t => .ok [t]
  | .registerAll ts => .ok ts
  | .load ns text => offered ns text
  | .loadStandard => offered .standard standardText

def after (lib : Library) (operations : List Operation) : Library :=
  operations.foldl (fun now operation => (now.perform operation).library) lib

def taken (lib : Library) : List Operation → Nat
  | [] => 0
  | operation :: rest =>
    (lib.perform operation).accepted + (lib.perform operation).library.taken rest

def settle (lib : Library) : Except (List SyntaxError) (List Template) → Registration
  | .ok ts => lib.registerAll ts
  | .error errors => ⟨lib, 0, [.malformed errors]⟩

theorem load_settles (lib : Library) (ns : Namespaces) (text : String) :
    (lib.load ns text).toRegistration = lib.settle (offered ns text) := by
  unfold load offered
  dsimp only
  cases (Document.templates ns text).outcome <;> rfl

-- The text is kept apart, so that nothing has to read it.
theorem loadStandard_settles (lib : Library) :
    lib.loadStandard = lib.settle (offered .standard standardText) := by
  have read : ∀ (text : String) (f : Library → Registration),
      f = (fun lib => (lib.load .standard text).toRegistration) →
      f lib = lib.settle (offered .standard text) := by
    rintro text _ rfl
    exact lib.load_settles _ text
  exact read standardText _ loadStandard_eq

theorem perform_settles (lib : Library) (operation : Operation) :
    lib.perform operation = lib.settle operation.batch := by
  cases operation with
  | register t =>
    unfold perform Operation.batch settle Library.registerAll
    cases lib.register t <;> rfl
  | registerAll ts => rfl
  | load ns text => exact lib.load_settles ns text
  | loadStandard => exact lib.loadStandard_settles

theorem perform_size (lib : Library) (operation : Operation) :
    (lib.perform operation).library.size = lib.size + (lib.perform operation).accepted := by
  rw [perform_settles]
  cases operation.batch with
  | ok ts => exact size_of_takes (lib.registerAll_takes ts)
  | error errors => rfl

theorem perform_within (lib : Library) (operation : Operation) :
    lib.Within (lib.perform operation).library := by
  rw [perform_settles]
  cases operation.batch with
  | ok ts => exact lib.within_registerAll ts
  | error errors => exact .refl lib

theorem after_within (lib : Library) (operations : List Operation) :
    lib.Within (lib.after operations) := by
  induction operations generalizing lib with
  | nil => exact .refl lib
  | cons operation rest ih => exact (lib.perform_within operation).trans (ih _)

theorem after_size (lib : Library) (operations : List Operation) :
    (lib.after operations).size = lib.size + lib.taken operations := by
  induction operations generalizing lib with
  | nil => rfl
  | cons operation rest ih =>
    have first := lib.perform_size operation
    have others := ih (lib.perform operation).library
    simp only [taken]
    rw [← Nat.add_assoc, ← first, ← others]
    rfl

theorem base_triple : base.get? Vocabulary.triple = some triple := by
  unfold base get?
  rw [Keyed.find?_insert, if_neg (by decide), Keyed.find?_insert]
  exact if_pos rfl

theorem base_cross : base.get? Vocabulary.cross = some cross := by
  unfold base get?
  rw [Keyed.find?_insert]
  exact if_pos rfl

theorem Within.get? (within : lib.Within grown) {iri : Iri} (found : lib.get? iri = some t) :
    grown.get? iri = some t := by
  have filed := lib.iri_of_get? iri t found
  rw [← filed]
  exact grown.find?_of_mem t (within t (lib.mem_of_find? _ t found))

-- After any history a library has the primitives as they are and everything that it ever had, each
-- template under its own name. What an operation adds is the first of each new name in its batch,
-- its errors are the rest of the batch in order, and the order of a batch of new names is nothing.
theorem history_grows (earlier later : List Operation) :
    let lib := base.after earlier
    let grown := lib.after later
    (∀ iri t, lib.get? iri = some t → t.iri = iri ∧ grown.get? iri = some t) ∧
    lib.get? Vocabulary.triple = some triple ∧ lib.get? Vocabulary.cross = some cross ∧
    grown.size = lib.size + lib.taken later ∧
    (∀ operation, let r := lib.perform operation
      match operation.batch with
      | .ok ts => r.library.items.Perm (lib.items ++ lib.firsts ts) ∧
        r.accepted = (lib.firsts ts).length ∧ r.errors = (lib.clashes ts).map clash
      | .error errors => r = ⟨lib, 0, [.malformed errors]⟩) ∧
    ∀ ts us, ts.Perm us → (ts.map Template.iri).Nodup → (∀ t ∈ ts, lib.get? t.iri = none) →
      (lib.registerAll ts).library = (lib.registerAll us).library := by
  intro lib grown
  have primitives : base.Within lib := base.after_within earlier
  refine ⟨?_, primitives.get? base_triple, primitives.get? base_cross, lib.after_size later, ?_,
    fun ts us => registerAll_comm⟩
  · intro iri t found
    exact ⟨lib.iri_of_get? iri t found, (lib.after_within later).get? found⟩
  · intro operation r
    have performed : r = lib.settle operation.batch := lib.perform_settles operation
    rw [performed]
    cases operation.batch with
    | ok ts =>
      obtain ⟨items, accepted, errors⟩ := lib.registerAll_takes ts
      exact ⟨items, accepted, errors⟩
    | error errors => rfl

def plain (name : String) : Template := ⟨⟨name⟩, [], .calls [], .nowhere⟩

theorem history_grows_clashing :
    let lib := base.after [.registerAll [plain "u:a", triple, plain "u:b", plain "u:a"]]
    let grown := lib.after [.load .standard "u:", .register (plain "u:c"), .register (plain "u:a")]
    let r := lib.registerAll [plain "u:c", plain "u:a", plain "u:c"]
    lib.get? ⟨"u:a"⟩ = some (plain "u:a") ∧ grown.get? ⟨"u:a"⟩ = some (plain "u:a") ∧
      lib.size = 4 ∧ grown.size = 5 ∧
      r.accepted = 1 ∧ r.errors = [clash (plain "u:a"), clash (plain "u:c")] ∧
      (lib.registerAll [plain "u:c", plain "u:d"]).library =
        (lib.registerAll [plain "u:d", plain "u:c"]).library := by
  intro lib grown r
  obtain ⟨kept, -, -, size, performed, swapped⟩ := history_grows
    [.registerAll [plain "u:a", triple, plain "u:b", plain "u:a"]]
    [.load .standard "u:", .register (plain "u:c"), .register (plain "u:a")]
  have found : lib.get? ⟨"u:a"⟩ = some (plain "u:a") := rfl
  obtain ⟨-, accepted, errors⟩ := performed (.registerAll [plain "u:c", plain "u:a", plain "u:c"])
  refine ⟨found, (kept _ _ found).2, by decide +kernel, size.trans (by decide +kernel),
    accepted.trans (by decide +kernel), errors.trans (by decide +kernel), ?_⟩
  exact swapped [plain "u:c", plain "u:d"] [plain "u:d", plain "u:c"] (.swap _ _ _)
    (by decide) (by decide +kernel)

end Library

end Stottr

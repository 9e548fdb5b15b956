import Stottr.Namespaces

namespace Stottr.Namespaces

-- The IRI as a prefix that is bound to a namespace, and the name that goes on from there.
structure Abbreviates (ns : Namespaces) (iri : Iri) (label space name : String) : Prop where
  bound : ns.space? label = some space
  notEmpty : space ≠ ""
  whole : iri.text = space ++ name

theorem space?_eq_some_iff {ns : Namespaces} {label space : String} :
    ns.space? label = some space ↔ ⟨label, space⟩ ∈ ns.items := by
  constructor
  · intro bound
    obtain ⟨b, found, rfl⟩ := Option.map_eq_some_iff.mp bound
    have named : b.label = label := ns.key_of_find? label b found
    subst named
    exact ns.mem_of_find? b.label b found
  · intro member
    have found : ns.find? label = some ⟨label, space⟩ := ns.find?_of_mem ⟨label, space⟩ member
    rw [space?, found]
    rfl

theorem Abbreviates.resolve {ns : Namespaces} {iri : Iri} {label space name : String}
    (abbreviates : Abbreviates ns iri label space name) : ns.resolve label name = some iri := by
  rw [Namespaces.resolve, abbreviates.bound, Option.map_some, Iri.inNamespace, ← abbreviates.whole]

theorem remainder?_eq_some_iff {front text rest : List Char} :
    remainder? front text = some rest ↔ text = front ++ rest := by
  induction front generalizing text with
  | nil => simp [remainder?, eq_comm]
  | cons c front ih =>
    cases text with
    | nil => simp [remainder?]
    | cons d text =>
      by_cases same : c = d
      · simp [remainder?, same, ih]
      · simp [remainder?, same, Ne.symm same]

theorem abbreviation?_eq_some_iff {iri : Iri} {b : Binding} {size : Nat} {text : String} :
    abbreviation? iri b = some (size, text) ↔ b.space ≠ "" ∧ size = b.space.utf8ByteSize ∧
      ∃ name, iri.text = b.space ++ name ∧ text = b.label ++ ":" ++ name := by
  unfold abbreviation?
  by_cases empty : b.space = ""
  · simp [empty]
  · rw [if_neg empty, Option.map_eq_some_iff]
    constructor
    · rintro ⟨name, rest, same⟩
      cases same
      refine ⟨empty, rfl, String.ofList name, ?_, rfl⟩
      rw [← String.toList_inj, String.toList_append, String.toList_ofList]
      exact remainder?_eq_some_iff.mp rest
    · rintro ⟨-, rfl, name, whole, rfl⟩
      refine ⟨name.toList, remainder?_eq_some_iff.mpr ?_, by rw [String.ofList_toList]⟩
      rw [whole, String.toList_append]

theorem Abbreviates.candidate {ns : Namespaces} {iri : Iri} {label space name : String}
    (abbreviates : Abbreviates ns iri label space name) :
    abbreviation? iri ⟨label, space⟩ = some (space.utf8ByteSize, label ++ ":" ++ name) :=
  abbreviation?_eq_some_iff.mpr
    ⟨abbreviates.notEmpty, rfl, name, abbreviates.whole, rfl⟩

theorem last_of_greatest {candidates : List (Nat × String)} {best : Option (Nat × String)}
    {chosen : Nat × String} (wins : candidates.foldl better best = some chosen) :
    ∃ front back, best.toList ++ candidates = front ++ chosen :: back ∧
      (∀ c ∈ front, c.1 ≤ chosen.1) ∧ ∀ c ∈ back, c.1 < chosen.1 := by
  induction candidates generalizing best with
  | nil =>
    rw [List.foldl_nil] at wins
    subst wins
    exact ⟨[], [], rfl, nofun, nofun⟩
  | cons c candidates ih =>
    obtain ⟨front, back, parts, below, under⟩ := ih wins
    cases best with
    | none => exact ⟨front, back, parts, below, under⟩
    | some held =>
      unfold better at parts
      dsimp only at parts
      split at parts
      · rename_i less
        cases front with
        | nil =>
          cases parts
          exact ⟨[], c :: candidates, rfl, nofun, List.forall_mem_cons.mpr ⟨less, under⟩⟩
        | cons first front =>
          cases parts
          obtain ⟨most, below⟩ := List.forall_mem_cons.mp below
          have least : c.1 ≤ chosen.1 := Nat.le_of_lt (Nat.lt_of_lt_of_le less most)
          refine ⟨held :: c :: front, back, rfl, ?_, under⟩
          exact List.forall_mem_cons.mpr ⟨most, List.forall_mem_cons.mpr ⟨least, below⟩⟩
      · rename_i notLess
        have most : c.1 ≤ chosen.1 := by
          cases front with
          | nil =>
            cases parts
            exact Nat.le_refl _
          | cons first front =>
            cases parts
            exact below _ List.mem_cons_self
        refine ⟨held :: front, back, by rw [List.cons_append, ← parts]; rfl, ?_, under⟩
        exact List.forall_mem_cons.mpr ⟨Nat.le_trans (Nat.le_of_not_lt notLess) most, below⟩

theorem foldl_better_isSome {candidates : List (Nat × String)} {best : Option (Nat × String)} :
    (candidates.foldl better best).isSome = true ↔ best.isSome = true ∨ candidates ≠ [] := by
  induction candidates generalizing best with
  | nil => simp
  | cons c candidates ih =>
    have some : (better best c).isSome = true := by
      unfold better
      split
      · split <;> rfl
      · rfl
    simp [ih, some]

theorem chosen_of_compact {ns : Namespaces} {iri : Iri} {text : String}
    (found : ns.compact iri = some text) :
    ∃ before b behind size, ns.items = before ++ b :: behind ∧
      abbreviation? iri b = some (size, text) ∧
      (∀ c ∈ before, ∀ a, abbreviation? iri c = some a → a.1 ≤ size) ∧
      ∀ c ∈ behind, ∀ a, abbreviation? iri c = some a → a.1 < size := by
  obtain ⟨⟨size, text⟩, wins, rfl⟩ := Option.map_eq_some_iff.mp found
  obtain ⟨front, back, parts, below, under⟩ := last_of_greatest wins
  obtain ⟨before, others, items, rfl, later⟩ := List.filterMap_eq_append_iff.mp parts
  obtain ⟨skipped, b, behind, rfl, none, one, rfl⟩ := List.filterMap_eq_cons_iff.mp later
  refine ⟨before ++ skipped, b, behind, size, by rw [items, List.append_assoc], one, ?_, ?_⟩
  · intro c member a abbreviates
    rcases List.mem_append.mp member with early | passed
    · exact below a (List.mem_filterMap.mpr ⟨c, early, abbreviates⟩)
    · rw [none c passed] at abbreviates
      cases abbreviates
  · exact fun c member a abbreviates => under a (List.mem_filterMap.mpr ⟨c, member, abbreviates⟩)

-- Of two prefixes of a text the one with fewer bytes leaves more characters.
theorem length_le_of_size_le {space space' name name' : String}
    (same : space ++ name = space' ++ name') (size : space'.utf8ByteSize ≤ space.utf8ByteSize) :
    name.length ≤ name'.length := by
  have texts := congrArg String.toList same
  rw [String.toList_append, String.toList_append] at texts
  rw [← String.length_toList, ← String.length_toList]
  obtain ⟨more, longer, rest⟩ | ⟨more, longer, rest⟩ := List.append_eq_append_iff.mp texts
  · -- The other namespace is the longer one, by nothing.
    have bytes : space'.utf8ByteSize = space.utf8ByteSize + (String.ofList more).utf8ByteSize := by
      rw [← String.utf8ByteSize_append, ← String.ofList_toList (s := space'), longer,
        String.ofList_append, String.ofList_toList]
    have none : String.ofList more = "" := String.utf8ByteSize_eq_zero_iff.mp (by omega)
    have nil : more = [] := by simpa using congrArg String.toList none
    have equal : name.toList = name'.toList := by rw [rest, nil, List.nil_append]
    exact Nat.le_of_eq (congrArg List.length equal)
  · rw [rest, List.length_append]
    exact Nat.le_add_left _ _

theorem compact_isSome_iff {ns : Namespaces} {iri : Iri} :
    (ns.compact iri).isSome = true ↔ ∃ label space name, Abbreviates ns iri label space name := by
  rw [compact, Option.isSome_map, foldl_better_isSome]
  constructor
  · rintro (none | some)
    · cases none
    · obtain ⟨⟨size, text⟩, member⟩ := List.exists_mem_of_ne_nil _ some
      obtain ⟨b, present, one⟩ := List.mem_filterMap.mp member
      obtain ⟨notEmpty, -, name, whole, -⟩ := abbreviation?_eq_some_iff.mp one
      exact ⟨b.label, b.space, name, space?_eq_some_iff.mpr present, notEmpty, whole⟩
  · rintro ⟨label, space, name, abbreviates⟩
    have present := space?_eq_some_iff.mp abbreviates.bound
    exact .inr (List.ne_nil_of_mem
      (List.mem_filterMap.mpr ⟨_, present, abbreviates.candidate⟩))

-- An IRI is abbreviated whenever it begins with a namespace that is bound. The name behind the colon
-- is the shortest, of prefixes with one namespace the last in order is taken, and another prefix
-- gives a shorter text only where it is shorter itself.
theorem compact_longest (ns : Namespaces) (iri : Iri) :
    ((ns.compact iri).isSome = true ↔
      ∃ label space name, Abbreviates ns iri label space name) ∧
    ∀ text, ns.compact iri = some text → ∃ label space name,
      Abbreviates ns iri label space name ∧ text = label ++ ":" ++ name ∧
      ns.resolve label name = some iri ∧
      ∀ label' space' name', Abbreviates ns iri label' space' name' →
        name.length ≤ name'.length ∧ (space' = space → label' ≤ label) ∧
        ((label' ++ ":" ++ name').length < text.length → label'.length < label.length) := by
  refine ⟨compact_isSome_iff, fun text found => ?_⟩
  obtain ⟨before, b, behind, size, items, one, below, under⟩ := chosen_of_compact found
  obtain ⟨notEmpty, rfl, name, whole, rfl⟩ := abbreviation?_eq_some_iff.mp one
  have held : b ∈ ns.items := items ▸ List.mem_append_right before List.mem_cons_self
  have abbreviates : Abbreviates ns iri b.label b.space name :=
    ⟨space?_eq_some_iff.mpr held, notEmpty, whole⟩
  refine ⟨b.label, b.space, name, abbreviates, rfl, abbreviates.resolve, ?_⟩
  intro label space name' other
  have present : ⟨label, space⟩ ∈ before ++ b :: behind :=
    items ▸ space?_eq_some_iff.mp other.bound
  have most : space.utf8ByteSize ≤ b.space.utf8ByteSize := by
    rcases List.mem_append.mp present with early | rest
    · exact below _ early _ other.candidate
    · rcases List.mem_cons.mp rest with rfl | late
      · exact Nat.le_refl _
      · exact Nat.le_of_lt (under _ late _ other.candidate)
  have shortest := length_le_of_size_le (whole.symm.trans other.whole) most
  refine ⟨shortest, ?_, ?_⟩
  · rintro rfl
    have ascending := items ▸ ns.ascending
    obtain ⟨-, -, apart⟩ := List.pairwise_append.mp ascending
    rcases List.mem_append.mp present with early | rest
    · exact Std.le_of_lt (apart _ early b List.mem_cons_self)
    · rcases List.mem_cons.mp rest with same | late
      · exact same ▸ String.le_refl label
      · exact absurd (under _ late _ other.candidate) (Nat.lt_irrefl _)
  · simp only [String.length_append]
    omega

def nested : Namespaces :=
  bind (bind (bind Keyed.empty "a" "http://e/") "longer" "http://e/x") "long" "http://e/x"

theorem compact_longest_nested :
    nested.compact ⟨"http://e/xy"⟩ = some "longer:y" ∧ ∃ label space name,
      Abbreviates nested ⟨"http://e/xy"⟩ label space name ∧ "longer:y" = label ++ ":" ++ name ∧
      nested.resolve label name = some ⟨"http://e/xy"⟩ ∧
      ∀ label' space' name', Abbreviates nested ⟨"http://e/xy"⟩ label' space' name' →
        name.length ≤ name'.length ∧ (space' = space → label' ≤ label) ∧
        ((label' ++ ":" ++ name').length < "longer:y".length → label'.length < label.length) := by
  have found : nested.compact ⟨"http://e/xy"⟩ = some "longer:y" := by decide +kernel
  exact ⟨found, (compact_longest nested ⟨"http://e/xy"⟩).2 _ found⟩

theorem not_compact_shortest :
    ¬∀ (ns : Namespaces) (iri : Iri) (text : String), ns.compact iri = some text →
      ∀ label space name, Abbreviates ns iri label space name →
        text.length ≤ (label ++ ":" ++ name).length := by
  intro claimed
  have found : nested.compact ⟨"http://e/xy"⟩ = some "longer:y" := by decide +kernel
  have shorter := claimed nested ⟨"http://e/xy"⟩ _ found "a" "http://e/" "xy"
    ⟨by decide +kernel, by decide, by decide⟩
  exact absurd shorter (by decide)

end Stottr.Namespaces

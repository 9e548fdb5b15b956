import Stottr.Proofs.Token.Names

namespace Stottr

namespace Iri

-- The IRI could have been written in full.
def Absolute (iri : Iri) : Prop := parse iri.text = .ok iri

instance (iri : Iri) : Decidable iri.Absolute := inferInstanceAs (Decidable (_ = _))

theorem parse_eq_ok_iff {text : String} {iri : Iri} :
    parse text = .ok iri ↔ iri.text = text ∧ iri.Absolute := by
  unfold Absolute parse
  constructor
  · intro read
    split at read
    · rename_i sound
      cases read
      exact ⟨rfl, by rw [sound]⟩
    · cases read
  · rintro ⟨rfl, read⟩
    exact read

theorem absolute_iff {iri : Iri} :
    iri.Absolute ↔ (∀ c ∈ iri.text.toList, admits c = true) ∧
      ∃ c rest, iri.text.toList = c :: rest ∧ c ≠ ':' ∧ ':' ∈ rest := by
  unfold Absolute parse defect
  cases spelled : iri.text.toList with
  | nil => simp
  | cons c rest =>
    dsimp only
    cases bad : (c :: rest).find? (!admits ·) with
    | some d =>
      have member := List.mem_of_find?_eq_some bad
      have refused : admits d = false := by simpa using List.find?_some bad
      refine iff_of_false nofun ?_
      rintro ⟨all, -⟩
      cases refused.symm.trans (all d member)
    | none =>
      have all : ∀ d ∈ c :: rest, admits d = true := by simpa using bad
      by_cases schemed : c ≠ ':' ∧ ':' ∈ rest
      · rw [if_pos schemed]
        exact iff_of_true rfl ⟨all, c, rest, rfl, schemed⟩
      · rw [if_neg schemed]
        refine iff_of_false nofun ?_
        rintro ⟨-, d, others, same, scheme⟩
        cases same
        exact schemed scheme

end Iri

namespace Token

open Text

theorem isNameChar_of_isBlank {c : Char} (blank : isBlank c = true) : isNameChar c = false := by
  obtain ⟨r, member, lower, upper⟩ := (inRanges_iff _ _).mp blank
  have listed : c.toNat ∈ blankRanges.flatMap fun r => List.range' r.1 (r.2 + 1 - r.1) := by
    refine List.mem_flatMap.mpr ⟨r, member, List.mem_range'_1.mpr ?_⟩
    omega
  have apart : ∀ n ∈ blankRanges.flatMap fun r => List.range' r.1 (r.2 + 1 - r.1),
      isNameChar (Char.ofNat n) = false := by decide +kernel
  have same := apart _ listed
  rwa [Char.ofNat_toNat] at same

theorem admits_of_isNameChar {c : Char} (named : isNameChar c = true) :
    Iri.admits c = true ∧ c ≠ ':' := by
  have apart : ∀ d, isNameChar d = false → c ≠ d := by
    rintro d foreign rfl
    cases foreign.symm.trans named
  have visible : isBlank c = false := by
    by_contra blank
    cases (isNameChar_of_isBlank ((Bool.not_eq_false _).mp blank)).symm.trans named
  have free : c ∉ Iri.forbidden := by
    have foreign : (Iri.forbidden.all fun d => !isNameChar d) = true := by decide +kernel
    intro member
    have other : isNameChar c = false := by simpa using List.all_eq_true.mp foreign c member
    exact apart c other rfl
  refine ⟨by simp [Iri.admits, visible, free], apart ':' (by decide +kernel)⟩

theorem inNamespace_absolute_iff {space name : String}
    (named : ∀ c ∈ name.toList, isNameChar c = true) :
    (Iri.inNamespace space name).Absolute ↔ (Iri.mk space).Absolute := by
  have colonless : ':' ∉ name.toList := fun member =>
    (admits_of_isNameChar (named _ member)).2 rfl
  have admitted : ∀ c ∈ name.toList, Iri.admits c = true := fun c member =>
    (admits_of_isNameChar (named c member)).1
  have spelled : (Iri.inNamespace space name).text.toList = space.toList ++ name.toList :=
    String.toList_append
  rw [Iri.absolute_iff, Iri.absolute_iff, spelled, List.forall_mem_append, and_iff_left admitted]
  refine and_congr_right fun _ => ?_
  cases space.toList with
  | nil =>
    refine iff_of_false ?_ nofun
    rintro ⟨c, rest, same, -, colon⟩
    refine colonless ?_
    rw [← List.nil_append name.toList, same]
    exact List.mem_cons_of_mem c colon
  | cons c rest => simp [colonless]

def written (t : Token) : List WrittenIri :=
  match t.kind with
  | .iri name | .literal _ (some (.datatype name)) => [name]
  | _ => []

theorem name_of_written {t : Token} {label name : String}
    (member : .prefixed label name ∈ t.written) : (name, []) ∈ t.kind.names := by
  unfold written at member
  split at member
  · rename_i kind
    rw [kind, ← List.mem_singleton.mp member]
    exact List.mem_cons_of_mem _ List.mem_cons_self
  · rename_i kind
    rw [kind, ← List.mem_singleton.mp member]
    exact List.mem_cons_of_mem _ List.mem_cons_self
  · cases member

theorem names_of_narrow {text : String} {stream : TokenStream}
    (accepted : scan text = .ok stream) (narrow : ∀ c ∈ text.toList, c.utf8Size = 1) :
    ∀ t ∈ stream.tokens, ∀ n ∈ t.kind.names, ∀ c ∈ n.1.toList, isNameChar c = true := by
  intro t member n named
  obtain ⟨front, first, rest, found, read, kind, stands⟩ := stands_of_scan accepted t member
  rw [kind] at named
  obtain ⟨lead, parts, takes⟩ := lexeme_named read n named
  have within : ∀ c ∈ n.1.toList ++ n.2 ++ rest.drop found.more, c ∈ text.toList := by
    intro c inside
    rw [stands.whole, ← List.take_succ_cons, parts]
    simp only [List.mem_append] at inside ⊢
    tauto
  have name : IsName n.1.toList _ := takes.isName_iff.mpr fun c inside =>
    narrow c (within c (List.takeWhile_subset _ inside))
  exact name.characters

end Token

end Stottr

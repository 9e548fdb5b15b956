import Stottr.Proofs.Document.Derived
import Stottr.Proofs.Document.Prefixes
import Stottr.Proofs.Library.Registration

namespace Stottr.Library

def Registration.result (r : Registration) : Except (List LoadError) Nat :=
  match r.errors with
  | [] => .ok r.accepted
  | errors => .error errors

theorem get?_insert (lib : Library) (t : Template) (iri : Iri) :
    get? (lib.insert t) iri = if t.iri = iri then some t else lib.get? iri := by
  unfold get?
  rw [Keyed.find?_insert]
  by_cases same : t.iri = iri
  · simp [same]
  · simp [same, text_ne_iff.mpr same]

theorem get?_registerAll (lib : Library) (ts : List Template) (iri : Iri) :
    (lib.registerAll ts).library.get? iri =
      (lib.get? iri).or (ts.find? fun t => t.iri = iri) := by
  induction ts generalizing lib with
  | nil => simp [registerAll]
  | cons t ts ih =>
    unfold registerAll
    cases held : lib.get? t.iri with
    | none =>
      rw [register_of_free held]
      dsimp only
      rw [ih, get?_insert]
      by_cases same : t.iri = iri
      · rw [same] at held
        simp [same, held]
      · simp [same]
    | some u =>
      rw [register_of_held (by rw [held]; rfl)]
      dsimp only
      rw [ih]
      by_cases same : t.iri = iri
      · simp [← same, held]
      · simp [same]

theorem length_firsts_add (lib : Library) (ts : List Template) :
    (lib.firsts ts).length + (lib.clashes ts).length = ts.length := by
  unfold firsts clashes
  rw [List.length_map, List.length_map, ← List.length_eq_length_filter_add, List.length_zipIdx]

theorem clashes_eq_nil_iff (lib : Library) (ts : List Template) :
    lib.clashes ts = [] ↔
      (ts.map Template.iri).Nodup ∧ ∀ t ∈ ts, lib.get? t.iri = none := by
  constructor
  · intro none
    have first : ∀ k (bound : k < ts.length), lib.isFirst (ts.take k) ts[k] = true := by
      intro k bound
      unfold clashes at none
      rw [List.map_eq_nil_iff, List.filter_eq_nil_iff] at none
      simpa using none (ts[k], k) (List.mk_mem_zipIdx_iff_getElem?.mpr (by simp [bound]))
    refine ⟨List.pairwise_iff_getElem.mpr ?_, ?_⟩
    · intro j k _ bound less
      rw [List.length_map] at bound
      have earlier : j < ts.length := less.trans bound
      have apart := first k bound
      simp only [isFirst, Bool.and_eq_true, List.all_eq_true] at apart
      have early : ts[j] ∈ ts.take k :=
        List.mem_take_iff_getElem.mpr ⟨j, lt_min less earlier, rfl⟩
      simpa using apart.2 _ early
    · intro t member
      obtain ⟨k, bound, rfl⟩ := List.mem_iff_getElem.mp member
      have new := first k bound
      simp only [isFirst, Bool.and_eq_true] at new
      simpa using new.1
  · rintro ⟨distinct, new⟩
    have lengths := lib.length_firsts_add ts
    rw [firsts_of_distinct distinct new] at lengths
    exact List.length_eq_zero_iff.mp (by omega)

theorem result_registerAll (lib : Library) (ts : List Template) :
    (lib.registerAll ts).result =
      if lib.clashes ts = [] then .ok ts.length else .error ((lib.clashes ts).map clash) := by
  have taken := lib.registerAll_takes ts
  have accepted : (lib.registerAll ts).accepted = (lib.firsts ts).length := taken.accepted
  have errors : (lib.registerAll ts).errors = (lib.clashes ts).map clash := taken.errors
  have lengths := lib.length_firsts_add ts
  unfold Registration.result
  rw [errors]
  cases clashing : lib.clashes ts with
  | nil =>
    rw [clashing, List.length_nil, Nat.add_zero] at lengths
    rw [accepted, lengths]
    rfl
  | cons t others => rfl

section Texts

open Document

variable {lib : Library} {ns : Namespaces} {text : String}

theorem load_of_unread {e : LexError} (stopped : Token.scan text = .error e) :
    lib.load ns text = ⟨⟨lib, 0, [.malformed [.lexical e]]⟩, ns⟩ := by
  unfold load templates Document.read
  rw [stopped]

theorem load_of_scan {stream : TokenStream} (scanned : Token.scan text = .ok stream) :
    lib.load ns text =
      let d := ofTokens template stream.stop ns stream.tokens
      match d.errors with
      | [] => ⟨lib.registerAll d.items, d.namespaces⟩
      | errors => ⟨⟨lib, 0, [.malformed (errors.map .parse)]⟩, ns⟩ := by
  unfold load templates
  rw [read_of_scan scanned, ofStream, Reading.ofDocument]
  dsimp only
  cases (ofTokens template stream.stop ns stream.tokens).errors <;> rfl

end Texts

-- A text without errors is that of its declarations. They leave their prefixes, and the result
-- tells whether all of its templates are new, under names of their own.
theorem load_exact (lib : Library) (ns : Namespaces) (text : String) :
    let loaded := lib.load ns text
    match Token.scan text with
    | .error e =>
      loaded.library = lib ∧ loaded.namespaces = ns ∧
        loaded.result = .error [.malformed [.lexical e]]
    | .ok stream =>
      let d := Document.ofTokens Document.template stream.stop ns stream.tokens
      match d.errors with
      | [] =>
        Document.Declarations Document.TemplateRun ns stream.tokens d.items loaded.namespaces ∧
        loaded.namespaces = Document.bindAll ns (Document.bindings stream.tokens) ∧
        (∀ iri, loaded.library.get? iri =
          (lib.get? iri).or (d.items.find? fun t => t.iri = iri)) ∧
        loaded.result = (if lib.clashes d.items = [] then .ok d.items.length
          else .error ((lib.clashes d.items).map clash)) ∧
        (lib.clashes d.items = [] ↔
          (d.items.map Template.iri).Nodup ∧ ∀ t ∈ d.items, lib.get? t.iri = none)
      | errors =>
        (¬∃ items after, Document.Declarations Document.TemplateRun ns stream.tokens items after) ∧
        loaded.library = lib ∧ loaded.namespaces = ns ∧
          loaded.result = .error [.malformed (errors.map .parse)] := by
  cases scanned : Token.scan text with
  | error e =>
    rw [load_of_unread scanned]
    exact ⟨rfl, rfl, rfl⟩
  | ok stream =>
    rw [load_of_scan scanned]
    dsimp only
    cases failed : (Document.ofTokens Document.template stream.stop ns stream.tokens).errors with
    | nil =>
      have run := Document.ofTokens_declarations (fun _ _ _ taken => Document.template_run taken)
        stream.stop ns stream.tokens failed
      exact ⟨run, run.namespaces fun _ _ _ one => one.inner, lib.get?_registerAll _,
        lib.result_registerAll _, lib.clashes_eq_nil_iff _⟩
    | cons e errors =>
      refine ⟨?_, rfl, rfl, rfl⟩
      rintro ⟨items, after, run⟩
      have clean := Document.ofTokens_of_declarations
        (fun _ _ _ rest run => Document.template_takes run rest) (fun _ _ _ run => run.begins)
        stream.stop run
      rw [clean] at failed
      cases failed

-- The prefix is bound again between two templates, so that the third is the one that clashes.
def rebound : String :=
  "@prefix e: <u:> . e:a[ ] :: \x7b \x7d . @prefix e: <v:> . e:a[ ] :: \x7b \x7d . " ++
    "<u:a>[ ?x ] :: \x7b \x7d ."

example : (base.load .standard rebound).namespaces.space? "e" = some "v:" ∧
    (base.load .standard rebound).result = .error [.redefinition ⟨"u:a"⟩ ⟨68, 88, 1, 69⟩] := by
  decide +kernel

end Stottr.Library

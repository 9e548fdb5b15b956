import Mathlib.Data.List.SplitLengths
import Stottr.Proofs.Document.Accepted
import Stottr.Proofs.Document.Locality

namespace Stottr.Document

attribute [simp] nesting

def depth (ts : List Token) : Int := (ts.map fun t => nesting t.kind).sum

@[simp] theorem depth_nil : depth [] = 0 := rfl

@[simp] theorem depth_cons (t : Token) (ts : List Token) :
    depth (t :: ts) = nesting t.kind + depth ts := by
  simp [depth]

@[simp] theorem depth_append (ts us : List Token) : depth (ts ++ us) = depth ts + depth us := by
  simp [depth]

section Runs

variable {ns : Namespaces} {scope : List Parameter} {ts : List Token}

theorem Listed.depth {α : Type} {Item : List α → List Token → α → Prop} {found all : List α}
    (listed : Listed Item found ts all)
    (each : ∀ found us a, Item found us a → Document.depth us = 0) : Document.depth ts = 0 := by
  refine listed.run (P := fun ts => Document.depth ts = 0) rfl each ?_
  intro us vs comma separator one others
  simp [separator, one, others]

theorem TermRun.depth {a : Argument} (run : TermRun ns scope ts a) : Document.depth ts = 0 := by
  refine TermRun.induction (P := fun ts _ => Document.depth ts = 0) ?_ ?_ run
  · intro t a meaning
    generalize written : t.kind = kind at meaning
    cases meaning <;> simp [written]
  · intro opening closing ts items opens closes inside
    have level := inside.depth fun _ _ _ one => one.2
    simp [opens, closes, level]

theorem ArgumentRun.depth {a : Argument} (run : ArgumentRun ns scope ts a) :
    Document.depth ts = 0 := by
  cases run with
  | plain term => exact term.depth
  | expand marked term => simp [marked, term.depth]

theorem TypeRun.depth {type : ParamType} (run : TypeRun ns ts type) : Document.depth ts = 0 := by
  induction run with
  | named written => simp [written]
  | list opens closes _ ih | nonEmptyList opens closes _ ih => simp [opens, closes, ih]

theorem MarksRun.depth {nonBlank optional marked omittable : Bool}
    (run : MarksRun nonBlank optional ts marked omittable) : Document.depth ts = 0 := by
  induction run with
  | done => rfl
  | nonBlank mark _ ih | optional mark _ ih => simp [mark, ih]

theorem TypedRun.depth {type : ParamType} (run : TypedRun ns ts type) : Document.depth ts = 0 := by
  cases run with
  | untyped => rfl
  | typed given => exact given.depth

theorem DefaultRun.depth {default : Option Term} (run : DefaultRun ns ts default) :
    Document.depth ts = 0 := by
  cases run with
  | none => rfl
  | given assigned constant => simp [assigned, TermRun.depth constant]

theorem ParameterRun.depth {index : Nat} {p : Parameter} (run : ParameterRun ns index ts p) :
    Document.depth ts = 0 := by
  cases run with
  | parameter marked typed named value =>
    simp [marked.depth, typed.depth, named, value.depth]

theorem ModeRun.depth {mode : Option ExpansionMode} (run : ModeRun ts mode) :
    Document.depth ts = 0 := by
  cases run with
  | none => rfl
  | mode written piped => simp [written, piped]

theorem NameRun.depth {iri : Iri} (run : NameRun ns ts iri) : Document.depth ts = 0 := by
  cases run with
  | name written => simp [written]

theorem CallRun.depth {inner : Call} (run : CallRun ns scope ts inner) :
    Document.depth ts = 0 := by
  cases run with
  | call moded named opens closes given =>
    have level := given.depth fun _ _ _ one => one.depth
    simp [moded.depth, named.depth, opens, closes, level]

def Closed (ts : List Token) : Prop :=
  ∃ front dot, ts = front ++ [dot] ∧ dot.kind = .dot ∧ depth front = 0

theorem TemplateRun.closed {t : Template} (run : TemplateRun ns ts t) : Closed ts := by
  cases run with
  | @template names signature body opening closing colons begins ends dot iri parameters calls named
      opens closes signed defined begun ended made stops =>
    refine ⟨names ++ opening :: signature ++ closing :: colons :: begins :: body ++ [ends], dot,
      by simp, stops, ?_⟩
    have head := signed.depth fun _ _ _ one => one.1.depth
    have inside := made.depth fun _ _ _ one => one.depth
    simp [named.depth, opens, closes, defined, begun, ended, head, inside]

theorem InstanceRun.closed {i : Instance} (run : InstanceRun ns ts i) : Closed ts := by
  cases run with
  | @ground names ts opening closing dot iri arguments named opens closes given stops =>
    refine ⟨names ++ opening :: ts ++ [closing], dot, by simp, stops, ?_⟩
    have level := given.depth fun _ _ _ one => TermRun.depth one
    simp [named.depth, opens, closes, level]

theorem BindingRun.closed {b : Binding} (run : BindingRun ts b) : Closed ts := by
  cases run with
  | @binding keyword name space dot label text begins named spaced stops =>
    exact ⟨[keyword, name, space], dot, rfl, stops, by simp [begins, named, spaced]⟩

end Runs

-- A run of tokens for one declaration, where the brackets around it have this depth. It ends with
-- its first dot that is outside all brackets, and a prefix declaration can only be the whole of it.
structure CompleteAt (outside : Int) (run : List Token) : Prop where
  ends : ∃ front dot, run = front ++ [dot] ∧ dot.kind = .dot ∧ outside + depth front ≤ 0
  first : ∀ front dot back, run = front ++ dot :: back → dot.kind = .dot →
    outside + depth front ≤ 0 → back = []
  prefixes : ∀ t ∈ run.tail, t.kind ≠ .prefixKeyword

abbrev Complete : List Token → Prop := CompleteAt 0

theorem atKeyword_eq_false_iff {ts : List Token} :
    atKeyword ts = false ↔ ∀ t ∈ ts.head?, t.kind ≠ .prefixKeyword := by
  cases ts <;> simp [atKeyword]

theorem not_completeAt_nil (outside : Int) : ¬ CompleteAt outside [] := by
  intro complete
  obtain ⟨front, dot, same, -⟩ := complete.ends
  cases front <;> cases same

theorem CompleteAt.of_cons {outside : Int} {t : Token} {rest : List Token}
    (complete : CompleteAt outside (t :: rest)) (inside : ¬ (t.kind = .dot ∧ outside ≤ 0)) :
    atKeyword rest = false ∧ CompleteAt (outside + nesting t.kind) rest := by
  obtain ⟨⟨front, dot, same, kind, level⟩, first, prefixes⟩ := complete
  refine ⟨?_, ?_, ?_, ?_⟩
  · rw [atKeyword_eq_false_iff]
    exact fun u head => prefixes u (List.mem_of_mem_head? head)
  · cases front with
    | nil =>
      cases same
      exact absurd ⟨kind, by simpa using level⟩ inside
    | cons u front =>
      cases same
      exact ⟨front, dot, rfl, kind, by simpa [Int.add_assoc] using level⟩
  · intro front dot back same kind level
    subst same
    exact first (t :: front) dot back rfl kind (by simpa [Int.add_assoc] using level)
  · exact fun u member => prefixes u (List.mem_of_mem_tail member)

theorem CompleteAt.cons {outside : Int} {t : Token} {rest : List Token}
    (inside : ¬ (t.kind = .dot ∧ outside ≤ 0)) (before : atKeyword rest = false)
    (complete : CompleteAt (outside + nesting t.kind) rest) : CompleteAt outside (t :: rest) := by
  obtain ⟨⟨front, dot, same, kind, level⟩, first, prefixes⟩ := complete
  refine ⟨⟨t :: front, dot, by rw [same]; rfl, kind, by simpa [Int.add_assoc] using level⟩, ?_, ?_⟩
  · intro front dot back same kind level
    cases front with
    | nil =>
      cases same
      exact absurd ⟨kind, by simpa using level⟩ inside
    | cons u front =>
      cases same
      exact first front dot back rfl kind (by simpa [Int.add_assoc] using level)
  · rw [atKeyword_eq_false_iff] at before
    intro u member
    cases rest with
    | nil => cases member
    | cons v rest =>
      rcases List.mem_cons.mp member with rfl | later
      · exact before _ rfl
      · exact prefixes u later

theorem completeAt_dot {outside : Int} {t : Token} (ends : t.kind = .dot ∧ outside ≤ 0) :
    CompleteAt outside [t] := by
  refine ⟨⟨[], t, rfl, ends.1, by simpa using ends.2⟩, ?_, nofun⟩
  intro front dot back same _ _
  cases front with
  | nil =>
    cases same
    rfl
  | cons u front => simp at same

theorem completeAt_cons_iff {outside : Int} {t : Token} {rest : List Token} :
    CompleteAt outside (t :: rest) ↔
      if t.kind = .dot ∧ outside ≤ 0 then rest = []
      else atKeyword rest = false ∧ CompleteAt (outside + nesting t.kind) rest := by
  split
  · rename_i ends
    refine ⟨fun complete => complete.first [] t rest rfl ends.1 (by simpa using ends.2), ?_⟩
    rintro rfl
    exact completeAt_dot ends
  · rename_i inside
    exact ⟨fun complete => complete.of_cons inside, fun later => .cons inside later.1 later.2⟩

def decidableCompleteAt (outside : Int) : (run : List Token) → Decidable (CompleteAt outside run)
  | [] => .isFalse (not_completeAt_nil outside)
  | t :: rest =>
    have : Decidable (CompleteAt (outside + nesting t.kind) rest) := decidableCompleteAt _ rest
    decidable_of_iff _ completeAt_cons_iff.symm

instance (outside : Int) (run : List Token) : Decidable (CompleteAt outside run) :=
  decidableCompleteAt outside run

-- To skip a complete run is to go to its end, wherever the reader gave it up.
theorem skip_of_completeAt {outside : Int} {run : List Token} (complete : CompleteAt outside run)
    (more : List Token) : skip outside (run ++ more) = more := by
  induction run generalizing outside with
  | nil => exact absurd complete (not_completeAt_nil outside)
  | cons t rest ih =>
    rw [completeAt_cons_iff] at complete
    rw [List.cons_append, skip]
    split at complete
    · rename_i ends
      rw [if_pos ends, complete, List.nil_append]
    · rename_i inside
      obtain ⟨before, later⟩ := complete
      have onward : atKeyword (rest ++ more) = false := by
        cases rest with
        | nil => exact absurd later (not_completeAt_nil _)
        | cons u rest => exact before
      rw [if_neg inside, onward, if_neg Bool.false_ne_true, ih later]

theorem rest_of_complete {run front rest : List Token} (complete : Complete run)
    (spelled : run = front ++ rest) (closed : Closed front) : rest = [] := by
  obtain ⟨before, dot, rfl, kind, level⟩ := closed
  refine complete.first before dot rest ?_ kind (by simp [level])
  rw [spelled, List.append_assoc, List.singleton_append]

structure Isolable {α : Type} (item : Item α) : Prop where
  limited : Local item
  closed : ∀ r ts (one : Parsed α ts), item r ts = .ok one → Spelled (fun us _ => Closed us) one

theorem template_isolable : Isolable template := by
  refine ⟨fun _ _ _ _ _ dotted => template_local dotted, ?_⟩
  intro r ts one read
  obtain ⟨front, spelled, run⟩ := template_run read
  exact ⟨front, spelled, run.closed⟩

theorem groundInstance_isolable : Isolable groundInstance := by
  refine ⟨fun _ _ _ _ _ dotted => groundInstance_local dotted, ?_⟩
  intro r ts one read
  obtain ⟨front, spelled, run⟩ := groundInstance_run read
  exact ⟨front, spelled, run.closed⟩

section Declarations

variable {α : Type} {item : Item α} {ns : Namespaces} {run : List Token}

theorem CompleteAt.dotted {outside : Int} (complete : CompleteAt outside run) : Dotted run := by
  obtain ⟨front, dot, rfl, kind, -⟩ := complete.ends
  exact ⟨dot, List.mem_append_right _ List.mem_cons_self, kind⟩

theorem rest_of_declaration (isolable : Isolable item) (complete : Complete run)
    {stop : Text.Span} {found : Parsed (Declared α) run}
    (read : declaration ⟨ns, stop⟩ (item ⟨ns, stop⟩) run = .ok found) : found.rest = [] := by
  have whole : Spelled (DeclarationRun (fun _ us _ => Closed us) ns) found :=
    declaration_run (isolable.closed _) read
  obtain ⟨front, spelled, declared⟩ := whole
  refine rest_of_complete complete spelled ?_
  generalize found.value = value at declared
  cases declared with
  | binding bound => exact bound.closed
  | item closed => exact closed

def followedBy (first later : Document α) : Document α :=
  ⟨first.items ++ later.items, first.errors ++ later.errors, later.namespaces⟩

def ofDeclared (ns : Namespaces) : Declared α → Document α
  | .binding b => ⟨[], [], ns.bind b.label b.space⟩
  | .item value => ⟨[value], [], ns⟩

theorem ofTokens_nil (item : Item α) (stop : Text.Span) (ns : Namespaces) :
    ofTokens item stop ns [] = ⟨[], [], ns⟩ := by
  rw [ofTokens]

theorem ofTokens_error {ts : List Token} {stop : Text.Span} {e : ParseError} (given : ts ≠ [])
    (failed : declaration ⟨ns, stop⟩ (item ⟨ns, stop⟩) ts = .error e) :
    ofTokens item stop ns ts =
      followedBy ⟨[], [e], ns⟩ (ofTokens item stop ns (skip 0 ts)) := by
  cases ts with
  | nil => exact absurd rfl given
  | cons t rest =>
    rw [ofTokens, failed]
    rfl

theorem ofTokens_ok {ts : List Token} {stop : Text.Span} {found : Parsed (Declared α) ts}
    (read : declaration ⟨ns, stop⟩ (item ⟨ns, stop⟩) ts = .ok found) :
    ofTokens item stop ns ts =
      followedBy (ofDeclared ns found.value)
        (ofTokens item stop (ofDeclared ns found.value).namespaces found.rest) := by
  cases ts with
  | nil => exact absurd found.shorter (Nat.not_lt_zero _)
  | cons t rest =>
    rw [ofTokens, read]
    dsimp only
    cases found.value <;> rfl

theorem ofTokens_append (isolable : Isolable item) (complete : Complete run)
    (stop stop' : Text.Span) (ns : Namespaces) (more : List Token) :
    ofTokens item stop' ns (run ++ more) =
      followedBy (ofTokens item stop ns run)
        (ofTokens item stop' (ofTokens item stop ns run).namespaces more) := by
  have given : run ≠ [] := by
    rintro rfl
    exact not_completeAt_nil 0 complete
  have same : Alike (Matches more) (declaration ⟨ns, stop⟩ (item ⟨ns, stop⟩) run)
      (declaration ⟨ns, stop'⟩ (item ⟨ns, stop'⟩) (run ++ more)) :=
    declaration_local isolable.limited complete.dotted
  cases alone : declaration ⟨ns, stop⟩ (item ⟨ns, stop⟩) run with
  | error e =>
    cases within : declaration ⟨ns, stop'⟩ (item ⟨ns, stop'⟩) (run ++ more) with
    | error e' =>
      rw [alone, within] at same
      cases same
      have skipped : skip 0 run = [] := by simpa using skip_of_completeAt complete []
      rw [ofTokens_error given alone, skipped, ofTokens_nil,
        ofTokens_error (List.append_ne_nil_of_left_ne_nil given more) within,
        skip_of_completeAt complete]
      rfl
    | ok b =>
      rw [alone, within] at same
      cases same
  | ok a =>
    cases within : declaration ⟨ns, stop'⟩ (item ⟨ns, stop'⟩) (run ++ more) with
    | error e =>
      rw [alone, within] at same
      cases same
    | ok b =>
      rw [alone, within] at same
      obtain ⟨value, -, rest⟩ : Matches more a b := by
        cases same
        assumption
      have all : a.rest = [] := rest_of_declaration isolable complete alone
      rw [ofTokens_ok alone, ofTokens_ok within, value, rest, all, ofTokens_nil]
      simp [followedBy]

def ofStream (item : Item α) (ns : Namespaces) (stream : TokenStream) : Reading α :=
  .ofDocument (ofTokens item stream.stop ns stream.tokens)

theorem read_of_scan {text : String} {stream : TokenStream}
    (scanned : Token.scan text = .ok stream) : read item ns text = ofStream item ns stream := by
  rw [read, scanned]
  rfl

def Reading.errors (reading : Reading α) : List SyntaxError :=
  match reading.outcome with
  | .ok _ => []
  | .error errors => errors

-- Each stream is read on its own, with the prefixes that those before it leave.
def inTurn (item : Item α) (ns : Namespaces) : List TokenStream → List (Reading α)
  | [] => []
  | stream :: later =>
    let first := ofStream item ns stream
    first :: inTurn item first.namespaces later

structure Isolated (ns : Namespaces) (whole : Reading α) (parts : List (Reading α)) : Prop where
  errors : whole.errors = parts.flatMap Reading.errors
  namespaces : whole.namespaces = (parts.getLast?.map Reading.namespaces).getD ns
  items : ∀ found : List (List α), parts.map Reading.outcome = found.map .ok →
    whole.outcome = .ok found.flatten

theorem errors_ofDocument (d : Document α) :
    (Reading.ofDocument d).errors = d.errors.map .parse := by
  unfold Reading.errors Reading.ofDocument
  cases d.errors <;> rfl

theorem namespaces_ofDocument (d : Document α) :
    (Reading.ofDocument d).namespaces = d.namespaces := by
  unfold Reading.ofDocument
  cases d.errors <;> rfl

theorem outcome_ofDocument {d : Document α} {items : List α} :
    (Reading.ofDocument d).outcome = .ok items ↔ d.errors = [] ∧ d.items = items := by
  unfold Reading.ofDocument
  cases d.errors <;> simp

theorem Isolated.nil : Isolated ns (.ofDocument ⟨([] : List α), [], ns⟩) [] := by
  refine ⟨rfl, rfl, ?_⟩
  intro found same
  rw [List.map_eq_nil_iff.mp same.symm]
  rfl

theorem Isolated.cons {first later : Document α} {parts : List (Reading α)}
    (rest : Isolated first.namespaces (.ofDocument later) parts) :
    Isolated ns (.ofDocument (followedBy first later)) (.ofDocument first :: parts) := by
  refine ⟨?_, ?_, ?_⟩
  · rw [errors_ofDocument, List.flatMap_cons, errors_ofDocument, ← rest.errors, errors_ofDocument,
      ← List.map_append]
    rfl
  · have left := rest.namespaces
    rw [namespaces_ofDocument] at left ⊢
    rw [List.getLast?_cons, followedBy]
    cases last : parts.getLast? with
    | none => simpa [last, namespaces_ofDocument] using left
    | some reading => simpa [last] using left
  · intro found same
    cases found with
    | nil => cases same
    | cons items found =>
      obtain ⟨alone, others⟩ := List.cons.inj same
      obtain ⟨clean, rfl⟩ := outcome_ofDocument.mp alone
      obtain ⟨clear, all⟩ := outcome_ofDocument.mp (rest.items found others)
      refine outcome_ofDocument.mpr ⟨?_, ?_⟩
      · simp [followedBy, clean, clear]
      · rw [List.flatten_cons, ← all]
        rfl

theorem ofStream_isolated (isolable : Isolable item) {runs : List TokenStream}
    (complete : ∀ run ∈ runs, Complete run.tokens) (stop : Text.Span) (ns : Namespaces) :
    Isolated ns (ofStream item ns ⟨runs.flatMap TokenStream.tokens, stop⟩)
      (inTurn item ns runs) := by
  induction runs generalizing ns with
  | nil =>
    rw [List.flatMap_nil, ofStream, ofTokens_nil]
    exact .nil
  | cons run runs ih =>
    obtain ⟨one, others⟩ := List.forall_mem_cons.mp complete
    rw [ofStream, List.flatMap_cons, ofTokens_append isolable one run.stop]
    refine Isolated.cons ?_
    have rest := ih others (ofTokens item run.stop ns run.tokens).namespaces
    rwa [← namespaces_ofDocument] at rest ⊢

-- One declaration neither hides nor changes an error, an item or a prefix of another.
theorem declarations_isolated (ns : Namespaces) (runs : List TokenStream)
    (complete : ∀ run ∈ runs, Complete run.tokens) (stop : Text.Span) :
    let whole : TokenStream := ⟨runs.flatMap TokenStream.tokens, stop⟩
    let apart := inTurn template ns runs
    let ground := inTurn groundInstance ns runs
    Isolated ns (ofStream template ns whole) apart ∧
    Isolated ns (ofStream groundInstance ns whole) ground ∧
    ∀ text, Token.scan text = .ok whole →
      Isolated ns (templates ns text) apart ∧ Isolated ns (instances ns text) ground := by
  intro whole apart ground
  have first : Isolated ns (ofStream template ns whole) apart :=
    ofStream_isolated template_isolable complete stop ns
  have second : Isolated ns (ofStream groundInstance ns whole) ground :=
    ofStream_isolated groundInstance_isolable complete stop ns
  refine ⟨first, second, ?_⟩
  intro text scanned
  rw [templates, instances, read_of_scan scanned, read_of_scan scanned]
  exact ⟨first, second⟩

-- Six declarations. A dot inside brackets, a call in the place of a template and a variable that is
-- not declared are what is wrong with the second and the last two.
def recovering : String :=
  "@prefix ex: <http://e/> . ex:A[ ?a . ?b ] :: \x7b \x7d . " ++
    "ex:B[ ?a ] :: \x7b ottr:Triple(?a, ex:p, ex:o) \x7d . @prefix ex: <http://f/> . " ++
    "ex:A(?a) . ex:C[ ] :: \x7b ex:B(?a) \x7d ."

theorem declarations_isolated_recovering :
    ∃ runs stop, Token.scan recovering = .ok ⟨runs.flatMap TokenStream.tokens, stop⟩ ∧
      (∀ run ∈ runs, Complete run.tokens) ∧
      (inTurn template .standard runs).map (fun part => part.errors.length) = [0, 1, 0, 0, 1, 1] ∧
      Isolated .standard (templates .standard recovering) (inTurn template .standard runs) := by
  let cut := fun stream : TokenStream =>
    ([4, 10, 16, 4, 5, 11].splitLengths stream.tokens).map (TokenStream.mk · stream.stop)
  have computed : ((Token.scan recovering).map fun stream =>
      decide (stream.tokens = (cut stream).flatMap TokenStream.tokens ∧
        (∀ run ∈ cut stream, Complete run.tokens) ∧
        (inTurn template .standard (cut stream)).map (fun part => part.errors.length) =
          [0, 1, 0, 0, 1, 1])) = .ok true := by decide +kernel
  cases scanned : Token.scan recovering with
  | error e =>
    rw [scanned] at computed
    cases computed
  | ok stream =>
    rw [scanned] at computed
    injection computed with computed
    obtain ⟨joined, complete, counts⟩ := of_decide_eq_true computed
    have whole : Token.scan recovering =
        .ok ⟨(cut stream).flatMap TokenStream.tokens, stream.stop⟩ := by rw [← joined, scanned]
    obtain ⟨_, _, texts⟩ := declarations_isolated .standard (cut stream) complete stream.stop
    exact ⟨cut stream, stream.stop, scanned ▸ whole, complete, counts,
      (texts recovering whole).1⟩

end Declarations

end Stottr.Document

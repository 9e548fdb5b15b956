import Stottr.Proofs.Expansion.WellFormed

namespace Stottr

section Check

variable {α ε : Type} {check : α → Except ε Unit}

theorem exists_of_firstFailure {items : List α} {e : ε}
    (failed : firstFailure check items = .error e) : ∃ a ∈ items, check a = .error e := by
  induction items with
  | nil => cases failed
  | cons b rest ih =>
    unfold firstFailure at failed
    split at failed
    · obtain ⟨a, member, here⟩ := ih failed
      exact ⟨a, List.mem_cons_of_mem b member, here⟩
    · rename_i here
      cases failed
      exact ⟨b, List.mem_cons_self, here⟩

theorem firstFailure_of_passed {front back : List α} {a : α} {e : ε}
    (passed : ∀ b ∈ front, check b = .ok ()) (failed : check a = .error e) :
    firstFailure check (front ++ a :: back) = .error e := by
  induction front with
  | nil => rw [List.nil_append, firstFailure, failed]
  | cons b front ih =>
    obtain ⟨first, others⟩ := List.forall_mem_cons.mp passed
    rw [List.cons_append, firstFailure, first]
    exact ih others

end Check

theorem ParamType.checkSingle_ne (type : ParamType) (value : Term) :
    type.checkSingle value ≠ .error .noneNotAllowed := by
  unfold checkSingle
  split <;> simp
  split <;> simp

theorem ParamType.check_ne (type : ParamType) (value : Term) :
    type.check value ≠ .error .noneNotAllowed := by
  induction type generalizing value with
  | resource | iri | literal | datatype => exact checkSingle_ne _ value
  | list element ih =>
    cases value with
    | list items =>
      intro failed
      obtain ⟨a, -, here⟩ := exists_of_firstFailure failed
      exact ih a here
    | _ => exact checkSingle_ne _ _
  | nonEmptyList element ih =>
    cases value with
    | list items =>
      unfold check
      split
      · simp
      · intro failed
        obtain ⟨a, -, here⟩ := exists_of_firstFailure failed
        exact ih a here
    | _ => exact checkSingle_ne _ _

namespace Parameter

def lacks (p : Parameter) (value : Term) : Bool := value.isNone && !p.optional

theorem check_eq_noneNotAllowed_iff {p : Parameter} {value : Term} :
    p.check value = .error .noneNotAllowed ↔ p.lacks value = true := by
  unfold check lacks
  cases absent : value.isNone with
  | true => cases p.optional <;> simp
  | false =>
    have typed := p.type.check_ne value
    by_cases blank : p.nonBlank ∧ value.hasBlank <;> simp [blank, typed]

end Parameter

namespace Expansion

theorem inOrder_singleton {α : Type} (step : α → Nat → Result) (a : α) (next : Nat) :
    inOrder step [a] next = step a next := by
  unfold inOrder
  cases step a next with
  | error e => rfl
  | ok r => simp [inOrder]

theorem inOrder_skipped {α : Type} {step : α → Nat → Result} {a : α} {next : Nat}
    (skipped : step a next = .ok ⟨next, []⟩) (rest : List α) :
    inOrder step (a :: rest) next = inOrder step rest next := by
  simp only [inOrder, skipped]
  cases inOrder step rest next <;> rfl

variable {s : Setting}

def bindings (s : Setting) (env : Environment) (number : Nat) (inner : Call)
    (target : s.library.Entry) (next : Nat) : List (Parameter × Term) :=
  target.val.parameters.zip (Template.fillAll (fun label => .ofCall label s.scope next)
    target.val.parameters
    (inner.arguments.map (Argument.evaluate env fun label => .ofCall label s.scope number)))

-- A plain call of a registered template, with as many arguments as it can take, that leaves a
-- parameter that must have a value without one.
structure Lacking (s : Setting) (env : Environment) (number : Nat) (inner : Call)
    (target : s.library.Entry) (next : Nat) : Prop where
  plain : inner.mode = none
  found : s.library.entry? inner.template = some target
  enough : target.val.minArity ≤ inner.arguments.length
  fits : inner.arguments.length ≤ target.val.arity
  absent : ∃ b ∈ bindings s env number inner target next, b.1.lacks b.2 = true

variable {env : Environment} {number next : Nat} {inner : Call} {target : s.library.Entry}

theorem perform_refused (path : List Iri) (plain : inner.mode = none)
    (found : s.library.entry? inner.template = some target)
    (enough : target.val.minArity ≤ inner.arguments.length)
    (fits : inner.arguments.length ≤ target.val.arity)
    {passed refused : List (Parameter × Term)} {p : Parameter} {value : Term} {reason : Mismatch}
    (split : bindings s env number inner target next = passed ++ (p, value) :: refused)
    (accepted : ∀ b ∈ passed, b.1.check b.2 = .ok ()) (failed : p.check value = .error reason) :
    perform s path env number inner next =
      if reason = .noneNotAllowed then .ok ⟨next, []⟩
      else
        .error ⟨.mismatch target.val.iri (some p.name) (some value) reason, inner.span⟩ := by
  let values := inner.arguments.map (Argument.evaluate env fun label => .ofCall label s.scope number)
  have performed : perform s path env number inner next =
      call s path false inner.span target values next := by
    simp only [perform, found, rows, plain]
    exact inOrder_singleton _ values next
  have binding : bound s target values inner.span next = .ok (Template.fillAll
      (fun label => .ofCall label s.scope next) target.val.parameters values) := by
    have counted : values.length = inner.arguments.length := List.length_map _
    rw [bound, Template.bind, if_neg]
    omega
  have checked : target.val.checkValues (Template.fillAll
      (fun label => .ofCall label s.scope next) target.val.parameters values) =
        .error ⟨p, value, reason⟩ := by
    unfold Template.checkValues
    change firstFailure _ (bindings s env number inner target next) = _
    rw [split]
    refine firstFailure_of_passed ?_ ?_
    · intro b member
      simp only [accepted b member]
    · simp only [failed]
  rw [performed]
  split
  · rename_i absent
    exact call_of_course s (.skipped binding checked absent rfl)
  · rename_i other
    exact call_of_course s (.misfit binding checked fun excused => other excused.1)

-- The call is left out when the parameters in front of the first that lacks a value accept what
-- they are given. Otherwise the first of those to refuse is what the error is about.
theorem lacking_decides (lacking : Lacking s env number inner target next) (path : List Iri)
    (calls : List Call) :
    let result := perform s path env number inner next
    let earlier := (bindings s env number inner target next).takeWhile fun b => !b.1.lacks b.2
    ((∀ b ∈ earlier, b.1.check b.2 = .ok ()) →
      result = .ok ⟨next, []⟩ ∧
      inOrder (perform s path env number) (inner :: calls) next =
        inOrder (perform s path env number) calls next) ∧
    ∀ passed p value refused reason, earlier = passed ++ (p, value) :: refused →
      (∀ b ∈ passed, b.1.check b.2 = .ok ()) → p.check value = .error reason →
      result = .error ⟨.mismatch target.val.iri (some p.name) (some value) reason, inner.span⟩ := by
  intro result earlier
  obtain ⟨plain, found, enough, fits, absent⟩ := lacking
  obtain ⟨⟨q, missing⟩, first⟩ := Option.isSome_iff_exists.mp (List.find?_isSome.mpr absent)
  obtain ⟨lacks, front, back, split, before⟩ := List.find?_eq_some_iff_append.mp first
  have same : earlier = front := by
    dsimp only at lacks
    simp [earlier, split, List.takeWhile_append_of_pos before, lacks]
  rw [same]
  refine ⟨?_, ?_⟩
  · intro accepted
    have skipped : result = .ok ⟨next, []⟩ := perform_refused path plain found enough fits split
      accepted (Parameter.check_eq_noneNotAllowed_iff.mpr lacks)
    exact ⟨skipped, inOrder_skipped skipped calls⟩
  · intro passed p value refused reason inside accepted failed
    have unlike : reason ≠ .noneNotAllowed := by
      rintro rfl
      have none := Parameter.check_eq_noneNotAllowed_iff.mp failed
      have present := before (p, value) (by simp [inside])
      simp [none] at present
    have later : bindings s env number inner target next =
        passed ++ (p, value) :: (refused ++ (q, missing) :: back) := by
      rw [split, inside, List.append_assoc, List.cons_append]
    have decided := perform_refused path plain found enough fits later accepted failed
    rwa [if_neg unlike] at decided

-- Two templates that differ in the order of their parameters, to be called with a literal for ?x
-- and with nothing for ?y.
def turning : Library :=
  .ofText ("@prefix ex: <http://e/> . ex:Value[ ottr:IRI ?x, ?y ] :: " ++
    "\x7b ottr:Triple(?x, rdf:value, ?y) \x7d . ex:Turned[ ?y, ottr:IRI ?x ] :: " ++
    "\x7b ottr:Triple(?x, rdf:value, ?y) \x7d .")

theorem lacking_decides_turned :
    let s : Setting := ⟨turning, .first, none⟩
    let inner : Call :=
      ⟨⟨"http://e/Turned"⟩, [.variable 0, .concrete (.literal (.plain "w"))], none, .nowhere⟩
    ∃ target, Lacking s [.none] 0 inner target 1 ∧
      perform s [⟨"http://e/A"⟩] [.none] 0 inner 1 = .ok ⟨1, []⟩ := by
  intro s inner
  have computed : (s.library.entry? inner.template).map (fun target =>
      decide (target.val.minArity ≤ 2 ∧ 2 ≤ target.val.arity ∧
        (∃ b ∈ bindings s [.none] 0 inner target 1, b.1.lacks b.2 = true) ∧
        ∀ b ∈ (bindings s [.none] 0 inner target 1).takeWhile (fun b => !b.1.lacks b.2),
          b.1.check b.2 = .ok ())) = some true := by decide +kernel
  obtain ⟨target, found, facts⟩ := Option.map_eq_some_iff.mp computed
  obtain ⟨enough, fits, absent, accepted⟩ := of_decide_eq_true facts
  have lacking : Lacking s [.none] 0 inner target 1 := ⟨rfl, found, enough, fits, absent⟩
  exact ⟨target, lacking, ((lacking_decides lacking [⟨"http://e/A"⟩] []).1 accepted).1⟩

-- In the other order the literal is refused before the absent value is looked at.
theorem not_lacking_skipped :
    ¬ ∀ s : Setting, s.library.FromTexts → ∀ env number inner target next,
      Lacking s env number inner target next →
        ∀ path, perform s path env number inner next = .ok ⟨next, []⟩ := by
  intro every
  let s : Setting := ⟨turning, .first, none⟩
  let inner : Call :=
    ⟨⟨"http://e/Value"⟩, [.concrete (.literal (.plain "w")), .variable 0], none, .nowhere⟩
  have computed : (s.library.entry? inner.template).map (fun target =>
        decide (target.val.minArity ≤ 2 ∧ 2 ≤ target.val.arity ∧
          ∃ b ∈ bindings s [.none] 0 inner target 1, b.1.lacks b.2 = true)) = some true ∧
      perform s [⟨"http://e/A"⟩] [.none] 0 inner 1 =
        .error ⟨.mismatch ⟨"http://e/Value"⟩ (some "x") (some (.literal (.plain "w")))
          (.expectedIri .literal), .nowhere⟩ := by decide +kernel
  obtain ⟨bindable, refused⟩ := computed
  obtain ⟨target, found, facts⟩ := Option.map_eq_some_iff.mp bindable
  obtain ⟨enough, fits, absent⟩ := of_decide_eq_true facts
  have skipped := every s (.ofText _) [.none] 0 inner target 1 ⟨rfl, found, enough, fits, absent⟩
    [⟨"http://e/A"⟩]
  rw [refused] at skipped
  cases skipped

end Expansion

end Stottr

import Stottr.Proofs.Naming.Rows

namespace Stottr.Naming

-- The way down to a call: at each body, which of its calls, and which row of that call.
abbrev Position := List (Nat × Nat)

-- Who wrote a node: the instance, or the call in whose body, or in a default of whose parameters,
-- the label is written.
inductive Origin where
  | given (label : String)
  | written (call : Position) (label : String)
deriving DecidableEq

structure Fact (ν : Type) where
  subject : Value ν
  predicate : Value ν
  object : Value ν

namespace Fact

variable {ν : Type}

def values (fact : Fact ν) : Values ν := [fact.subject, fact.predicate, fact.object]

def nodes (fact : Fact ν) : List ν :=
  fact.subject.nodes ++ fact.predicate.nodes ++ fact.object.nodes

def ofPattern (pattern : Pattern) (value : Argument → Value ν) : Fact ν :=
  ⟨value pattern.subject, value pattern.predicate, value pattern.object⟩

def render (name : ν → BlankNode) (fact : Fact ν) : Statement :=
  ⟨fact.subject.render name, fact.predicate.render name, fact.object.render name⟩

end Fact

-- What a call comes to: the calls whose bodies were entered, in order, and the facts. The nodes in
-- the defaults of a call that fails its checks are reported, so such a call is listed too.
structure Account where
  numbered : List Position
  outcome : Except (Failure Origin) (List (Fact Origin))

namespace Account

def nothing : Account := ⟨[], .ok []⟩

def fault (e : ExpansionError) : Account := ⟨[], .error (.plain e)⟩

def facts (a : Account) : List (Fact Origin) :=
  match a.outcome with
  | .ok facts => facts
  | .error _ => []

def nodes (a : Account) : List Origin := a.facts.flatMap Fact.nodes

def andThen (first later : Account) : Account :=
  match first.outcome with
  | .error _ => first
  | .ok facts => ⟨first.numbered ++ later.numbered, later.outcome.map (facts ++ ·)⟩

def entering (call : Position) (inside : Account) : Account :=
  ⟨call :: inside.numbered, inside.outcome⟩

def inTurn {α : Type} (step : Nat → α → Account) : Nat → List α → Account
  | _, [] => nothing
  | k, a :: rest => (step k a).andThen (inTurn step (k + 1) rest)

end Account

def Misfit.failure {ν : Type} (m : Misfit ν) (t : Template) (span : Text.Span) : Failure ν :=
  .unfit t.iri (some m.parameter.name) m.value m.reason span

variable (lib : Library) (limit : Option Nat)

def call (path : List Iri) (here : Position) (atTop : Bool) (span : Text.Span)
    (target : lib.Entry) (arguments : Values Origin) : Account :=
  let t := target.val
  match bind t arguments span (.written here) with
  | .error e => .fault e
  | .ok env =>
    match misfit? (t.parameters.zip env) with
    | some m =>
      if m.reason = .noneNotAllowed ∧ atTop = false then .nothing
      else ⟨[here], .error (m.failure t span)⟩
    | none =>
      match t.body with
      | .statement pattern =>
        ⟨[], .ok [.ofPattern pattern (evaluate env (.written here))]⟩
      | .crossProduct => .fault ⟨.mismatch t.iri none none .directCrossCall, span⟩
      | .calls calls =>
        if Expansion.tooDeep limit path = true then
          .fault ⟨.depthLimit (limit.getD 0) t.iri, span⟩
        else if _ : t.iri ∈ path then .fault ⟨.cycle (path ++ [t.iri]), span⟩
        else .entering here <| Account.inTurn (fun k inner =>
          match lib.entry? inner.template with
          | none => .fault ⟨.unknownTemplate inner.template, inner.span⟩
          | some callee =>
            match rows inner callee.val (evaluate env (.written here)) with
            | .error e => ⟨[], .error e⟩
            | .ok rows => Account.inTurn (fun j row =>
              call (path ++ [t.iri]) (here ++ [(k, j)]) false inner.span callee row) 0 rows) 0 calls
termination_by Expansion.remaining lib path
decreasing_by
  have unlisted : path.contains target.val.iri = false := by simpa
  exact Expansion.remaining_lt lib path target.val target.property unlisted

def perform (path : List Iri) (here : Position) (env : Values Origin) (k : Nat) (inner : Call) :
    Account :=
  match lib.entry? inner.template with
  | none => .fault ⟨.unknownTemplate inner.template, inner.span⟩
  | some callee =>
    match rows inner callee.val (evaluate env (.written here)) with
    | .error e => ⟨[], .error e⟩
    | .ok rows => Account.inTurn (fun j row =>
        call lib limit path (here ++ [(k, j)]) false inner.span callee row) 0 rows

inductive Course (path : List Iri) (here : Position) (atTop : Bool) (span : Text.Span)
    (target : lib.Entry) (arguments : Values Origin) : Account → Prop where
  | unbound {e : ExpansionError}
    (binding : bind target.val arguments span (.written here) = .error e) :
    Course path here atTop span target arguments (.fault e)
  | skipped {env : Values Origin} {m : Misfit Origin}
    (binding : bind target.val arguments span (.written here) = .ok env)
    (checked : misfit? (target.val.parameters.zip env) = some m)
    (excused : m.reason = .noneNotAllowed ∧ atTop = false) :
    Course path here atTop span target arguments .nothing
  | unfit {env : Values Origin} {m : Misfit Origin}
    (binding : bind target.val arguments span (.written here) = .ok env)
    (checked : misfit? (target.val.parameters.zip env) = some m)
    (faulty : ¬(m.reason = .noneNotAllowed ∧ atTop = false)) :
    Course path here atTop span target arguments ⟨[here], .error (m.failure target.val span)⟩
  | statement {env : Values Origin} {pattern : Pattern}
    (binding : bind target.val arguments span (.written here) = .ok env)
    (checked : misfit? (target.val.parameters.zip env) = none)
    (body : target.val.body = .statement pattern) :
    Course path here atTop span target arguments
      ⟨[], .ok [.ofPattern pattern (evaluate env (.written here))]⟩
  | direct {env : Values Origin}
    (binding : bind target.val arguments span (.written here) = .ok env)
    (checked : misfit? (target.val.parameters.zip env) = none)
    (body : target.val.body = .crossProduct) :
    Course path here atTop span target arguments
      (.fault ⟨.mismatch target.val.iri none none .directCrossCall, span⟩)
  | deep {env : Values Origin} {calls : List Call}
    (binding : bind target.val arguments span (.written here) = .ok env)
    (checked : misfit? (target.val.parameters.zip env) = none)
    (body : target.val.body = .calls calls) (below : Expansion.tooDeep limit path = true) :
    Course path here atTop span target arguments
      (.fault ⟨.depthLimit (limit.getD 0) target.val.iri, span⟩)
  | cyclic {env : Values Origin} {calls : List Call}
    (binding : bind target.val arguments span (.written here) = .ok env)
    (checked : misfit? (target.val.parameters.zip env) = none)
    (body : target.val.body = .calls calls) (above : Expansion.tooDeep limit path = false)
    (again : target.val.iri ∈ path) : Course path here atTop span target arguments
      (.fault ⟨.cycle (path ++ [target.val.iri]), span⟩)
  | entered {env : Values Origin} {calls : List Call}
    (binding : bind target.val arguments span (.written here) = .ok env)
    (checked : misfit? (target.val.parameters.zip env) = none)
    (body : target.val.body = .calls calls) (above : Expansion.tooDeep limit path = false)
    (fresh : target.val.iri ∉ path) : Course path here atTop span target arguments
      (.entering here
        (Account.inTurn (perform lib limit (path ++ [target.val.iri]) here env) 0 calls))

theorem course (path : List Iri) (here : Position) (atTop : Bool) (span : Text.Span)
    (target : lib.Entry) (arguments : Values Origin) :
    Course lib limit path here atTop span target arguments
      (call lib limit path here atTop span target arguments) := by
  rw [call]
  split
  · rename_i e binding
    exact .unbound binding
  · rename_i env binding
    split
    · rename_i m checked
      split
      · rename_i excused
        exact .skipped binding checked excused
      · rename_i faulty
        exact .unfit binding checked faulty
    · rename_i checked
      split
      · rename_i pattern body
        exact .statement binding checked body
      · rename_i body
        exact .direct binding checked body
      · rename_i calls body
        split
        · rename_i below
          exact .deep binding checked body below
        · rename_i above
          have above : Expansion.tooDeep limit path = false := by simpa using above
          split
          · rename_i again
            exact .cyclic binding checked body above again
          · rename_i fresh
            exact .entered binding checked body above fresh

end Stottr.Naming

namespace Stottr

def Library.account (lib : Library) (limit : Option Nat) (i : Instance) : Naming.Account :=
  match lib.entry? i.template with
  | none => .fault ⟨.unknownTemplate i.template, i.span⟩
  | some target => Naming.call lib limit [] [] true i.span target
      (i.arguments.map (Naming.Value.ofTerm .given))

end Stottr

import Stottr.Expansion
import Stottr.Settings

namespace Stottr

structure Session where
  library : Library
  namespaces : Namespaces
  -- What went wrong in the texts loaded so far, in order.
  problems : List Diagnostic
  limit : Option Nat
  parallel : Bool
  next : Scope

structure Batch where
  source : String
  instances : List Instance

structure Run where
  index : Nat
  waiting : List Instance

def Batch.run (b : Batch) : Run := ⟨0, b.instances⟩

structure Job where
  index : Nat
  target : Instance
  scope : Scope

structure Outcome where
  job : Job
  result : Except ExpansionError (List Statement)

namespace Outcome

def isOk (o : Outcome) : Bool := o.result.isOk

def statements (o : Outcome) : List Statement :=
  match o.result with
  | .ok statements => statements
  | .error _ => []

-- What is reported about an instance that failed. A fault that no text can be blamed for is placed
-- at the instance.
def diagnostic (o : Outcome) (source : String) : Option Diagnostic :=
  match o.result with
  | .ok _ => none
  | .error e =>
    let i := o.job.target
    let d := e.diagnostic
    let message := "instance #" ++ toString (o.job.index + 1) ++ " " ++ i.render ++ ": " ++
      d.message
    let place := match d.place with
      | some place => some place
      | none => if 0 < i.span.line then some i.span.place else none
    some (({ d with message := message, place := place } : Diagnostic).inSource source)

end Outcome

inductive Refusal where
  | loadErrors (count : Nat)
  | malformed (source : String) (errors : List SyntaxError)
deriving DecidableEq, Repr

namespace Refusal

def message : Refusal → String
  | .loadErrors count =>
    "refusing to instantiate: " ++ toString count ++ " template load error(s) recorded"
  | .malformed source errors => source ++ ": " ++ SyntaxError.report errors

def diagnostics : Refusal → List Diagnostic
  | .loadErrors _ => []
  | .malformed source errors => errors.map fun e => e.diagnostic source

end Refusal

def Library.Dangling.diagnostic (d : Library.Dangling) : Diagnostic :=
  let warning := Diagnostic.warning .danglingReference
    ("template " ++ d.template.render ++ " calls " ++ d.missing.render ++ ", which is not defined")
  if 0 < d.span.line then warning.placed d.span.place else warning

namespace Session

def start (settings : Settings) : Session :=
  let library :=
    if settings.standardLibrary then Library.base.loadStandard.library else Library.base
  ⟨library, settings.allNamespaces, [], settings.maxDepth, settings.parallel, .first⟩

-- Loads a text of templates. Prefixes that it declares hold in later texts too.
def load (s : Session) (text source : String) : Session :=
  let load := s.library.load s.namespaces text
  { s with
    library := load.library, namespaces := load.namespaces,
    problems := s.problems ++ load.errors.flatMap (LoadError.diagnostics source) }

def growth (earlier later : Session) : Nat := later.library.size - earlier.library.size

def diagnostics (s : Session) : List Diagnostic :=
  s.problems ++ s.library.dangling.map Library.Dangling.diagnostic

def errorCount (s : Session) : Nat := s.problems.countP Diagnostic.isError

def hasErrors (s : Session) : Bool := s.problems.any Diagnostic.isError

-- Reads a text of instances. Prefixes that it declares hold in it alone.
def instantiate (s : Session) (text source : String) : Except Refusal Batch :=
  if 0 < s.errorCount then .error (.loadErrors s.errorCount)
  else match (Document.instances s.namespaces text).outcome with
    | .ok instances => .ok ⟨source, instances⟩
    | .error errors => .error (.malformed source errors)

def perform (s : Session) (job : Job) : Outcome :=
  ⟨job, s.library.expand s.limit job.target job.scope⟩

def jobsFrom (index : Nat) (scope : Scope) : List Instance → List Job
  | [] => []
  | i :: rest => ⟨index, i, scope⟩ :: jobsFrom (index + 1) scope.next rest

def jobs (s : Session) (b : Batch) : List Job := jobsFrom 0 s.next b.instances

def skipScopes (s : Session) (count : Nat) : Session := { s with next := s.next.skip count }

-- Expands the next instance of a run. Its scope is drawn only now.
def advance (s : Session) (r : Run) : Option (Outcome × Run × Session) :=
  match r.waiting with
  | [] => none
  | i :: rest =>
    some (s.perform ⟨r.index, i, s.next⟩, ⟨r.index + 1, rest⟩,
      { s with next := s.next.next })

def take (s : Session) (r : Run) : Nat → List Outcome × Session
  | 0 => ([], s)
  | count + 1 =>
    match s.advance r with
    | none => ([], s)
    | some (outcome, r, s) =>
      let (later, s) := s.take r count
      (outcome :: later, s)

def execute (s : Session) (b : Batch) : List Outcome × Session :=
  s.take b.run b.instances.length

-- Expands all instances independently of each other. Their scopes are drawn first, in the order of
-- the text, which is also the order of the outcomes.
def executeParallel (s : Session) (b : Batch) : List Outcome × Session :=
  ((s.jobs b).map s.perform, s.skipScopes b.instances.length)

def executeAll (s : Session) (b : Batch) : List Outcome × Session :=
  if s.parallel then s.executeParallel b else s.execute b

end Session

end Stottr

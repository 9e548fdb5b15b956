import Stottr.Command.Arguments
import Stottr.Failure
import Stottr.Transcript

namespace Stottr.Command

-- How a command ended: its exit code, what it printed, and the file that it wrote. What goes to a
-- log is left out, although the log shows its warnings on the stream of the errors by default.
structure Ended where
  code : Nat
  out : String
  err : String
  written : Option (String × String)
deriving DecidableEq, Repr

def printed (lines : List String) : String := String.join (lines.map (· ++ "\n"))

def reported (diagnostics : List Diagnostic) : String :=
  printed (diagnostics.map Diagnostic.render)

def exitCode (success : Bool) : Nat := if success then 0 else 1

-- What was reported before a failure is still printed.
def failed (before : List Diagnostic) (f : Failure) : Ended :=
  ⟨1, "", reported before ++ printed ["error: " ++ f.message], none⟩

def session (disk : Disk) (settings : Settings) (files : List String) : Except Failure Session :=
  (Session.start settings).loadFiles disk files

def summary (expanded statements failures : Nat) : String :=
  "OK Expanded " ++ toString expanded ++ " instance(s) into " ++ toString statements ++
    " statement(s)" ++ (if 0 < failures then ", " ++ toString failures ++ " failed" else "")

-- A step as it appears where reports and statements go to the same place.
def shown : Step → String
  | .report d => reported [d]
  | .block text => text

-- What the outcomes of a batch come to: the statements of the instances that were expanded, and a
-- report of those that were not. A file that refuses a text is found out by its first block.
def expanded (format : Format) (intake : Intake) (quiet : Bool) (source : String)
    (outcomes : List Outcome) : Ended :=
  let problems := outcomes.filterMap fun o => o.diagnostic source
  let text := String.join (outcomes.map fun o => format.write o.statements)
  let statements := (outcomes.flatMap Outcome.statements).length
  let failures := problems.length
  let closing := if quiet then ""
    else printed [summary (outcomes.length - failures) statements failures]
  let ended : Ended := ⟨exitCode (failures = 0), "", reported problems ++ closing, none⟩
  match intake with
  | .kept path => { ended with written := some (path, text) }
  | .lost => ended
  | .printed .output => { ended with out := text }
  | .printed .errors =>
    let steps := transcript format source "" outcomes
    { ended with err := String.join (steps.map shown) ++ closing }
  | .refused fault =>
    if text = "" then ended
    else failed (Step.reportsBefore (transcript format source "" outcomes)) (.unwritable fault)

def expand (disk : Disk) (settings : Settings) (templates : List String) (instances : String)
    (format : Format) (output : Option String) (quiet : Bool) : Ended :=
  match session disk settings templates with
  | .error failure => failed [] failure
  | .ok session =>
    if session.hasErrors then failed [] .loadErrors
    else match disk.readAs .instances instances with
      | .error failure => failed [] failure
      | .ok text =>
        match session.instantiate text instances with
        | .error refusal => failed refusal.diagnostics (.malformed instances)
        | .ok batch =>
          let outcomes := (session.executeAll batch).1
          match output with
          | none => expanded format (.printed .output) quiet batch.source outcomes
          | some path =>
            match disk.create path with
            | .error fault => failed [] (.uncreatable path fault)
            | .ok intake => expanded format intake quiet batch.source outcomes

def verdict (session : Session) (errors warnings : Nat) : String :=
  if errors = 0 then
    "OK " ++ toString session.library.size ++ " template(s) registered, " ++ toString warnings ++
      " warning(s)"
  else "FAILED " ++ toString errors ++ " error(s), " ++ toString warnings ++ " warning(s)"

def check (disk : Disk) (settings : Settings) (files : List String) (quiet : Bool) : Ended :=
  match session disk settings files with
  | .error failure => failed [] failure
  | .ok session =>
    let diagnostics := session.diagnostics
    let errors := diagnostics.countP Diagnostic.isError
    let warnings := diagnostics.countP Diagnostic.isWarning
    ⟨exitCode (errors = 0), if quiet then "" else printed [verdict session errors warnings],
      reported diagnostics, none⟩

def listing (ns : Namespaces) (t : Template) : String :=
  (ns.compact t.iri).getD t.iri.render ++ (if t.isBase then " (base) " else " (composite) ") ++
    t.signature

def list (disk : Disk) (settings : Settings) (files : List String) : Ended :=
  match session disk settings files with
  | .error failure => failed [] failure
  | .ok session =>
    ⟨exitCode (!session.hasErrors),
      printed (session.library.items.map (listing session.namespaces)),
      reported session.diagnostics, none⟩

def perform (disk : Disk) (settings : Settings) (quiet : Bool) : Action → Ended
  | .expand templates instances format parallel output =>
    let settings := { settings with parallel := parallel || settings.parallel }
    expand disk settings templates instances format output quiet
  | .check files => check disk settings files quiet
  | .templates files => list disk settings files

def usage : List String := [
  "Usage: stottr [OPTIONS] <COMMAND>",
  "",
  "Commands:",
  "  expand     Expand an instance file: -i FILE [-t FILE...] [-f FORMAT] [-o FILE] [--parallel]",
  "  check      Parse template files and report diagnostics: FILE...",
  "  templates  List registered template signatures: [-t FILE...]",
  "",
  "Options: -c FILE, --no-standard-library, -q, -h, -V"]

def declined : Declined → Ended
  | .usage => ⟨2, "", printed usage, none⟩
  | .help => ⟨0, printed usage, "", none⟩
  | .version => ⟨0, printed ["stottr 0.1.0"], "", none⟩

def inputs (environment : Option String) (args : List String) : List String :=
  match Request.parse environment args with
  | .error _ => []
  | .ok request =>
    request.settings.toList ++ Settings.candidates ++ request.action.inputs

def run (disk : Disk) (environment : Option String) (args : List String) : Ended :=
  match Request.parse environment args with
  | .error why => declined why
  | .ok request =>
    match Settings.load disk request.settings none with
    | .error failure => failed [] failure
    | .ok settings =>
      let standard := request.standardLibrary && settings.standardLibrary
      perform disk { settings with standardLibrary := standard } request.quiet request.action

end Stottr.Command

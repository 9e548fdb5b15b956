import Stottr.Disk
import Stottr.Session

namespace Stottr

inductive FileRole where
  | settings
  | templates
  | instances
deriving DecidableEq, Repr

def FileRole.name : FileRole → String
  | .settings => "config"
  | .templates => "template"
  | .instances => "instance"

inductive Failure where
  | unreadable (role : FileRole) (path : String) (fault : FileFault)
  | invalidSettings (path : String)
  | refused (path : String) (refusal : Refusal)
  | loadErrors
  | malformed (source : String)
  | uncreatable (path : String) (fault : FileFault)
  | unwritable (fault : FileFault)
deriving DecidableEq, Repr

namespace Failure

def chain : Failure → List String
  | .unreadable role path fault =>
    ["Failed to read " ++ role.name ++ " file " ++ path, fault.message]
  | .invalidSettings path =>
    ["Invalid config file " ++ path, Settings.malformed]
  | .refused path refusal => ["Failed to instantiate " ++ path, refusal.message]
  | .loadErrors => ["template files have errors, nothing expanded"]
  | .malformed source => [source ++ " could not be parsed, nothing expanded"]
  | .uncreatable path fault => ["Failed to create " ++ path, fault.message]
  | .unwritable fault => ["Failed to write statements", fault.message]

def message (f : Failure) : String := Text.join ": " f.chain

end Failure

def Disk.readAs (disk : Disk) (role : FileRole) (path : String) : Except Failure String :=
  match disk.read path with
  | .ok text => .ok text
  | .error fault => .error (.unreadable role path fault)

namespace Settings

def candidates : List String := ["ottr.yaml", "config/ottr.yaml"]

-- The file that settings are read from: the one that was asked for, else that of the environment,
-- else the first candidate that exists.
def locate (disk : Disk) (explicit environment : Option String) : Option String :=
  match explicit, environment with
  | some path, _ => some path
  | none, some path => some path
  | none, none => candidates.find? disk.holds

def load (disk : Disk) (explicit environment : Option String) : Except Failure Settings :=
  match locate disk explicit environment with
  | none => .ok default
  | some path =>
    match disk.readAs .settings path with
    | .error failure => .error failure
    | .ok text =>
      match parse text with
      | some settings => .ok settings
      | none => .error (.invalidSettings path)

end Settings

namespace Session

def loadFile (s : Session) (disk : Disk) (path : String) : Except Failure Session :=
  (disk.readAs .templates path).map fun text => s.load text path

def loadFiles (s : Session) (disk : Disk) : List String → Except Failure Session
  | [] => .ok s
  | path :: rest =>
    match s.loadFile disk path with
    | .ok s => s.loadFiles disk rest
    | .error failure => .error failure

def instantiateFile (s : Session) (disk : Disk) (path : String) : Except Failure Batch :=
  match disk.readAs .instances path with
  | .error failure => .error failure
  | .ok text =>
    match s.instantiate text path with
    | .ok batch => .ok batch
    | .error refusal => .error (.refused path refusal)

end Session

end Stottr

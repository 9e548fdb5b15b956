import Stottr.Files.System
import Stottr.Text.Join

namespace Stottr

structure File where
  path : List String
  content : String
deriving DecidableEq, Repr

-- Directories are those of the system and those that the paths of the files lead through.
structure Files where
  entries : List File
deriving Repr

namespace Files

-- What a path leads to. A vacant name is free in a directory that exists.
inductive Found where
  | file (f : File)
  | device (d : Device)
  | directory
  | vacant (path : List String)

def empty : Files := ⟨[]⟩

def names (path : String) : List String :=
  (Text.segments '/' path.toList).map String.ofList

def file? (fs : Files) (path : List String) : Option File :=
  fs.entries.find? fun f => f.path = path

def isDirectory (fs : Files) (path : List String) : Bool :=
  path = workingDirectory || directories.contains path ||
    fs.entries.any fun f => path.isPrefixOf f.path && path.length < f.path.length

def maxName : Nat := 255

def maxPath : Nat := 4095

-- Follows names from a directory. There is nothing above the root, and an empty name after another
-- one asks for a directory.
def follow (fs : Files) (directory : List String) : List String → Except FileFault Found
  | [] => .ok .directory
  | name :: rest =>
    if name = "" ∨ name = "." then fs.follow directory rest
    else if name = ".." then fs.follow directory.dropLast rest
    else if maxName < name.utf8ByteSize then .error .nameTooLong
    else
      let path := directory ++ [name]
      match Device.at? path, fs.file? path with
      | some d, _ => if rest.isEmpty then .ok (.device d) else .error .notDirectory
      | none, some f => if rest.isEmpty then .ok (.file f) else .error .notDirectory
      | none, none =>
        if fs.isDirectory path then fs.follow path rest
        else if rest.isEmpty then .ok (.vacant path)
        else .error .missing

def start (names : List String) : List String :=
  if names.head? = some "" then [] else workingDirectory

def fault? (path : String) : Option FileFault :=
  if path.toList.contains '\x00' then some .nulInPath
  else if path = "" then some .missing
  else if maxPath < path.utf8ByteSize then some .nameTooLong
  else none

def find (fs : Files) (path : String) : Except FileFault Found :=
  match fault? path with
  | some fault => .error fault
  | none => fs.follow (start (names path)) (names path)

-- What a path leads to when a file is to be made there. A slash at its end asks for a directory,
-- whether there is one or not.
def findPlace (fs : Files) (path : String) : Except FileFault Found :=
  match fault? path with
  | some fault => .error fault
  | none =>
    let names := names path
    if names.getLast? = some "" then
      (fs.follow (start names) ((names.filter (· ≠ "")).dropLast ++ ["."])).map fun _ => .directory
    else fs.follow (start names) names

def read (fs : Files) (path : String) : Except FileFault String :=
  match fs.find path with
  | .ok (.file f) => .ok f.content
  | .ok (.device d) => d.read
  | .ok .directory => .error .isDirectory
  | .ok (.vacant _) => .error .missing
  | .error fault => .error fault

def create (fs : Files) (path : String) : Except FileFault Intake :=
  match fs.findPlace path with
  | .ok (.file _) => .ok (.kept path)
  | .ok (.device d) => d.create
  | .ok .directory => .error .isDirectory
  | .ok (.vacant place) =>
    match sealed? place.dropLast with
    | some fault => .error fault
    | none => .ok (.kept path)
  | .error fault => .error fault

def put (fs : Files) (f : File) : Files :=
  ⟨f :: fs.entries.filter fun g => g.path ≠ f.path⟩

def write (fs : Files) (path content : String) : Files :=
  match fs.findPlace path with
  | .ok (.file f) => fs.put ⟨f.path, content⟩
  | .ok (.vacant path) => fs.put ⟨path, content⟩
  | _ => fs

def disk (fs : Files) : Disk := ⟨fs.read, fs.create⟩

def ofList (contents : List (String × String)) : Files :=
  contents.foldl (fun fs (path, content) =>
    let place := (names path).filter fun name => name ≠ "" && name ≠ "."
    fs.put ⟨workingDirectory ++ place, content⟩) empty

end Files

end Stottr

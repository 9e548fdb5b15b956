namespace Stottr

inductive FileFault where
  | missing
  | notDirectory
  | isDirectory
  | denied
  | nameTooLong
  | noSpace
  | noDevice
  | nulInPath
  | notText
  | other (message : String)
deriving DecidableEq, Repr

def FileFault.message : FileFault → String
  | .missing => "No such file or directory (os error 2)"
  | .notDirectory => "Not a directory (os error 20)"
  | .isDirectory => "Is a directory (os error 21)"
  | .denied => "Permission denied (os error 13)"
  | .nameTooLong => "File name too long (os error 36)"
  | .noSpace => "No space left on device (os error 28)"
  | .noDevice => "No such device or address (os error 6)"
  | .nulInPath => "file name contained an unexpected NUL byte"
  | .notText => "stream did not contain valid UTF-8"
  | .other message => message

inductive Stream where
  | output
  | errors
deriving DecidableEq, Repr

inductive Intake where
  | kept (path : String)
  | lost
  | refused (fault : FileFault)
  | printed (stream : Stream)
deriving DecidableEq, Repr

-- The contents of files by their paths, and what a file that is made at a path is good for.
structure Disk where
  read : String → Except FileFault String
  create : String → Except FileFault Intake

def Disk.holds (disk : Disk) (path : String) : Bool :=
  match disk.read path with
  | .ok _ | .error .notText => true
  | .error _ => false

end Stottr

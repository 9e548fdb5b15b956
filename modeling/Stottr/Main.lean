import Stottr.Command

namespace Stottr.Main

-- The number of a fault, which some operations give as the negative of itself.
def codeOf (given : UInt32) : Nat :=
  if UInt32.size / 2 ≤ given.toNat then UInt32.size - given.toNat else given.toNat

def faultOf (e : IO.Error) : FileFault :=
  match e with
  | .noFileOrDirectory .. => .missing
  | .resourceExhausted _ given details => coded given details
  | .noSuchThing _ given details => coded given details
  | .inappropriateType _ given details => coded given details
  | .invalidArgument _ given details => coded given details
  | .permissionDenied _ given details => coded given details
  | e => .other (toString e)
where
  coded (given : UInt32) (details : String) : FileFault :=
    match codeOf given with
    | 20 => .notDirectory
    | 21 => .isDirectory
    | 36 => .nameTooLong
    | 28 => .noSpace
    | 6 => .noDevice
    | 13 => .denied
    | code => .other (details.capitalize ++ " (os error " ++ toString code ++ ")")

def readFile (path : String) : IO (Except FileFault String) := do
  try
    let bytes ← IO.FS.readBinFile path
    match String.fromUTF8? bytes with
    | some text => pure (.ok text)
    | none => pure (.error .notText)
  catch e => pure (.error (faultOf e))

def fill (handle : IO.FS.Handle) (path text : String) : IO Intake := do
  try
    handle.putStr text
    handle.flush
    pure (.kept path)
  catch e => pure (.refused (faultOf e))

-- Writes a file. One that cannot be made is told from one that does not take the text.
def writeFile (path text : String) : IO (Except FileFault Intake) := do
  try
    let handle ← IO.FS.Handle.mk path .write
    let intake ← fill handle path text
    pure (.ok intake)
  catch e => pure (.error (faultOf e))

def snapshot (paths : List String) : IO Disk := do
  let texts ← paths.mapM fun path => do
    let text ← readFile path
    pure (path, text)
  pure ⟨fun path => (texts.lookup path).getD (.error .missing), fun path => .ok (.kept path)⟩

def print (ended : Command.Ended) : IO UInt32 := do
  IO.print ended.out
  IO.eprint ended.err
  pure (UInt32.ofNat ended.code)

end Stottr.Main

open Stottr in
def main (args : List String) : IO UInt32 := do
  let environment ← IO.getEnv "OTTR_CONFIG"
  let disk ← Main.snapshot (Command.inputs environment args)
  let ended := Command.run disk environment args
  match ended.written with
  | none => Main.print ended
  | some (path, text) =>
    match ← Main.writeFile path text with
    | .ok (.kept _) => Main.print ended
    | intake => Main.print (Command.run { disk with create := fun _ => intake } environment args)

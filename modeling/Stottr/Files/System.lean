import Stottr.Disk

namespace Stottr.Files

structure Device where
  read : Except FileFault String
  create : Except FileFault Intake

namespace Device

-- Nothing comes from a device that a text can be written to.
def taking (intake : Intake) : Device := ⟨.ok "", .ok intake⟩

def absent : Device := ⟨.error .noDevice, .error .noDevice⟩

def streams : List (String × Device) := [
  ("0", taking .lost), ("1", taking (.printed .output)), ("2", taking (.printed .errors))]

def named : List (String × Device) := [
  ("null", taking .lost), ("zero", taking .lost), ("random", taking .lost),
  ("urandom", taking .lost), ("full", taking (.refused .noSpace)), ("tty", absent),
  ("stdin", taking .lost), ("stdout", taking (.printed .output)),
  ("stderr", taking (.printed .errors))]

def at? (path : List String) : Option Device :=
  match path with
  | ["dev", name] => named.lookup name
  | ["dev", "fd", number] | ["proc", "self", "fd", number] => streams.lookup number
  | _ => none

end Device

def directories : List (List String) := [
  [], ["bin"], ["boot"], ["dev"], ["dev", "fd"], ["dev", "shm"], ["etc"], ["home"], ["lib"],
  ["media"], ["mnt"], ["opt"], ["proc"], ["proc", "self"], ["proc", "self", "fd"], ["root"],
  ["run"], ["sbin"], ["srv"], ["sys"], ["tmp"], ["usr"], ["usr", "bin"], ["usr", "lib"],
  ["usr", "local"], ["usr", "share"], ["var"], ["var", "tmp"]]

def sealed? (directory : List String) : Option FileFault :=
  match directory with
  | "proc" :: _ | ["dev", "fd"] => some .missing
  | "sys" :: _ => some .denied
  | _ => none

-- The working directory is a temporary one. Its own name, which no path spells, is empty.
def workingDirectory : List String := ["tmp", ""]

end Stottr.Files

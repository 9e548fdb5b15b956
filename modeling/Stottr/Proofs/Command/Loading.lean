import Stottr.Command
import Stottr.Proofs.Document.Blamed
import Stottr.Proofs.Session.Faults

namespace Stottr

variable {path text : String}

namespace Session

variable {disk : Disk}

end Session

namespace Command

def Request.apply (request : Request) (settings : Settings) : Settings :=
  { settings with standardLibrary := request.standardLibrary && settings.standardLibrary }

section Runs

variable {disk : Disk} {environment : Option String} {args : List String} {request : Request}
  {settings : Settings}

end Runs

def unbound : Disk where
  read path := if path = "bad.stottr" then .ok "ex:T[ ?x ] :: \x7b \x7d ." else .error .missing
  create _ := .error .denied

def bare : Settings := { Settings.default with standardLibrary := false }

end Command

end Stottr

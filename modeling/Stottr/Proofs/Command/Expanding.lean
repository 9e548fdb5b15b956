import Stottr.Proofs.Command.Loading
import Stottr.Proofs.Session.Blame

namespace Stottr

namespace Session

variable {disk : Disk}

end Session

namespace Outcome

end Outcome

namespace Command

def closing (quiet : Bool) (outcomes : List Outcome) : String :=
  if quiet then ""
  else printed [summary (outcomes.countP Outcome.isOk) (outcomes.flatMap Outcome.statements).length
    (outcomes.countP fun o => !o.isOk)]

section Stages

variable {disk : Disk} {settings : Settings} {s : Session} {templates : List String}
  {instances text : String} {format : Format} {output : Option String} {quiet : Bool}

end Stages

section Requests

variable {disk : Disk} {environment : Option String} {args : List String} {request : Request}
  {templates : List String} {instances : String} {format : Format} {parallel : Bool}
  {output : Option String}

end Requests

def mixed : Disk where
  read path :=
    if path = "lib.stottr" then
      .ok "@prefix ex: <http://e/> . ex:A[ ?x ] :: \x7b ottr:Triple(?x, ?x, ?x) \x7d ."
    else if path = "i.stottr" then .ok "ex:A(ex:a) . ex:B(ex:a) . ex:A(ex:b) ."
    else .error .missing
  create path := .ok (.kept path)

end Command

end Stottr

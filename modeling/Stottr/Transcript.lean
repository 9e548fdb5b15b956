import Stottr.Output.Pieces
import Stottr.Session
import Stottr.Text.Blocks

namespace Stottr

inductive Step where
  | report (d : Diagnostic)
  | block (text : String)

namespace Step

def reportsBefore : List Step → List Diagnostic
  | .report d :: rest => d :: reportsBefore rest
  | _ => []

-- Nothing leaves when nothing is held.
def ofBlocks (blocks : List String) : List Step := (blocks.filter (· ≠ "")).map .block

def ofReport (found : Option Diagnostic) : List Step := found.toList.map .report

end Step

open Step

def transcript (format : Format) (source held : String) : List Outcome → List Step
  | [] => ofBlocks [held]
  | o :: rest =>
    let (blocks, held) := Text.Blocks.gather held (format.pieces o.statements)
    ofReport (o.diagnostic source) ++ ofBlocks blocks ++ transcript format source held rest

end Stottr

namespace Stottr.Text.Blocks

def capacity : Nat := 8192

-- Pieces are held, and leave together when the next one finds no room beside them.
def gather (held : String) : List String → List String × String
  | [] => ([], held)
  | piece :: rest =>
    if capacity ≤ piece.utf8ByteSize then
      let (blocks, last) := gather "" rest
      (held :: piece :: blocks, last)
    else if capacity - held.utf8ByteSize < piece.utf8ByteSize then
      let (blocks, last) := gather piece rest
      (held :: blocks, last)
    else gather (held ++ piece) rest

end Stottr.Text.Blocks

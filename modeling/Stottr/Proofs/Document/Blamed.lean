import Stottr.Proofs.Document.Anchored
import Stottr.Proofs.Document.Spans

namespace Stottr

namespace Document

variable {α : Type} {r : Reader} {ts : List Token}

section Declarations

variable {item : Item α}

end Declarations

end Document

namespace Text.Position

def Reaches (p : Position) (cs : List Char) (q : Position) : Prop :=
  ∃ front behind, cs = front ++ behind ∧ q = p.after front

theorem Reaches.behind {p q : Position} {cs front rest : List Char}
    (reaches : Reaches (p.after front) rest q) (whole : cs = front ++ rest) : Reaches p cs q := by
  obtain ⟨part, behind, rfl, rfl⟩ := reaches
  exact ⟨front ++ part, behind, by rw [whole, List.append_assoc], (after_append p front part).symm⟩

end Text.Position

namespace Token

open Text

end Token

namespace Document

open Text

variable {text : String}

end Document

end Stottr

namespace Stottr.Text

def join (separator : String) : List String → String
  | [] => ""
  | [part] => part
  | part :: rest => part ++ separator ++ join separator rest

def segments (separator : Char) : List Char → List (List Char)
  | [] => [[]]
  | c :: cs =>
    if c = separator then [] :: segments separator cs
    else match segments separator cs with
      | [] => [[c]]
      | part :: rest => (c :: part) :: rest

theorem segments_ne_nil (separator : Char) (cs : List Char) : segments separator cs ≠ [] := by
  cases cs with
  | nil => simp [segments]
  | cons c cs =>
    unfold segments
    split
    · simp
    · split <;> simp

end Stottr.Text

import Stottr.Document.Declaration
import Stottr.Token.Scan

namespace Stottr

-- What the declarations of a text came to: the items and the errors in the order of the text, and
-- the prefixes in force after it.
structure Document (α : Type) where
  items : List α
  errors : List ParseError
  namespaces : Namespaces

namespace Document

def nesting : TokenKind → Int
  | .openBracket | .openParen | .openBrace => 1
  | .closeBracket | .closeParen | .closeBrace => -1
  | _ => 0

def atKeyword (ts : List Token) : Bool := ts.head?.map Token.kind = some .prefixKeyword

-- The tokens after a declaration that failed. It ends with a dot outside all brackets, or before a
-- prefix declaration wherever that stands.
def skip (depth : Int) : List Token → List Token
  | [] => []
  | t :: rest =>
    if t.kind = .dot ∧ depth ≤ 0 then rest
    else if atKeyword rest then rest
    else skip (depth + nesting t.kind) rest

theorem length_skip_le (depth : Int) (ts : List Token) : (skip depth ts).length ≤ ts.length := by
  induction ts generalizing depth with
  | nil => simp [skip]
  | cons t rest ih =>
    unfold skip
    split
    · simp
    · split
      · simp
      · exact Nat.le_succ_of_le (ih _)

theorem length_skip_lt (depth : Int) (t : Token) (rest : List Token) :
    (skip depth (t :: rest)).length < (t :: rest).length := by
  unfold skip
  split
  · simp
  · split
    · simp
    · exact Nat.lt_succ_of_le (length_skip_le _ _)

abbrev Item (α : Type) := Reader → (ts : List Token) → Result α ts

def ofTokens {α : Type} (item : Item α) (stop : Text.Span) (ns : Namespaces) (ts : List Token) :
    Document α :=
  match ts with
  | [] => ⟨[], [], ns⟩
  | t :: rest =>
    match declaration ⟨ns, stop⟩ (item ⟨ns, stop⟩) (t :: rest) with
    | .error e =>
      have := length_skip_lt 0 t rest
      let later := ofTokens item stop ns (skip 0 (t :: rest))
      { later with errors := e :: later.errors }
    | .ok found =>
      have := found.shorter
      match found.value with
      | .binding b => ofTokens item stop (ns.bind b.label b.space) found.rest
      | .item value =>
        let later := ofTokens item stop ns found.rest
        { later with items := value :: later.items }
termination_by ts.length
decreasing_by all_goals exact this

-- The items of a text, or all of its errors, and the prefixes in force after it either way.
structure Reading (α : Type) where
  outcome : Except (List SyntaxError) (List α)
  namespaces : Namespaces

def Reading.ofDocument {α : Type} (d : Document α) : Reading α :=
  match d.errors with
  | [] => ⟨.ok d.items, d.namespaces⟩
  | errors => ⟨.error (errors.map .parse), d.namespaces⟩

-- A text that has no tokens declares nothing.
def read {α : Type} (item : Item α) (ns : Namespaces) (text : String) : Reading α :=
  match Token.scan text with
  | .error e => ⟨.error [.lexical e], ns⟩
  | .ok stream => .ofDocument (ofTokens item stream.stop ns stream.tokens)

def templates (ns : Namespaces) (text : String) : Reading Template := read template ns text

def instances (ns : Namespaces) (text : String) : Reading Instance := read groundInstance ns text

end Document

end Stottr

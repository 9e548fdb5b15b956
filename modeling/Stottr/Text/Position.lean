namespace Stottr.Text

-- The place of a character. Lines and columns are natural numbers, here and in spans and places:
-- texts of 2^32 characters or more, where they would not fit 32 bits, are left aside.
structure Position where
  offset : Nat
  line : Nat
  column : Nat
deriving DecidableEq, Repr, Inhabited

namespace Position

-- Offsets count bytes from zero, lines and columns count from one.
def start : Position := ⟨0, 1, 1⟩

-- The position just after `c`. Columns count characters, whatever their width in bytes.
def next (p : Position) (c : Char) : Position :=
  if c = '\n' then ⟨p.offset + c.utf8Size, p.line + 1, 1⟩
  else ⟨p.offset + c.utf8Size, p.line, p.column + 1⟩

def after (p : Position) (cs : List Char) : Position :=
  cs.foldl next p

@[simp] theorem after_nil (p : Position) : p.after [] = p := rfl

@[simp] theorem after_cons (p : Position) (c : Char) (cs : List Char) :
    p.after (c :: cs) = (p.next c).after cs := rfl

theorem after_append (p : Position) (front back : List Char) :
    p.after (front ++ back) = (p.after front).after back := by
  simp [after]

end Position

structure Span where
  start : Nat
  stop : Nat
  line : Nat
  column : Nat
deriving DecidableEq, Repr, Inhabited

namespace Span

-- The span of what no text holds, such as a template of the base library.
def nowhere : Span := ⟨0, 0, 0, 0⟩

def between (first last : Position) : Span :=
  ⟨first.offset, last.offset, first.line, first.column⟩

-- From the start of one span through the end of another.
def through (first last : Span) : Span :=
  { first with stop := max last.stop first.stop }

end Span

structure Place where
  line : Nat
  column : Nat
  offset : Nat
  source : Option String
deriving DecidableEq, Repr

namespace Place

def ofCoordinates (line column offset : Nat) : Place := ⟨line, column, offset, none⟩

def inSource (p : Place) (source : String) : Place := { p with source := some source }

def describe (p : Place) : String :=
  let spot := toString p.line ++ ":" ++ toString p.column
  match p.source with
  | some source => source ++ ":" ++ spot
  | none => spot

end Place

def Span.place (s : Span) : Place := Place.ofCoordinates s.line s.column s.start

end Stottr.Text

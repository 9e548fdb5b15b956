import Stottr.Token.Scan

namespace Stottr.Token

def reserved : List Char := ['"', '\\', '\n', '\r']

def escapes : List (Char × Char) :=
  [('n', '\n'), ('r', '\r'), ('t', '\t'), ('\\', '\\'), ('"', '"')]

-- How a lexical form is written between its quotes.
inductive Spelling : List Char → List Char → Prop where
  | nil : Spelling [] []
  | plain {c : Char} {body written : List Char} (notReserved : c ∉ reserved)
    (later : Spelling body written) : Spelling (c :: body) (c :: written)
  | escape {mark c : Char} {body written : List Char} (known : (mark, c) ∈ escapes)
    (later : Spelling body written) : Spelling (c :: body) ('\\' :: mark :: written)

-- A text without a quote of its own: a backslash takes whatever character stands behind it.
inductive Unquoted : List Char → Prop where
  | nil : Unquoted []
  | plain {c : Char} {written : List Char} (notReserved : c ∉ reserved)
    (later : Unquoted written) : Unquoted (c :: written)
  | pair (c : Char) {written : List Char} (later : Unquoted written) :
    Unquoted ('\\' :: c :: written)

def Closed (rest : List Char) : Prop :=
  ∃ written after, rest = written ++ '"' :: after ∧ Unquoted written

def ClosedOnLine (rest : List Char) : Prop :=
  ∃ written after, rest = written ++ '"' :: after ∧ Unquoted written ∧
    ∀ c ∈ written, isLineEnd c = false

variable {c mark : Char} {rest body : List Char} {width : Nat}

theorem not_mem_reserved_iff :
    c ∉ reserved ↔ c ≠ '"' ∧ c ≠ '\\' ∧ ¬(c = '\n' ∨ c = '\r') := by
  simp only [reserved, List.mem_cons, List.not_mem_nil, or_false, not_or, ne_eq]

theorem unescape?_eq_some_iff : unescape? mark = some c ↔ (mark, c) ∈ escapes := by
  unfold unescape?
  split <;> simp_all [escapes, eq_comm]

theorem quotedBody?_plain (notReserved : c ∉ reserved)
    (later : quotedBody? rest = some (body, width)) :
    quotedBody? (c :: rest) = some (c :: body, width + 1) := by
  obtain ⟨notQuote, notBackslash, inLine⟩ := not_mem_reserved_iff.mp notReserved
  rw [quotedBody?.eq_def]
  split
  · contradiction
  · rename_i same
    cases same
    exact absurd rfl notQuote
  · rename_i same
    cases same
    exact absurd rfl notBackslash
  · rename_i same
    cases same
    exact absurd rfl notBackslash
  · rename_i same
    cases same
    rw [if_neg inLine, later]

theorem closesOnLine_plain (notReserved : c ∉ reserved) (rest : List Char) :
    closesOnLine (c :: rest) = closesOnLine rest := by
  obtain ⟨notQuote, notBackslash, inLine⟩ := not_mem_reserved_iff.mp notReserved
  rw [closesOnLine.eq_def]
  split
  · contradiction
  · rename_i same
    cases same
    exact absurd rfl notQuote
  · rename_i same
    cases same
    exact absurd rfl notBackslash
  · rename_i same
    cases same
    exact absurd rfl notBackslash
  · rename_i same
    cases same
    rw [if_neg inLine]

-- The last case of both scanners below, where a character is taken as it stands.
theorem not_mem_reserved_of_cases (notQuote : c = '"' → False)
    (notLast : c = '\\' → rest = [] → False)
    (notPair : ∀ d more, c = '\\' → rest = d :: more → False)
    (inLine : ¬(c = '\n' ∨ c = '\r')) : c ∉ reserved := by
  refine not_mem_reserved_iff.mpr ⟨notQuote, ?_, inLine⟩
  intro same
  cases rest with
  | nil => exact notLast same rfl
  | cons d more => exact notPair d more same rfl

theorem quotedBody?_eq_some_iff : quotedBody? rest = some (body, width) ↔
    ∃ written after, rest = written ++ '"' :: after ∧ width = written.length + 1 ∧
      Spelling body written := by
  constructor
  · intro found
    fun_induction quotedBody? rest generalizing body width with
    | case1 | case3 | case5 | case6 | case8 => cases found
    | case2 after =>
      cases found
      exact ⟨[], after, rfl, rfl, .nil⟩
    | case4 mark rest c inner width' later escaped ih =>
      cases found
      obtain ⟨written, after, rfl, rfl, spelling⟩ := ih later
      exact ⟨_, after, rfl, rfl, .escape (unescape?_eq_some_iff.mp escaped) spelling⟩
    | case7 c rest notQuote notLast notPair inLine inner width' later ih =>
      cases found
      obtain ⟨written, after, rfl, rfl, spelling⟩ := ih later
      have plain := not_mem_reserved_of_cases notQuote notLast notPair inLine
      exact ⟨c :: written, after, rfl, rfl, .plain plain spelling⟩
  · rintro ⟨written, after, rfl, rfl, spelling⟩
    induction spelling with
    | nil => rfl
    | plain notReserved _ ih => exact quotedBody?_plain notReserved ih
    | escape known _ ih =>
      rw [List.cons_append, List.cons_append, quotedBody?, unescape?_eq_some_iff.mpr known, ih]
      rfl

theorem closesOnLine_iff : closesOnLine rest = true ↔ Closed rest := by
  constructor
  · intro closes
    fun_induction closesOnLine rest with
    | case1 | case3 | case5 => cases closes
    | case2 after => exact ⟨[], after, rfl, .nil⟩
    | case4 c rest ih =>
      obtain ⟨written, after, rfl, unquoted⟩ := ih closes
      exact ⟨_, after, rfl, .pair c unquoted⟩
    | case6 c rest notQuote notLast notPair inLine ih =>
      obtain ⟨written, after, rfl, unquoted⟩ := ih closes
      have plain := not_mem_reserved_of_cases notQuote notLast notPair inLine
      exact ⟨c :: written, after, rfl, .plain plain unquoted⟩
  · rintro ⟨written, after, rfl, unquoted⟩
    induction unquoted with
    | nil => rfl
    | plain notReserved _ ih =>
      rw [List.cons_append, closesOnLine_plain notReserved, ih]
    | pair c _ ih => exact ih

theorem Spelling.unquoted {written : List Char} (spelling : Spelling body written) :
    Unquoted written := by
  induction spelling with
  | nil => exact .nil
  | plain notReserved _ ih => exact .plain notReserved ih
  | escape _ _ ih => exact .pair _ ih

end Stottr.Token

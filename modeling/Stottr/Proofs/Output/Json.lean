import Stottr.Proofs.Output.Lines
import Stottr.Text.JsonString

namespace Stottr

-- Numbers are left out, since no statement is written with one.
inductive Json where
  | null
  | bool (value : Bool)
  | string (text : String)
  | array (items : List Json)
  | object (fields : List (String × Json))

namespace Json

open Text

@[elab_as_elim]
theorem induction {P : Json → Prop} (null : P .null) (bool : ∀ value, P (.bool value))
    (string : ∀ text, P (.string text))
    (array : ∀ items, (∀ item ∈ items, P item) → P (.array items))
    (object : ∀ fields, (∀ field ∈ fields, P field.2) → P (.object fields)) (value : Json) :
    P value := by
  refine @Json.rec P (fun items => ∀ item ∈ items, P item)
    (fun fields => ∀ field ∈ fields, P field.2) (fun field => P field.2)
    null bool string array object nofun ?_ nofun ?_ ?_ value
  · intro item items first others
    exact List.forall_mem_cons.mpr ⟨first, others⟩
  · intro field fields first others
    exact List.forall_mem_cons.mpr ⟨first, others⟩
  · exact fun name value given => given

mutual

def render : Json → String
  | .null => "null"
  | .bool true => "true"
  | .bool false => "false"
  | .string text => JsonString.quote text
  | .array items => "[" ++ Text.join "," (renderAll items) ++ "]"
  | .object fields => "\x7b" ++ Text.join "," (renderFields fields) ++ "\x7d"

def renderAll : List Json → List String
  | [] => []
  | item :: items => item.render :: renderAll items

def renderFields : List (String × Json) → List String
  | [] => []
  | (name, value) :: fields =>
    (JsonString.quote name ++ ":" ++ value.render) :: renderFields fields

end

inductive Mark where
  | openBrace
  | closeBrace
  | openBracket
  | closeBracket
  | colon
  | comma
  | null
  | bool (value : Bool)
  | text (value : String)
deriving DecidableEq, Repr

def digit? (c : Char) : Option Nat :=
  if c.isDigit then some (c.toNat - '0'.toNat)
  else if 'a' ≤ c ∧ c ≤ 'f' then some (c.toNat - 'a'.toNat + 10)
  else if 'A' ≤ c ∧ c ≤ 'F' then some (c.toNat - 'A'.toNat + 10)
  else none

def unit? (a b c d : Char) : Option Nat :=
  match digit? a, digit? b, digit? c, digit? d with
  | some a, some b, some c, some d => some (((a * 16 + b) * 16 + c) * 16 + d)
  | _, _, _, _ => none

def isHigh (unit : Nat) : Bool := 0xD800 ≤ unit && unit < 0xDC00
def isLow (unit : Nat) : Bool := 0xDC00 ≤ unit && unit < 0xE000

def unescape? : Char → Option Char
  | '"' => some '"'
  | '\\' => some '\\'
  | '/' => some '/'
  | 'b' => some '\x08'
  | 'f' => some '\x0c'
  | 'n' => some '\n'
  | 'r' => some '\r'
  | 't' => some '\t'
  | _ => none

mutual

def scan : List Char → Option (List Mark)
  | [] => some []
  | '\x7b' :: cs => (scan cs).map (.openBrace :: ·)
  | '\x7d' :: cs => (scan cs).map (.closeBrace :: ·)
  | '[' :: cs => (scan cs).map (.openBracket :: ·)
  | ']' :: cs => (scan cs).map (.closeBracket :: ·)
  | ':' :: cs => (scan cs).map (.colon :: ·)
  | ',' :: cs => (scan cs).map (.comma :: ·)
  | '"' :: cs => scanText [] cs
  | 'n' :: 'u' :: 'l' :: 'l' :: cs => (scan cs).map (.null :: ·)
  | 't' :: 'r' :: 'u' :: 'e' :: cs => (scan cs).map (.bool true :: ·)
  | 'f' :: 'a' :: 'l' :: 's' :: 'e' :: cs => (scan cs).map (.bool false :: ·)
  | ' ' :: cs => scan cs
  | '\t' :: cs => scan cs
  | '\n' :: cs => scan cs
  | '\r' :: cs => scan cs
  | _ => none

-- Inside a string, with the characters read so far in reverse. A code point past the first plane is
-- escaped as two units.
def scanText (read : List Char) : List Char → Option (List Mark)
  | [] => none
  | '"' :: cs => (scan cs).map (.text (String.ofList read.reverse) :: ·)
  | '\\' :: 'u' :: a :: b :: c :: d :: cs =>
    match unit? a b c d with
    | none => none
    | some unit =>
      if isLow unit then none
      else if isHigh unit then
        match cs with
        | '\\' :: 'u' :: e :: f :: g :: h :: cs =>
          match unit? e f g h with
          | none => none
          | some low =>
            if isLow low then
              scanText (Char.ofNat ((unit - 0xD800) * 0x400 + (low - 0xDC00) + 0x10000) :: read) cs
            else none
        | _ => none
      else scanText (Char.ofNat unit :: read) cs
  | '\\' :: c :: cs =>
    match unescape? c with
    | none => none
    | some c => scanText (c :: read) cs
  | c :: cs => if c.toNat < 32 ∨ c = '\\' then none else scanText (c :: read) cs

end

inductive Frame where
  | array (done : List Json)
  | object (done : List (String × Json)) (name : String)

-- What has to come next: a value, the first item of an array or its end, the first name of an
-- object or its end, another name, a colon, or what can follow a value.
inductive State where
  | value (outer : List Frame)
  | item (outer : List Frame)
  | field (outer : List Frame)
  | name (done : List (String × Json)) (outer : List Frame)
  | colon (done : List (String × Json)) (name : String) (outer : List Frame)
  | after (value : Json) (outer : List Frame)

def enter (outer : List Frame) : Mark → Option State
  | .openBracket => some (.item outer)
  | .openBrace => some (.field outer)
  | .null => some (.after .null outer)
  | .bool value => some (.after (.bool value) outer)
  | .text text => some (.after (.string text) outer)
  | _ => none

def step : State → Mark → Option State
  | .value outer, mark => enter outer mark
  | .item outer, .closeBracket => some (.after (.array []) outer)
  | .item outer, mark => enter (.array [] :: outer) mark
  | .field outer, .closeBrace => some (.after (.object []) outer)
  | .field outer, .text name => some (.colon [] name outer)
  | .name done outer, .text name => some (.colon done name outer)
  | .colon done name outer, .colon => some (.value (.object done name :: outer))
  | .after value (.array done :: outer), .comma => some (.value (.array (value :: done) :: outer))
  | .after value (.array done :: outer), .closeBracket =>
    some (.after (.array (value :: done).reverse) outer)
  | .after value (.object done name :: outer), .comma =>
    some (.name ((name, value) :: done) outer)
  | .after value (.object done name :: outer), .closeBrace =>
    some (.after (.object ((name, value) :: done).reverse) outer)
  | _, _ => none

def read? (text : String) : Option Json :=
  match (scan text.toList).bind (·.foldlM step (.value [])) with
  | some (.after value []) => some value
  | _ => none

def commas : List (List Mark) → List Mark
  | [] => []
  | part :: parts => part ++ parts.flatMap (.comma :: ·)

mutual

def marks : Json → List Mark
  | .null => [.null]
  | .bool value => [.bool value]
  | .string text => [.text text]
  | .array items => .openBracket :: (commas (marksAll items) ++ [.closeBracket])
  | .object fields => .openBrace :: (commas (marksFields fields) ++ [.closeBrace])

def marksAll : List Json → List (List Mark)
  | [] => []
  | item :: items => item.marks :: marksAll items

def marksFields : List (String × Json) → List (List Mark)
  | [] => []
  | (name, value) :: fields => (.text name :: .colon :: value.marks) :: marksFields fields

end

theorem renderAll_eq_map (items : List Json) : renderAll items = items.map render := by
  induction items with
  | nil => rfl
  | cons item items ih => simp [renderAll, ih]

theorem renderFields_eq_map (fields : List (String × Json)) :
    renderFields fields =
      fields.map fun field => JsonString.quote field.1 ++ ":" ++ field.2.render := by
  induction fields with
  | nil => rfl
  | cons field fields ih => simp [renderFields, ih]

theorem marksAll_eq_map (items : List Json) : marksAll items = items.map marks := by
  induction items with
  | nil => rfl
  | cons item items ih => simp [marksAll, ih]

theorem marksFields_eq_map (fields : List (String × Json)) :
    marksFields fields = fields.map fun field => .text field.1 :: .colon :: field.2.marks := by
  induction fields with
  | nil => rfl
  | cons field fields ih => simp [marksFields, ih]

theorem toList_join (part : String) (parts : List String) :
    (Text.join "," (part :: parts)).toList =
      part.toList ++ parts.flatMap (fun part => ',' :: part.toList) := by
  induction parts generalizing part with
  | nil => simp [Text.join]
  | cons next parts ih => simp [Text.join, ih]

section Strings

theorem digit?_hexDigit {n : Nat} (small : n < 16) : digit? (JsonString.hexDigit n) = some n := by
  revert n
  decide

theorem unit?_escape (c : Char) (control : c.toNat < 32) :
    unit? '0' '0' (JsonString.hexDigit (c.toNat / 16)) (JsonString.hexDigit (c.toNat % 16)) =
      some c.toNat := by
  have zero : digit? '0' = some 0 := rfl
  unfold unit?
  rw [zero, digit?_hexDigit (by omega), digit?_hexDigit (by omega)]
  simp only [Option.some.injEq]
  omega

theorem scanText_plain {c : Char} (notQuote : c ≠ '"') (notBackslash : c ≠ '\\')
    (visible : ¬c.toNat < 32) (read cs : List Char) :
    scanText read (c :: cs) = scanText (c :: read) cs := by
  rw [scanText.eq_def]
  split
  · rename_i same
    cases same
  · rename_i same
    cases same
    exact absurd rfl notQuote
  · rename_i same
    cases same
    exact absurd rfl notBackslash
  · rename_i same
    cases same
    exact absurd rfl notBackslash
  · rename_i same
    cases same
    rw [if_neg (not_or.mpr ⟨visible, notBackslash⟩)]

theorem scanText_escape (read : List Char) (c : Char) (cs : List Char) :
    scanText read (JsonString.escape c ++ cs) = scanText (c :: read) cs := by
  unfold JsonString.escape
  split
  · rfl
  · rfl
  · rfl
  · rfl
  · rfl
  · rfl
  · rfl
  · rename_i notQuote notBackslash _ _ _ _ _
    split
    · rename_i control
      have plain : isLow c.toNat = false ∧ isHigh c.toNat = false := by
        simp [isLow, isHigh]
        omega
      simp only [List.cons_append, List.nil_append, scanText, unit?_escape c control, plain,
        Bool.false_eq_true, if_false, Char.ofNat_toNat]
    · rename_i visible
      exact scanText_plain notQuote notBackslash visible read cs

theorem scanText_flatMap (read text cs : List Char) :
    scanText read (text.flatMap JsonString.escape ++ '"' :: cs) =
      (scan cs).map (.text (String.ofList (read.reverse ++ text)) :: ·) := by
  induction text generalizing read with
  | nil => simp [scanText]
  | cons c text ih =>
    rw [List.flatMap_cons, List.append_assoc, scanText_escape, ih]
    simp

end Strings

-- Characters that are read as these marks, whatever comes after them.
def Scans (cs : List Char) (found : List Mark) : Prop :=
  ∀ rest, scan (cs ++ rest) = (scan rest).map (found ++ ·)

theorem Scans.append {cs ds : List Char} {found others : List Mark} (one : Scans cs found)
    (another : Scans ds others) : Scans (cs ++ ds) (found ++ others) := by
  intro rest
  rw [List.append_assoc, one, another, Option.map_map]
  congr 1
  funext later
  exact (List.append_assoc found others later).symm

theorem scans_quote (text : String) : Scans (JsonString.quote text).toList [.text text] := by
  intro rest
  have read := scanText_flatMap [] text.toList rest
  simpa [JsonString.quote, scan] using read

theorem scans_nil : Scans [] [] := by
  intro rest
  cases scanned : scan rest <;> simp [scanned]

theorem scans_comma : Scans [','] [.comma] := fun _ => rfl

theorem scans_commas {α : Type} {write : α → String} {found : α → List Mark} {items : List α}
    (each : ∀ item ∈ items, Scans (write item).toList (found item)) :
    Scans (Text.join "," (items.map write)).toList (commas (items.map found)) := by
  cases items with
  | nil => exact scans_nil
  | cons first items =>
    obtain ⟨head, tail⟩ := List.forall_mem_cons.mp each
    rw [List.map_cons, List.map_cons, toList_join, commas]
    apply head.append
    clear each head
    induction items with
    | nil => exact scans_nil
    | cons item items ih =>
      obtain ⟨next, tail⟩ := List.forall_mem_cons.mp tail
      exact (scans_comma.append next).append (ih tail)

theorem scans_render (value : Json) : Scans value.render.toList value.marks := by
  induction value using Json.induction with
  | null => exact fun _ => rfl
  | bool value => cases value <;> exact fun _ => rfl
  | string text => exact scans_quote text
  | array items each =>
    have between := scans_commas each
    have opened : Scans ['['] [.openBracket] := fun _ => rfl
    have closed : Scans [']'] [.closeBracket] := fun _ => rfl
    have whole := opened.append (between.append closed)
    simpa [render, marks, renderAll_eq_map, marksAll_eq_map] using whole
  | object fields each =>
    have colon : Scans [':'] [.colon] := fun _ => rfl
    have written : ∀ field ∈ fields,
        Scans (JsonString.quote field.1 ++ ":" ++ field.2.render).toList
          (.text field.1 :: .colon :: field.2.marks) := by
      intro field member
      have whole := ((scans_quote field.1).append colon).append (each field member)
      simpa using whole
    have between := scans_commas written
    have opened : Scans ['\x7b'] [.openBrace] := fun _ => rfl
    have closed : Scans ['\x7d'] [.closeBrace] := fun _ => rfl
    have whole := opened.append (between.append closed)
    simpa [render, marks, renderFields_eq_map, marksFields_eq_map] using whole

def Leads (before : State) (found : List Mark) (after : State) : Prop :=
  found.foldlM step before = some after

variable {before between after : State} {mark : Mark} {found others : List Mark}

theorem Leads.cons (taken : step before mark = some between) (rest : Leads between found after) :
    Leads before (mark :: found) after := by
  rw [Leads, List.foldlM_cons, taken]
  exact rest

theorem Leads.append (one : Leads before found between) (another : Leads between others after) :
    Leads before (found ++ others) after := by
  rw [Leads, List.foldlM_append, one]
  exact another

def Readable (value : Json) : Prop :=
  ∀ outer, Leads (.value outer) value.marks (.after value outer)

-- The first item of an array stands where the array could end instead.
theorem Readable.first {value : Json} (readable : value.Readable) (outer : List Frame) :
    Leads (.item outer) value.marks (.after value (.array [] :: outer)) := by
  have run := readable (.array [] :: outer)
  cases value <;> exact run

theorem leads_items {items : List Json} (each : ∀ item ∈ items, item.Readable) (value : Json)
    (done : List Json) (outer : List Frame) :
    Leads (.after value (.array done :: outer))
      ((items.map marks).flatMap (.comma :: ·) ++ [.closeBracket])
      (.after (.array ((value :: done).reverse ++ items)) outer) := by
  induction items generalizing value done with
  | nil => simp [Leads, step]
  | cons item items ih =>
    obtain ⟨next, each⟩ := List.forall_mem_cons.mp each
    have later := ih each item (value :: done)
    rw [List.reverse_cons, List.append_assoc, List.singleton_append] at later
    rw [List.map_cons, List.flatMap_cons, List.cons_append, List.cons_append, List.append_assoc]
    exact .cons rfl ((next _).append later)

theorem leads_fields {fields : List (String × Json)} (each : ∀ field ∈ fields, field.2.Readable)
    (name : String) (value : Json) (done : List (String × Json)) (outer : List Frame) :
    Leads (.after value (.object done name :: outer))
      ((fields.map fun field => .text field.1 :: .colon :: field.2.marks).flatMap (.comma :: ·) ++
        [.closeBrace])
      (.after (.object (((name, value) :: done).reverse ++ fields)) outer) := by
  induction fields generalizing name value done with
  | nil => simp [Leads, step]
  | cons field fields ih =>
    obtain ⟨next, each⟩ := List.forall_mem_cons.mp each
    have later := ih each field.1 field.2 ((name, value) :: done)
    rw [List.reverse_cons, List.append_assoc, List.singleton_append] at later
    rw [List.map_cons, List.flatMap_cons, List.cons_append, List.cons_append, List.append_assoc]
    exact .cons rfl (.cons rfl (.cons rfl ((next _).append later)))

theorem readable (value : Json) : value.Readable := by
  induction value using Json.induction with
  | null => exact fun _ => rfl
  | bool value => exact fun _ => rfl
  | string text => exact fun _ => rfl
  | array items each =>
    intro outer
    rw [marks, marksAll_eq_map]
    cases items with
    | nil => rfl
    | cons item items =>
      obtain ⟨first, each⟩ := List.forall_mem_cons.mp each
      rw [List.map_cons, commas, List.append_assoc]
      exact .cons rfl ((first.first outer).append (leads_items each item [] outer))
  | object fields each =>
    intro outer
    rw [marks, marksFields_eq_map]
    cases fields with
    | nil => rfl
    | cons field fields =>
      obtain ⟨first, each⟩ := List.forall_mem_cons.mp each
      rw [List.map_cons, commas, List.append_assoc]
      exact .cons rfl (.cons rfl (.cons rfl
        ((first _).append (leads_fields each field.1 field.2 [] outer))))

theorem read?_render (value : Json) : read? value.render = some value := by
  have scanned : scan value.render.toList = some value.marks := by
    have all := scans_render value []
    simpa [scan] using all
  have run : value.marks.foldlM step (.value []) = some (.after value []) := readable value []
  rw [read?, scanned, Option.bind_some, run]

section Lines

theorem inLine_escape (c : Char) : InLine (JsonString.escape c) := by
  have digit : ∀ n < 16, JsonString.hexDigit n ≠ '\n' ∧ JsonString.hexDigit n ≠ '\r' := by decide
  unfold JsonString.escape
  split
  case h_8 =>
    split
    · rename_i control
      simp [digit (c.toNat / 16) (by omega), digit (c.toNat % 16) (by omega)]
    · rename_i feed ret _ visible
      simp_all
  all_goals simp

theorem inLine_quote (text : String) : InLine (JsonString.quote text).toList := by
  simp [JsonString.quote, inLine_escape]

theorem inLine_join {parts : List String} (each : ∀ part ∈ parts, InLine part.toList) :
    InLine (Text.join "," parts).toList := by
  cases parts with
  | nil => exact inLine_nil
  | cons first parts =>
    obtain ⟨head, tail⟩ := List.forall_mem_cons.mp each
    rw [toList_join]
    simpa [head] using tail

theorem inLine_render (value : Json) : InLine value.render.toList := by
  induction value using Json.induction with
  | null => simp [render]
  | bool value => cases value <;> simp [render]
  | string text => exact inLine_quote text
  | array items each =>
    have parts := inLine_join (List.forall_mem_map.mpr each)
    simp [render, renderAll_eq_map, parts]
  | object fields each =>
    have written : ∀ field ∈ fields,
        InLine (JsonString.quote field.1 ++ ":" ++ field.2.render).toList := by
      intro field member
      simp [inLine_quote, each field member]
    have parts := inLine_join (List.forall_mem_map.mpr written)
    simp [render, renderFields_eq_map, parts]

end Lines

end Json

end Stottr

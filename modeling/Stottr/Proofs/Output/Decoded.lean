import Stottr.Output
import Stottr.Proofs.Output.Json

namespace Stottr

namespace Json

def values (name : String) (fields : List (String × Json)) : List Json :=
  (fields.filter (·.1 = name)).map (·.2)

theorem sizeOf_values {name : String} {fields : List (String × Json)} {value : Json}
    (listed : value ∈ values name fields) : sizeOf value < sizeOf fields := by
  obtain ⟨field, kept, rfl⟩ := List.mem_map.mp listed
  have smaller := List.sizeOf_lt_of_mem (List.mem_of_mem_filter kept)
  have parts : sizeOf field = 1 + sizeOf field.1 + sizeOf field.2 := by cases field; rfl
  omega

-- An optional string, which is absent without a field and with a null.
def optional? : List Json → Option (Option String)
  | [] => some none
  | [.null] => some none
  | [.string text] => some (some text)
  | _ => none

end Json

namespace Literal

def json (l : Literal) : Json :=
  .object (("lexical", .string l.lexical) :: ("datatype", .string l.datatype.text) ::
    l.language.toList.map fun tag => ("language", .string tag))

def ofJson? : Json → Option Literal
  | .object fields =>
    match Json.values "lexical" fields, Json.values "datatype" fields,
      Json.optional? (Json.values "language" fields) with
    | [.string lexical], [.string datatype], some language => some ⟨lexical, ⟨datatype⟩, language⟩
    | _, _, _ => none
  | _ => none

theorem jsonLiteral_eq (l : Literal) : Term.jsonLiteral l = l.json.render := by
  obtain ⟨lexical, datatype, language⟩ := l
  cases language <;> rfl

theorem ofJson?_json (l : Literal) : ofJson? l.json = some l := by
  obtain ⟨lexical, datatype, language⟩ := l
  cases language <;> rfl

end Literal

namespace Term

def Kind.tag : Kind → String
  | .iri => "iri"
  | .blank => "blank_node"
  | .literal => "literal"
  | .list => "list"
  | .none => "none"

def tagged (kind : Kind) (content : List (String × Json)) : Json :=
  .object (("type", .string kind.tag) :: content)

def Kind.ofTag? (text : String) : Option Kind :=
  [Kind.iri, .blank, .literal, .list, .none].find? (·.tag = text)

mutual

def ofJson? (json : Json) : Option Term :=
  match json with
  | .object fields =>
    match Json.values "type" fields with
    | [.string text] =>
      match Kind.ofTag? text, _ : Json.values "value" fields with
      | some .iri, [.string text] => some (.iri ⟨text⟩)
      | some .blank, [.string label] => some (.blank ⟨label⟩)
      | some .literal, [value] => (Literal.ofJson? value).map .literal
      | some .list, [.array items] => (ofJsonAll? items).map .list
      | some .none, [] => some .none
      | some .none, [.null] => some .none
      | _, _ => Option.none
    | _ => Option.none
  | _ => Option.none
termination_by sizeOf json
decreasing_by
  have listed : Json.values "value" fields = [.array items] := ‹_›
  have smaller := Json.sizeOf_values (listed ▸ List.mem_singleton_self (Json.array items))
  simp at smaller ⊢
  omega

def ofJsonAll? (jsons : List Json) : Option (List Term) :=
  match jsons with
  | [] => some []
  | json :: jsons =>
    match ofJson? json, ofJsonAll? jsons with
    | some t, some ts => some (t :: ts)
    | _, _ => Option.none
termination_by sizeOf jsons

end

mutual

def json : Term → Json
  | .iri name => tagged .iri [("value", .string name.text)]
  | .blank node => tagged .blank [("value", .string node.label)]
  | .literal value => tagged .literal [("value", value.json)]
  | .list items => tagged .list [("value", .array (jsonAll items))]
  | .none => tagged .none []

def jsonAll : List Term → List Json
  | [] => []
  | t :: ts => t.json :: jsonAll ts

end

mutual

theorem toJson_eq (t : Term) : t.toJson = t.json.render := by
  cases t with
  | iri name => rfl
  | blank node => rfl
  | literal value =>
    rw [toJson, Literal.jsonLiteral_eq]
    rfl
  | list items =>
    rw [toJson, toJsonAll_eq items]
    rfl
  | none => rfl

theorem toJsonAll_eq (ts : List Term) : toJsonAll ts = Json.renderAll (jsonAll ts) := by
  cases ts with
  | nil => rfl
  | cons t ts => rw [toJsonAll, jsonAll, Json.renderAll, toJson_eq t, toJsonAll_eq ts]

end

mutual

theorem ofJson?_json (t : Term) : ofJson? t.json = some t := by
  cases t with
  | iri name =>
    rw [json, tagged, ofJson?]
    rfl
  | blank node =>
    rw [json, tagged, ofJson?]
    rfl
  | literal value =>
    rw [json, tagged, ofJson?]
    exact congrArg (Option.map literal) value.ofJson?_json
  | list items =>
    rw [json, tagged, ofJson?]
    exact congrArg (Option.map list) (ofJsonAll?_json items)
  | none =>
    rw [json, tagged, ofJson?]
    rfl

theorem ofJsonAll?_json (ts : List Term) : ofJsonAll? (jsonAll ts) = some ts := by
  cases ts with
  | nil => rw [jsonAll, ofJsonAll?]
  | cons t ts => rw [jsonAll, ofJsonAll?, ofJson?_json t, ofJsonAll?_json ts]

end

end Term

namespace Statement

def json (s : Statement) : Json :=
  .object [("subject", s.subject.json), ("predicate", s.predicate.json), ("object", s.object.json)]

def ofJson? : Json → Option Statement
  | .object fields =>
    match Json.values "subject" fields, Json.values "predicate" fields,
      Json.values "object" fields with
    | [subject], [predicate], [object] =>
      match Term.ofJson? subject, Term.ofJson? predicate, Term.ofJson? object with
      | some subject, some predicate, some object => some ⟨subject, predicate, object⟩
      | _, _, _ => none
    | _, _, _ => none
  | _ => none

def decode? (line : String) : Option Statement := (Json.read? line).bind ofJson?

theorem toJson_eq (s : Statement) : s.toJson = s.json.render := by
  rw [toJson, s.subject.toJson_eq, s.predicate.toJson_eq, s.object.toJson_eq]
  rfl

theorem ofJson?_json (s : Statement) : ofJson? s.json = some s := by
  have subject := s.subject.ofJson?_json
  have predicate := s.predicate.ofJson?_json
  have object := s.object.ofJson?_json
  simp [json, ofJson?, Json.values, subject, predicate, object]

theorem decode?_toJson (s : Statement) : decode? s.toJson = some s := by
  rw [decode?, toJson_eq, Json.read?_render, Option.bind_some, ofJson?_json]

-- Neither blanks nor the order of fields nor the way a character is escaped makes a difference.
example : Statement.decode? ("\x7b\"object\": \x7b\"value\": [], \"type\": \"list\"\x7d, " ++
    "\"predicate\": \x7b\"type\": \"iri\", \"value\": \"\\u0061:\\/b\"\x7d, " ++
    "\"subject\": \x7b\"type\": \"none\"\x7d\x7d") = some ⟨.none, .iri ⟨"a:/b"⟩, .list []⟩ := by cbv

theorem toJson_injective {s t : Statement} (same : s.toJson = t.toJson) : s = t := by
  have decoded := decode?_toJson s
  rw [same, decode?_toJson] at decoded
  exact (Option.some.inj decoded).symm

theorem inLine_toJson (s : Statement) : Text.InLine s.toJson.toList := by
  rw [toJson_eq]
  exact s.json.inLine_render

end Statement

namespace Format

theorem json_decodes (statements : List Statement) :
    Text.segments '\n' (json.write statements).toList =
        statements.map (fun s => s.toJson.toList) ++ [[]] ∧
      (∀ s ∈ statements, '\n' ∉ s.toJson.toList ∧ Statement.decode? s.toJson = some s) ∧
      ∀ others, json.write others = json.write statements → others = statements := by
  have inLine : ∀ s : Statement, '\n' ∉ (json.body s).toList :=
    fun s member => (s.inLine_toJson '\n' member).1 rfl
  refine ⟨segments_write fun s _ => inLine s, fun s _ => ⟨inLine s, s.decode?_toJson⟩, ?_⟩
  intro others same
  exact write_inj (fun _ => True) (fun s _ => inLine s)
    (fun s t _ _ => Statement.toJson_injective) (fun _ _ => trivial) (fun _ _ => trivial)
    (congrArg String.toList same)

end Format

end Stottr

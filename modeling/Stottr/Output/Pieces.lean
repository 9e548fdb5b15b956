import Stottr.Output

namespace Stottr

def Text.separate (separator : String) : List (List String) → List String
  | [] => []
  | [pieces] => pieces
  | pieces :: rest => pieces ++ separator :: Text.separate separator rest

theorem Text.join_separate (separator : String) (parts : List (List String)) :
    String.join (Text.separate separator parts) =
      Text.join separator (parts.map String.join) := by
  fun_induction Text.separate separator parts with
  | case1 => rfl
  | case2 => simp [Text.join]
  | case3 pieces rest nonempty ih =>
    cases rest with
    | nil => exact absurd rfl (nonempty ·)
    | cons next rest => simp_all [Text.join, String.append_assoc]

namespace Text.JsonString

def runs (run : List Char) : List Char → List String
  | [] => [String.ofList run.reverse]
  | c :: cs =>
    if escape c = [c] then runs (c :: run) cs
    else String.ofList run.reverse :: String.ofList (escape c) :: runs [] cs

theorem join_runs (run cs : List Char) :
    String.join (runs run cs) = String.ofList (run.reverse ++ cs.flatMap escape) := by
  fun_induction runs run cs with
  | case1 => simp
  | case2 run c cs plain ih => simp [ih, plain]
  | case3 run c cs _ ih => simp [ih, String.ofList_append]

def pieces (text : String) : List String := "\"" :: runs [] text.toList ++ ["\""]

theorem join_pieces (text : String) : String.join (pieces text) = quote text := by
  simp [pieces, quote, join_runs, String.append_assoc]

end Text.JsonString

namespace Iri

def pieces (iri : Iri) : List String := ["<", iri.text, ">"]

theorem join_pieces (iri : Iri) : String.join iri.pieces = iri.render := by
  simp [pieces, render, String.append_assoc]

end Iri

namespace BlankNode

def pieces (b : BlankNode) : List String := ["_:", b.label]

theorem join_pieces (b : BlankNode) : String.join b.pieces = b.render := by
  simp [pieces, render]

end BlankNode

namespace Literal

def quotedPieces (lexical : String) : List String :=
  ["\"", String.ofList (lexical.toList.flatMap escape), "\""]

theorem join_quotedPieces (lexical : String) :
    String.join (quotedPieces lexical) = quote lexical := by
  simp [quotedPieces, quote, String.append_assoc]

def pieces (l : Literal) : List String :=
  quotedPieces l.lexical ++
    match l.language with
    | some tag => ["@", tag]
    | none => if l.datatype = Vocabulary.string then [] else "^^" :: l.datatype.pieces

theorem join_pieces (l : Literal) : String.join l.pieces = l.render := by
  unfold pieces render
  rw [String.join_append, join_quotedPieces]
  cases l.language with
  | some tag => simp [String.append_assoc]
  | none =>
    by_cases h : l.datatype = Vocabulary.string <;>
      simp [h, Iri.join_pieces, String.append_assoc]

end Literal

namespace Term

mutual

def pieces : Term → List String
  | .iri name => name.pieces
  | .blank node => node.pieces
  | .literal value => value.pieces
  | .list items => "(" :: Text.separate ", " (piecesAll items) ++ [")"]
  | .none => Vocabulary.absent.pieces

def piecesAll : List Term → List (List String)
  | [] => []
  | t :: ts => t.pieces :: piecesAll ts

end

mutual

theorem join_pieces : (t : Term) → String.join t.pieces = t.render
  | .iri name => by simp [pieces, render, Iri.join_pieces]
  | .blank node => by simp [pieces, render, BlankNode.join_pieces]
  | .literal value => by simp [pieces, render, Literal.join_pieces]
  | .list items => by
    simp [pieces, render, Text.join_separate, map_join_piecesAll items, String.append_assoc]
  | .none => by simp [pieces, render, Iri.join_pieces]

theorem map_join_piecesAll : (ts : List Term) → (piecesAll ts).map String.join = renderAll ts
  | [] => rfl
  | t :: ts => by simp [piecesAll, renderAll, join_pieces t, map_join_piecesAll ts]

end

def jsonFieldPieces (name : String) (value : List String) : List String :=
  Text.JsonString.pieces name ++ ":" :: value

theorem join_jsonFieldPieces (name : String) (value : List String) :
    String.join (jsonFieldPieces name value) = jsonField name (String.join value) := by
  simp [jsonFieldPieces, jsonField, Text.JsonString.join_pieces, String.append_assoc]

def jsonObjectPieces (fields : List (List String)) : List String :=
  "\x7b" :: Text.separate "," fields ++ ["\x7d"]

theorem join_jsonObjectPieces (fields : List (List String)) :
    String.join (jsonObjectPieces fields) = jsonObject (fields.map String.join) := by
  simp [jsonObjectPieces, jsonObject, Text.join_separate, String.append_assoc]

def jsonTaggedPieces (kind : String) (value : List String) : List String :=
  jsonObjectPieces [jsonFieldPieces "type" (Text.JsonString.pieces kind),
    jsonFieldPieces "value" value]

theorem join_jsonTaggedPieces (kind : String) (value : List String) :
    String.join (jsonTaggedPieces kind value) = jsonTagged kind (String.join value) := by
  simp [jsonTaggedPieces, jsonTagged, join_jsonObjectPieces, join_jsonFieldPieces,
    Text.JsonString.join_pieces]

def jsonLiteralPieces (l : Literal) : List String :=
  let language := match l.language with
    | some tag => [jsonFieldPieces "language" (Text.JsonString.pieces tag)]
    | Option.none => []
  jsonObjectPieces (jsonFieldPieces "lexical" (Text.JsonString.pieces l.lexical) ::
    jsonFieldPieces "datatype" (Text.JsonString.pieces l.datatype.text) :: language)

theorem join_jsonLiteralPieces (l : Literal) :
    String.join (jsonLiteralPieces l) = jsonLiteral l := by
  unfold jsonLiteralPieces jsonLiteral
  cases l.language <;>
    simp [join_jsonObjectPieces, join_jsonFieldPieces, Text.JsonString.join_pieces]

mutual

def jsonPieces : Term → List String
  | .iri name => jsonTaggedPieces "iri" (Text.JsonString.pieces name.text)
  | .blank node => jsonTaggedPieces "blank_node" (Text.JsonString.pieces node.label)
  | .literal value => jsonTaggedPieces "literal" (jsonLiteralPieces value)
  | .list items =>
    jsonTaggedPieces "list" ("[" :: Text.separate "," (jsonPiecesAll items) ++ ["]"])
  | .none => jsonObjectPieces [jsonFieldPieces "type" (Text.JsonString.pieces "none")]

def jsonPiecesAll : List Term → List (List String)
  | [] => []
  | t :: ts => t.jsonPieces :: jsonPiecesAll ts

end

mutual

theorem join_jsonPieces : (t : Term) → String.join t.jsonPieces = t.toJson
  | .iri name => by simp [jsonPieces, toJson, join_jsonTaggedPieces, Text.JsonString.join_pieces]
  | .blank node => by
    simp [jsonPieces, toJson, join_jsonTaggedPieces, Text.JsonString.join_pieces]
  | .literal value => by
    simp [jsonPieces, toJson, join_jsonTaggedPieces, join_jsonLiteralPieces]
  | .list items => by
    simp [jsonPieces, toJson, join_jsonTaggedPieces, Text.join_separate,
      map_join_jsonPiecesAll items, String.append_assoc]
  | .none => by
    simp [jsonPieces, toJson, join_jsonObjectPieces, join_jsonFieldPieces,
      Text.JsonString.join_pieces]

theorem map_join_jsonPiecesAll :
    (ts : List Term) → (jsonPiecesAll ts).map String.join = toJsonAll ts
  | [] => rfl
  | t :: ts => by simp [jsonPiecesAll, toJsonAll, join_jsonPieces t, map_join_jsonPiecesAll ts]

end

end Term

namespace Statement

def pieces (s : Statement) : List String :=
  s.subject.pieces ++ " " :: s.predicate.pieces ++ " " :: s.object.pieces ++ [" ."]

theorem join_pieces (s : Statement) : String.join s.pieces = s.render := by
  simp [pieces, render, Term.join_pieces, String.append_assoc]

def jsonPieces (s : Statement) : List String :=
  Term.jsonObjectPieces [Term.jsonFieldPieces "subject" s.subject.jsonPieces,
    Term.jsonFieldPieces "predicate" s.predicate.jsonPieces,
    Term.jsonFieldPieces "object" s.object.jsonPieces]

theorem join_jsonPieces (s : Statement) : String.join s.jsonPieces = s.toJson := by
  simp [jsonPieces, toJson, Term.join_jsonObjectPieces, Term.join_jsonFieldPieces,
    Term.join_jsonPieces]

end Statement

namespace Format

def linePieces (format : Format) (s : Statement) : List String :=
  match format with
  | .ntriples => s.pieces ++ ["\n"]
  | .json => s.jsonPieces ++ ["\n"]

theorem join_linePieces (format : Format) (s : Statement) :
    String.join (format.linePieces s) = format.line s := by
  cases format <;> simp [linePieces, line, Statement.join_pieces, Statement.join_jsonPieces]

def pieces (format : Format) (statements : List Statement) : List String :=
  statements.flatMap format.linePieces

theorem join_pieces (format : Format) (statements : List Statement) :
    String.join (format.pieces statements) = format.write statements := by
  induction statements with
  | nil => rfl
  | cons s rest ih => simp_all [pieces, write, join_linePieces]

end Format

end Stottr

import Stottr.Proofs.Document.Printed
import Stottr.Proofs.Output.Lines
import Stottr.Proofs.Token.Absolute

namespace Stottr

open Text

theorem Iri.visible_of_admits {c : Char} (admitted : admits c = true) : isBlank c = false := by
  simp only [admits, Bool.and_eq_true, Bool.not_eq_true'] at admitted
  exact admitted.1

theorem Token.visible_of_isNameChar {c : Char} (named : isNameChar c = true) : isBlank c = false :=
  Iri.visible_of_admits (admits_of_isNameChar named).1

theorem Iri.render_toList (iri : Iri) : iri.render.toList = '<' :: (iri.text.toList ++ ['>']) := by
  simp [render]

theorem BlankNode.render_toList (node : BlankNode) :
    node.render.toList = '_' :: ':' :: node.label.toList := by
  simp [render]

namespace Literal

theorem head?_render (l : Literal) : l.render.toList.head? = some '"' := by
  unfold render
  split
  · simp [quote]
  · split <;> simp [quote]

theorem inLine_escape (c : Char) : InLine (escape c) := by
  rcases Token.escape_cases c with ⟨letter, escaped, known⟩ | ⟨plain, notReserved⟩
  · have letters : ∀ pair ∈ Token.escapes, pair.1 ≠ '\n' ∧ pair.1 ≠ '\r' := by decide
    simp [escaped, letters _ known]
  · obtain ⟨-, -, inLine⟩ := Token.not_mem_reserved_iff.mp notReserved
    simpa [plain] using not_or.mp inLine

theorem inLine_quote (lexical : String) : InLine (quote lexical).toList := by
  simp [quote, inLine_escape]

theorem allowed_of_isSubtag {allowed : Char → Bool} {part : List Char} {c : Char}
    (subtag : isSubtag allowed part = true) (inside : c ∈ part) : allowed c = true := by
  simp only [isSubtag, Bool.and_eq_true] at subtag
  exact List.all_eq_true.mp subtag.2 c inside

theorem inLine_languageTag {tag : List Char} (valid : isLanguageTag tag = true) : InLine tag := by
  intro c member
  unfold isLanguageTag at valid
  rcases mem_segments '-' member with rfl | ⟨part, listed, inside⟩
  · decide
  · split at valid
    · cases valid
    · rename_i primary others parts
      rw [Bool.and_eq_true] at valid
      rw [parts] at listed
      rcases List.mem_cons.mp listed with rfl | listed
      · have letter := allowed_of_isSubtag valid.1 inside
        constructor <;> rintro rfl <;> cases letter
      · have letter := allowed_of_isSubtag (List.all_eq_true.mp valid.2 part listed) inside
        constructor <;> rintro rfl <;> cases letter

theorem inLine_render {l : Literal} (tagged : l.Tagged) : InLine l.render.toList := by
  unfold render
  split
  · rename_i tag spoken
    have inTag := inLine_languageTag (tagged.language tag spoken)
    simp [inLine_quote, inTag]
  · split
    · exact inLine_quote l.lexical
    · have inName := inLine_of_visible fun c member =>
        Iri.visible_of_admits (tagged.datatype c member)
      simp [inLine_quote, Iri.render, inName]

-- The scanner finds the lexical form and the tag of a printed literal, and the reader makes the
-- literal again from these.
theorem Built.eq_of_render {l l' : Literal} (built : l.Built) (built' : l'.Built)
    (same : l.render = l'.render) : l = l' := by
  have nothing : Token.Apart [] := nofun
  have one := Token.readsAs_literal built.tagged? nothing Token.reads_nil Text.Position.start
  have another := Token.readsAs_literal built'.tagged? nothing Token.reads_nil Text.Position.start
  rw [same] at one
  obtain ⟨lexical, tag⟩ : l.lexical = l'.lexical ∧ l.tag? = l'.tag? := by
    simpa [token] using one.unique another
  have made := Document.literal_of_built (r := ⟨.empty, default⟩) built default
  rw [lexical, tag, Document.literal_of_built built'] at made
  exact (Except.ok.inj made).symm

end Literal

namespace Term

-- What the first two parts of a triple can be: an absolute IRI, or a blank node whose label is made
-- of characters of names.
inductive Node : Term → Prop where
  | iri {name : Iri} (absolute : name.Absolute) : Node (.iri name)
  | blank {node : BlankNode} (filled : node.label ≠ "")
    (named : ∀ c ∈ node.label.toList, Token.isNameChar c = true) : Node (.blank node)

inductive Object : Term → Prop where
  | node {t : Term} (node : t.Node) : Object t
  | literal {value : Literal} (built : value.Built) : Object (.literal value)

theorem Node.visible {t : Term} (node : t.Node) :
    ∀ c ∈ t.render.toList, Text.isBlank c = false := by
  cases node with
  | iri absolute =>
    have admitted := (Iri.absolute_iff.mp absolute).1
    have bracket : Text.isBlank '<' = false ∧ Text.isBlank '>' = false := by decide
    rw [render, Iri.render_toList]
    simp only [List.forall_mem_cons, List.forall_mem_append, bracket, true_and]
    exact ⟨fun c member => Iri.visible_of_admits (admitted c member), nofun⟩
  | blank filled named =>
    have mark : Text.isBlank '_' = false ∧ Text.isBlank ':' = false := by decide
    rw [render, BlankNode.render_toList]
    simp only [List.forall_mem_cons, mark, true_and]
    exact fun c member => Token.visible_of_isNameChar (named c member)

theorem Object.inLine {t : Term} (object : t.Object) : InLine t.render.toList := by
  cases object with
  | node node => exact inLine_of_visible node.visible
  | literal built => exact Literal.inLine_render built.tagged?

def Kind.initial : Kind → Char
  | .iri => '<'
  | .blank => '_'
  | .literal => '"'
  | .list => '('
  | .none => '<'

theorem head?_render (t : Term) : t.render.toList.head? = some t.kind.initial := by
  cases t with
  | iri name => simp [render, Iri.render_toList, kind, Kind.initial]
  | blank node => simp [render, BlankNode.render_toList, kind, Kind.initial]
  | literal value => simp [render, Literal.head?_render, kind, Kind.initial]
  | list items => simp [render, kind, Kind.initial]
  | none => simp [render, Iri.render_toList, kind, Kind.initial]

theorem Object.eq_of_render {t u : Term} (object : t.Object) (object' : u.Object)
    (same : t.render = u.render) : t = u := by
  have chars := congrArg String.toList same
  have initials : t.kind.initial = u.kind.initial := by
    have heads := congrArg List.head? chars
    rw [head?_render, head?_render] at heads
    exact Option.some.inj heads
  rcases object with (⟨-⟩ | ⟨-, -⟩) | built <;> rcases object' with (⟨-⟩ | ⟨-, -⟩) | built'
  case node.iri.node.iri name name' =>
    simp only [render, Iri.render_toList, List.cons.injEq, true_and,
      List.append_cancel_right_eq, String.toList_inj] at chars
    cases name
    cases name'
    exact congrArg (fun text => Term.iri ⟨text⟩) chars
  case node.blank.node.blank node node' =>
    simp only [render, BlankNode.render_toList, List.cons.injEq, true_and,
      String.toList_inj] at chars
    cases node
    cases node'
    exact congrArg (fun label => Term.blank ⟨label⟩) chars
  case literal.literal value value' =>
    exact congrArg Term.literal (built.eq_of_render built' same)
  all_goals simp [kind, Kind.initial] at initials

end Term

structure Statement.Triple (s : Statement) : Prop where
  subject : s.subject.Node
  predicate : s.predicate.Node
  object : s.object.Object

namespace Statement

variable {s t : Statement}

theorem render_toList (s : Statement) :
    s.render.toList = s.subject.render.toList ++ ' ' :: (s.predicate.render.toList ++
      ' ' :: (s.object.render.toList ++ [' ', '.'])) := by
  simp [render]

theorem Triple.inLine (triple : s.Triple) : InLine s.render.toList := by
  have subject := inLine_of_visible triple.subject.visible
  have predicate := inLine_of_visible triple.predicate.visible
  simp [render_toList, subject, predicate, triple.object.inLine]

theorem Triple.eq_of_render (triple : s.Triple) (triple' : t.Triple)
    (same : s.render = t.render) : s = t := by
  have noSpace : ∀ {part : Term}, part.Node → ' ' ∉ part.render.toList := by
    intro part node member
    cases node.visible ' ' member
  have chars := congrArg String.toList same
  rw [render_toList, render_toList] at chars
  obtain ⟨subjects, chars⟩ :=
    append_cons_inj (noSpace triple.subject) (noSpace triple'.subject) chars
  obtain ⟨predicates, chars⟩ :=
    append_cons_inj (noSpace triple.predicate) (noSpace triple'.predicate) chars
  have objects := List.append_cancel_right chars
  have subject := (Term.Object.node triple.subject).eq_of_render (.node triple'.subject)
    (String.toList_inj.mp subjects)
  have predicate := (Term.Object.node triple.predicate).eq_of_render (.node triple'.predicate)
    (String.toList_inj.mp predicates)
  have object := triple.object.eq_of_render triple'.object (String.toList_inj.mp objects)
  cases s
  cases t
  simp_all

end Statement

namespace Format

theorem return_not_mem_write {statements : List Statement} (triples : ∀ s ∈ statements, s.Triple) :
    '\r' ∉ (ntriples.write statements).toList := by
  induction statements with
  | nil => simp
  | cons s statements ih =>
    obtain ⟨triple, triples⟩ := List.forall_mem_cons.mp triples
    have inLine : '\r' ∉ s.render.toList := fun member => (triple.inLine '\r' member).2 rfl
    simp [body, inLine, ih triples]

theorem ntriples_unambiguous {statements : List Statement} (triples : ∀ s ∈ statements, s.Triple) :
    (ntriples.write statements).toList.count '\n' = statements.length ∧
      Text.segments '\n' (ntriples.write statements).toList =
        statements.map (fun s => s.render.toList) ++ [[]] ∧
      '\r' ∉ (ntriples.write statements).toList ∧
      ∀ others : List Statement, (∀ s ∈ others, s.Triple) →
        ntriples.write others = ntriples.write statements → others = statements := by
  have inLine : ∀ s : Statement, s.Triple → '\n' ∉ (ntriples.body s).toList :=
    fun s triple member => (triple.inLine '\n' member).1 rfl
  have kept := fun s member => inLine s (triples s member)
  refine ⟨count_write kept, segments_write kept, return_not_mem_write triples, ?_⟩
  intro others triples' same
  exact write_inj Statement.Triple inLine (fun s t triple triple' => triple.eq_of_render triple')
    triples' triples (congrArg String.toList same)

-- A literal that looks like its own end and another line, and the statements it looks like.
def spelledOut (parts : List String) : List Statement :=
  parts.map fun part => ⟨.iri ⟨"u:a"⟩, .blank ⟨"b."⟩, .literal (.plain part)⟩

theorem spelledOut_triples (parts : List String) : ∀ s ∈ spelledOut parts, s.Triple := by
  intro s member
  obtain ⟨part, -, rfl⟩ := List.mem_map.mp member
  have named : "b.".toList.all Token.isNameChar = true := by decide +kernel
  exact ⟨.iri (by decide +kernel), .blank (by decide) (List.all_eq_true.mp named),
    .literal (.plain part)⟩

theorem ntriples_unambiguous_spelledOut :
    (∀ s ∈ spelledOut ["c\" .\n<u:a> _:b. \"d"], s.Triple) ∧
      (ntriples.write (spelledOut ["c\" .\n<u:a> _:b. \"d"])).toList.count '\n' = 1 ∧
      ntriples.write (spelledOut ["c", "d"]) ≠
        ntriples.write (spelledOut ["c\" .\n<u:a> _:b. \"d"]) := by
  have triples := spelledOut_triples ["c\" .\n<u:a> _:b. \"d"]
  obtain ⟨ends, -, -, only⟩ := ntriples_unambiguous triples
  refine ⟨triples, ends, fun same => ?_⟩
  have lists := only (spelledOut ["c", "d"]) (spelledOut_triples ["c", "d"]) same
  have lengths : 2 = 1 := congrArg List.length lists
  omega

end Format

end Stottr

import Stottr.Proofs.Document.Absolute
import Stottr.Proofs.Document.Unplaced
import Stottr.Proofs.Token.Plain

namespace Stottr

open Token

theorem Iri.split_join (iri : Iri) : iri.split.1 ++ iri.split.2 = iri.text := by
  refine String.toList_inj.mp ?_
  simp only [split, String.toList_append, String.toList_ofList]
  unfold splitChars
  dsimp only
  generalize run : List.takeWhile (fun c => c ≠ '#' && c ≠ '/') iri.text.toList.reverse = name
  split
  · exact List.append_nil _
  · rename_i front _
    have parts : name ++ iri.text.toList.reverse.drop name.length = iri.text.toList.reverse := by
      rw [← run]
      exact List.prefix_iff_eq_append.mp (List.takeWhile_prefix _)
    rw [← List.reverse_append, parts, List.reverse_reverse]

namespace ParamType

inductive Known : ParamType → Prop where
  | resource : Known .resource
  | iri : Known .iri
  | literal : Known .literal
  | datatype {name : Iri} (known : ofIri? name = some (.datatype name)) : Known (.datatype name)
  | list {element : ParamType} (inside : Known element) : Known (.list element)
  | nonEmptyList {element : ParamType} (inside : Known element) : Known (.nonEmptyList element)

def spaceLabel (space : String) : String := if space = Vocabulary.xsd then "xsd" else "rdf"

def tokens : ParamType → List TokenKind
  | .resource => [.iri (.prefixed "rdfs" "Resource")]
  | .iri => [.iri (.prefixed "ottr" "IRI")]
  | .literal => [.iri (.prefixed "rdfs" "Literal")]
  | .datatype name => [.iri (.prefixed (spaceLabel name.split.1) name.split.2)]
  | .list element => .listType :: (element.tokens ++ [.closeAngle])
  | .nonEmptyList element => .nonEmptyListType :: (element.tokens ++ [.closeAngle])

theorem ofIri?_cases {name : Iri} {type : ParamType} (known : ofIri? name = some type) :
    type = .resource ∨ type = .literal ∨ type = .iri ∨ type = .datatype name ∧
      (name.split.1 = Vocabulary.xsd ∨ name.split.1 = Vocabulary.rdf) := by
  unfold ofIri? at known
  split at known
  rename_i space part parts
  rw [parts]
  split at known
  · cases known
    exact .inl rfl
  split at known
  · cases known
    exact .inr (.inl rfl)
  split at known
  · cases known
    exact .inr (.inr (.inl rfl))
  split at known
  · rename_i isXsd
    cases known
    exact .inr (.inr (.inr ⟨rfl, .inl isXsd.1⟩))
  split at known
  · rename_i isRdf
    cases known
    exact .inr (.inr (.inr ⟨rfl, .inr isRdf.1⟩))
  · cases known

theorem known_of_ofIri? {name : Iri} {type : ParamType} (known : ofIri? name = some type) :
    type.Known := by
  rcases ofIri?_cases known with rfl | rfl | rfl | ⟨rfl, -⟩
  · exact .resource
  · exact .literal
  · exact .iri
  · exact .datatype known

theorem datatype_printed {name : Iri} (known : ofIri? name = some (.datatype name)) :
    renderDatatype name = spaceLabel name.split.1 ++ ":" ++ name.split.2 ∧
      Namespaces.standard.resolve (spaceLabel name.split.1) name.split.2 = some name := by
  have spaces : Namespaces.standard.space? "xsd" = some Vocabulary.xsd ∧
      Namespaces.standard.space? "rdf" = some Vocabulary.rdf := by decide +kernel
  have whole : name = .inNamespace name.split.1 name.split.2 := by
    rw [Iri.inNamespace, Iri.split_join]
  have apart : Vocabulary.rdf ≠ Vocabulary.xsd := by decide
  rcases ofIri?_cases known with same | same | same | ⟨-, isXsd | isRdf⟩
  · cases same
  · cases same
  · cases same
  · rw [spaceLabel, if_pos isXsd, renderDatatype, Namespaces.resolve, spaces.1]
    refine ⟨by simp [isXsd], ?_⟩
    rw [← isXsd, Option.map_some, ← whole]
  · have notXsd : name.split.1 ≠ Vocabulary.xsd := by rw [isRdf]; exact apart
    rw [spaceLabel, if_neg notXsd, renderDatatype, Namespaces.resolve, spaces.2]
    refine ⟨by simp [isRdf, apart], ?_⟩
    rw [← isRdf, Option.map_some, ← whole]

end ParamType

namespace Parameter

def tokens (p : Parameter) : List TokenKind :=
  (if p.nonBlank then [.bang] else []) ++ (if p.optional then [.question] else []) ++
  (if p.type = .resource then [] else p.type.tokens) ++ .variable p.name ::
  (match p.default with
    | some value => .equals :: value.tokens
    | none => [])

structure Writable (p : Parameter) : Prop where
  name : PlainName p.name
  type : p.type.Known
  datatypes : ∀ name ∈ p.type.iris, PlainName name.split.2
  default : ∀ value ∈ p.default, value.Writable

end Parameter

namespace Token

variable {behind : List Char} {kinds : List TokenKind}

theorem Apart.stops (apart : Apart behind) : ∀ c ∈ behind.head?, isNameChar c = false := by
  intro c first
  rcases apart c first with rfl | rfl | rfl <;> rfl

-- The signs of a signature that are tokens by themselves, whatever stands behind them.
def signs : List (Char × TokenKind) :=
  [('[', .openBracket), (']', .closeBracket), ('\x7b', .openBrace), ('\x7d', .closeBrace),
    ('>', .closeAngle), ('!', .bang), ('=', .equals)]

theorem readsAs_sign {c : Char} {kind : TokenKind} (sign : (c, kind) ∈ signs)
    (later : ReadsAs behind kinds) : ReadsAs (c :: behind) (kind :: kinds) := by
  simp only [signs, List.mem_cons, List.not_mem_nil, or_false, Prod.mk.injEq] at sign
  rcases sign with ⟨rfl, rfl⟩ | ⟨rfl, rfl⟩ | ⟨rfl, rfl⟩ | ⟨rfl, rfl⟩ | ⟨rfl, rfl⟩ | ⟨rfl, rfl⟩ |
    ⟨rfl, rfl⟩
  all_goals exact @readsAs_token behind _ _ [] _ rfl (by decide) rfl later

theorem readsAs_doubleColon (later : ReadsAs behind kinds) :
    ReadsAs (':' :: ':' :: behind) (.doubleColon :: kinds) :=
  @readsAs_token behind _ ':' [':'] _ rfl (by decide) rfl later

theorem readsAs_standard {label part : String} (standard : label ∈ ["ottr", "rdf", "rdfs", "xsd"])
    (named : PlainName part) (stops : ∀ c ∈ behind.head?, isNameChar c = false)
    (later : ReadsAs behind kinds) :
    ReadsAs ((label ++ ":" ++ part).toList ++ behind) (.iri (.prefixed label part) :: kinds) := by
  simp only [List.mem_cons, List.not_mem_nil, or_false] at standard
  rcases standard with rfl | rfl | rfl | rfl
  all_goals exact readsAs_prefixed (by decide) (by rintro c ⟨⟩; rfl) named stops later

theorem readsAs_wrapped {type element : ParamType} {name : String} {kind : TokenKind}
    (opens : name = "List" ∧ kind = .listType ∧ type = .list element ∨
      name = "NEList" ∧ kind = .nonEmptyListType ∧ type = .nonEmptyList element)
    (inside : ReadsAs (element.render.toList ++ '>' :: behind)
      (element.tokens ++ .closeAngle :: kinds)) :
    ReadsAs (type.render.toList ++ behind) (type.tokens ++ kinds) := by
  have spelled : type.render.toList ++ behind =
      (name ++ "<").toList ++ (element.render.toList ++ '>' :: behind) := by
    rcases opens with ⟨rfl, -, rfl⟩ | ⟨rfl, -, rfl⟩ <;> simp [ParamType.render]
  have row : type.tokens ++ kinds = kind :: (element.tokens ++ .closeAngle :: kinds) := by
    rcases opens with ⟨-, rfl, rfl⟩ | ⟨-, rfl, rfl⟩ <;> simp [ParamType.tokens]
  rw [spelled, row]
  exact readsAs_list (opens.imp (fun list => ⟨list.1, list.2.1⟩) fun list => ⟨list.1, list.2.1⟩)
    inside

theorem readsAs_type {type : ParamType} (known : type.Known)
    (datatypes : ∀ name ∈ type.iris, PlainName name.split.2)
    (stops : ∀ c ∈ behind.head?, isNameChar c = false) (later : ReadsAs behind kinds) :
    ReadsAs (type.render.toList ++ behind) (type.tokens ++ kinds) := by
  induction known generalizing behind kinds with
  | resource =>
    have spelled : ParamType.resource.render = "rdfs" ++ ":" ++ "Resource" := by decide
    rw [spelled]
    exact readsAs_standard (by simp) (by decide) stops later
  | iri =>
    have spelled : ParamType.iri.render = "ottr" ++ ":" ++ "IRI" := by decide
    rw [spelled]
    exact readsAs_standard (by simp) (by decide) stops later
  | literal =>
    have spelled : ParamType.literal.render = "rdfs" ++ ":" ++ "Literal" := by decide
    rw [spelled]
    exact readsAs_standard (by simp) (by decide) stops later
  | @datatype name known =>
    rw [ParamType.render, (ParamType.datatype_printed known).1]
    refine readsAs_standard ?_ (datatypes name List.mem_cons_self) stops later
    unfold ParamType.spaceLabel
    split <;> simp
  | list _ ih =>
    exact readsAs_wrapped (.inl ⟨rfl, rfl, rfl⟩)
      (ih datatypes (by rintro c ⟨⟩; rfl) (readsAs_sign (by decide) later))
  | nonEmptyList _ ih =>
    exact readsAs_wrapped (.inr ⟨rfl, rfl, rfl⟩)
      (ih datatypes (by rintro c ⟨⟩; rfl) (readsAs_sign (by decide) later))

theorem readsAs_if {flag : Prop} [Decidable flag] {one other : String}
    {oneKinds otherKinds : List TokenKind}
    (holds : flag → ReadsAs (one.toList ++ behind) (oneKinds ++ kinds))
    (fails : ¬flag → ReadsAs (other.toList ++ behind) (otherKinds ++ kinds)) :
    ReadsAs ((if flag then one else other).toList ++ behind)
      ((if flag then oneKinds else otherKinds) ++ kinds) := by
  split
  · exact holds ‹_›
  · exact fails ‹_›

-- The parts of a parameter are read from the last to the first, each in front of the others.
theorem readsAs_unassigned {p : Parameter} (writable : p.Writable)
    (stops : ∀ c ∈ behind.head?, isNameChar c = false) (later : ReadsAs behind kinds) :
    ReadsAs (({ p with default := none } : Parameter).render.toList ++ behind)
      (({ p with default := none } : Parameter).tokens ++ kinds) := by
  have named := readsAs_variable writable.name stops later
  have typed := @readsAs_if _ _ (p.type = .resource) _ "" (p.type.render ++ " ") [] p.type.tokens
    (fun _ => named) fun _ => by
      rw [String.toList_append, List.append_assoc]
      exact readsAs_type writable.type writable.datatypes (by rintro c ⟨⟩; rfl) named.space
  have optional := @readsAs_if _ _ (p.optional = true) _ "? " "" [.question] []
    (fun _ => readsAs_question typed) fun _ => typed
  have marked := @readsAs_if _ _ (p.nonBlank = true) _ "! " "" [.bang] []
    (fun _ => readsAs_sign (by decide) optional.space) fun _ => optional
  simpa [Parameter.render, Parameter.tokens] using marked

theorem legible_parameter {p : Parameter} (writable : p.Writable) : Legible p.render p.tokens := by
  intro behind kinds apart later
  cases given : p.default with
  | none =>
    have same : p = { p with default := none } := by rw [← given]
    rw [same]
    exact readsAs_unassigned writable apart.stops later
  | some value =>
    have spelled : p.render.toList ++ behind =
        ({ p with default := none } : Parameter).render.toList ++
          ' ' :: '=' :: ' ' :: (value.render.toList ++ behind) := by
      simp [Parameter.render, given]
    have row : p.tokens ++ kinds = ({ p with default := none } : Parameter).tokens ++
        .equals :: (value.tokens ++ kinds) := by
      simp [Parameter.tokens, given]
    rw [spelled, row]
    have assigned := legible_of_writable (writable.default value given) behind kinds apart later
    exact readsAs_unassigned writable (by rintro c ⟨⟩; rfl)
      (readsAs_sign (by decide) assigned.space).space

end Token

namespace Template

def signatureTokens (t : Template) : List TokenKind :=
  .iri (.full t.iri.text) :: .openBracket :: (commas (t.parameters.map Parameter.tokens) ++
    [.closeBracket, .doubleColon, .openBrace, .closeBrace, .dot])

structure Signable (t : Template) : Prop where
  absolute : t.iri.Absolute
  parameters : ∀ p ∈ t.parameters, p.Writable
  indices : t.parameters.map Parameter.index = List.range t.parameters.length
  names : (t.parameters.map Parameter.name).Nodup

end Template

namespace Token

theorem readsAs_signature {t : Template} (signable : t.Signable) :
    ReadsAs (t.signature ++ " :: \x7b \x7d .").toList t.signatureTokens := by
  have back : ReadsAs (" ] :: \x7b \x7d .".toList)
      [.closeBracket, .doubleColon, .openBrace, .closeBrace, .dot] := by
    have ends : ReadsAs (" \x7d .".toList) [.closeBrace, .dot] :=
      (readsAs_sign (by decide) (readsAs_dot reads_nil).space).space
    have body : ReadsAs (" \x7b \x7d .".toList) [.openBrace, .closeBrace, .dot] :=
      (readsAs_sign (by decide) ends).space
    exact (readsAs_sign (by decide) (readsAs_doubleColon body).space).space
  have closed : Apart (" ] :: \x7b \x7d .".toList) := by
    rintro c ⟨⟩
    exact .inr (.inr rfl)
  have row := readsAs_commas (fun p member => legible_parameter (signable.parameters p member))
    closed back
  have admitted := (Iri.admits_of_parse signable.absolute).2
  cases none : t.parameters with
  | nil =>
    have spelled : (t.signature ++ " :: \x7b \x7d .").toList = t.iri.render.toList ++
        '[' :: " ] :: \x7b \x7d .".toList := by
      simp [Template.signature, none]
    rw [spelled, Template.signatureTokens, none]
    exact readsAs_iri admitted (readsAs_sign (by decide) back)
  | cons p others =>
    have spelled : (t.signature ++ " :: \x7b \x7d .").toList = t.iri.render.toList ++
        '[' :: ' ' :: ((Text.join ", " (t.parameters.map Parameter.render)).toList ++
          " ] :: \x7b \x7d .".toList) := by
      simp [Template.signature, none]
    rw [spelled, Template.signatureTokens]
    exact readsAs_iri admitted (readsAs_sign (by decide) row.space)

end Token

namespace Document

variable {ts : List Token}

theorem TypeRun.of_tokens {type : ParamType} (known : type.Known)
    (spelled : ts.map Token.kind = type.tokens) : TypeRun .standard ts type := by
  have named (label part : String) (iri : Iri) {type : ParamType} {ts : List Token}
      (bound : Namespaces.standard.resolve label part = some iri)
      (known : ParamType.ofIri? iri = some type)
      (spelled : ts.map Token.kind = [.iri (.prefixed label part)]) :
      TypeRun .standard ts type := by
    obtain ⟨t, rfl, written⟩ := List.map_eq_singleton_iff.mp spelled
    exact .named written (.prefixed bound) known
  induction known generalizing ts with
  | resource =>
    exact named "rdfs" "Resource" Vocabulary.resource (by decide +kernel) (by decide +kernel)
      spelled
  | iri =>
    exact named "ottr" "IRI" (.inNamespace Vocabulary.ottr "IRI") (by decide +kernel)
      (by decide +kernel) spelled
  | literal =>
    exact named "rdfs" "Literal" Vocabulary.anyLiteral (by decide +kernel) (by decide +kernel)
      spelled
  | @datatype name known =>
    exact named _ _ name (ParamType.datatype_printed known).2 known spelled
  | list _ ih =>
    obtain ⟨opening, rest, rfl, opens, spelled⟩ := List.map_eq_cons_iff.mp spelled
    obtain ⟨inner, last, rfl, inside, spelled⟩ := List.map_eq_append_iff.mp spelled
    obtain ⟨closing, rfl, closes⟩ := List.map_eq_singleton_iff.mp spelled
    exact .list opens closes (ih inside)
  | nonEmptyList _ ih =>
    obtain ⟨opening, rest, rfl, opens, spelled⟩ := List.map_eq_cons_iff.mp spelled
    obtain ⟨inner, last, rfl, inside, spelled⟩ := List.map_eq_append_iff.mp spelled
    obtain ⟨closing, rfl, closes⟩ := List.map_eq_singleton_iff.mp spelled
    exact .nonEmptyList opens closes (ih inside)

theorem ConstantRun.of_tokens {ns : Namespaces} {value : Term} (writable : value.Writable)
    (spelled : ts.map Token.kind = value.tokens) : ConstantRun ns ts value := by
  obtain ⟨one, taken, same, left⟩ := @constant_gives ⟨ns, .nowhere⟩ value writable ts []
    (by rwa [List.append_nil])
  obtain ⟨run, whole, constant⟩ := constant_run taken
  rw [List.map_eq_nil_iff.mp left, List.append_nil] at whole
  rw [same, ← whole] at constant
  exact constant

theorem MarksRun.of_tokens {nonBlank optional : Bool} (spelled : ts.map Token.kind =
      (if nonBlank then [.bang] else []) ++ if optional then [.question] else []) :
    MarksRun false false ts nonBlank optional := by
  have marked {front back : List Token}
      (bang : front.map Token.kind = if nonBlank then [.bang] else [])
      (later : MarksRun nonBlank false back nonBlank optional) :
      MarksRun false false (front ++ back) nonBlank optional := by
    cases nonBlank with
    | false =>
      rw [List.map_eq_nil_iff.mp bang]
      exact later
    | true =>
      obtain ⟨t, rfl, kind⟩ := List.map_eq_singleton_iff.mp bang
      exact .nonBlank kind later
  obtain ⟨front, back, rfl, bang, question⟩ := List.map_eq_append_iff.mp spelled
  refine marked bang ?_
  cases optional with
  | false =>
    rw [List.map_eq_nil_iff.mp question]
    exact .done
  | true =>
    obtain ⟨t, rfl, kind⟩ := List.map_eq_singleton_iff.mp question
    exact .optional kind .done

theorem ParameterRun.of_tokens {p : Parameter} (writable : p.Writable)
    (spelled : ts.map Token.kind = p.tokens) :
    ParameterRun .standard p.index ts { p with span := spanOf ts } := by
  obtain ⟨front, rest, rfl, opens, ends⟩ := List.map_eq_append_iff.mp spelled
  obtain ⟨marks, types, rfl, marked, typed⟩ := List.map_eq_append_iff.mp opens
  obtain ⟨t, back, rfl, named, given⟩ := List.map_eq_cons_iff.mp ends
  have typing : TypedRun .standard types p.type := by
    split at typed
    · rename_i untyped
      rw [List.map_eq_nil_iff.mp typed, untyped]
      exact .untyped
    · exact .typed (.of_tokens writable.type typed)
  have value : DefaultRun .standard back p.default := by
    split at given
    · rename_i value held
      obtain ⟨equals, us, rfl, assigned, given⟩ := List.map_eq_cons_iff.mp given
      rw [held]
      exact .given assigned (.of_tokens (writable.default value held) given)
    · rename_i none
      rw [List.map_eq_nil_iff.mp given, none]
      exact .none
  exact .parameter (.of_tokens marked) typing named value

-- The parameters that are still to come take the next indices, and names that are not taken yet.
theorem parameters_of_tokens {found ps : List Parameter} (writable : ∀ p ∈ ps, p.Writable)
    (indices : ps.map Parameter.index = List.range' found.length ps.length)
    (fresh : ∀ p ∈ ps, ∀ q ∈ found, q.name ≠ p.name) (names : (ps.map Parameter.name).Nodup)
    (spelled : ts.map Token.kind = commas (ps.map Parameter.tokens)) :
    ∃ all, Listed (NewParameterRun .standard) found ts all ∧
      all.map Parameter.unplaced = (found.reverse ++ ps).map Parameter.unplaced := by
  induction ps generalizing found ts with
  | nil =>
    rw [List.map_eq_nil_iff.mp spelled]
    exact ⟨_, .stop, by rw [List.append_nil]⟩
  | cons p ps ih =>
    obtain ⟨first, others⟩ := List.forall_mem_cons.mp writable
    obtain ⟨index, indices⟩ := List.cons.inj indices
    obtain ⟨free, fresh⟩ := List.forall_mem_cons.mp fresh
    obtain ⟨distinct, names⟩ := List.nodup_cons.mp names
    have one {us : List Token} (spelled : us.map Token.kind = p.tokens) :
        NewParameterRun .standard found us { p with span := spanOf us } :=
      ⟨index ▸ .of_tokens first spelled, free⟩
    cases ps with
    | nil =>
      refine ⟨_, .last (one spelled), ?_⟩
      simp [Parameter.unplaced]
    | cons next ps =>
      have row : ts.map Token.kind = p.tokens ++
          .comma :: commas ((next :: ps).map Parameter.tokens) := spelled
      obtain ⟨us, rest, rfl, front, back⟩ := List.map_eq_append_iff.mp row
      obtain ⟨comma, vs, rfl, separator, back⟩ := List.map_eq_cons_iff.mp back
      have apart : ∀ later ∈ next :: ps, ∀ q ∈ { p with span := spanOf us } :: found,
          q.name ≠ later.name := by
        intro later member
        refine List.forall_mem_cons.mpr ⟨?_, fresh later member⟩
        intro same
        exact distinct (same ▸ List.mem_map_of_mem member)
      obtain ⟨all, listed, same⟩ :=
        @ih vs ({ p with span := spanOf us } :: found) others indices apart names back
      refine ⟨all, .next (one front) separator listed, same.trans ?_⟩
      simp [Parameter.unplaced]

theorem TemplateRun.of_tokens {t : Template} (signable : t.Signable)
    (spelled : ts.map Token.kind = t.signatureTokens) : ∃ again, TemplateRun .standard ts again ∧
      again.iri = t.iri ∧
      again.parameters.map Parameter.unplaced = t.parameters.map Parameter.unplaced := by
  obtain ⟨name, rest, rfl, written, back⟩ := List.map_eq_cons_iff.mp spelled
  obtain ⟨opening, rest, rfl, opens, back⟩ := List.map_eq_cons_iff.mp back
  obtain ⟨signature, rest, rfl, signed, back⟩ := List.map_eq_append_iff.mp back
  obtain ⟨closing, rest, rfl, closes, back⟩ := List.map_eq_cons_iff.mp back
  obtain ⟨colons, rest, rfl, defined, back⟩ := List.map_eq_cons_iff.mp back
  obtain ⟨begins, rest, rfl, begun, back⟩ := List.map_eq_cons_iff.mp back
  obtain ⟨ends, rest, rfl, ended, back⟩ := List.map_eq_cons_iff.mp back
  obtain ⟨dot, rfl, stops⟩ := List.map_eq_singleton_iff.mp back
  obtain ⟨parameters, listed, same⟩ := @parameters_of_tokens signature [] t.parameters
    signable.parameters (signable.indices.trans (List.range_eq_range' ..)) nofun signable.names
    signed
  have run := TemplateRun.template (.name written (.full signable.absolute)) opens closes listed
    defined begun ended .stop stops
  have whole : name :: opening :: (signature ++ [closing, colons, begins, ends, dot]) =
      [name] ++ opening :: signature ++ [closing, colons, begins] ++ [ends, dot] := by simp
  rw [whole]
  exact ⟨_, run, rfl, same⟩

theorem templates_signature {t : Template} (signable : t.Signable) :
    ∃ again, templates .standard (t.signature ++ " :: \x7b \x7d .") = ⟨.ok [again], .standard⟩ ∧
      again.iri = t.iri ∧
      again.parameters.map Parameter.unplaced = t.parameters.map Parameter.unplaced := by
  obtain ⟨stream, scanned, spelled⟩ := exists_scan_iff.mpr (readsAs_signature signable .start)
  obtain ⟨again, run, iri, parameters⟩ := TemplateRun.of_tokens signable spelled
  refine ⟨again, ?_, iri, parameters⟩
  have derived : Declarations TemplateRun .standard (stream.tokens ++ []) [again] .standard :=
    .item run .done
  rw [List.append_nil] at derived
  exact template_grammar.read_iff.mpr ⟨stream, scanned, derived⟩

end Document

namespace Term

-- A term whose IRIs could be written in full, and whose blank nodes have plain labels.
structure Portable (value : Term) : Prop where
  absolute : ∀ iri ∈ value.iris, iri.Absolute
  labels : ∀ node, .blank node ∈ value.parts → PlainName node.label

theorem Portable.item {items : List Term} (portable : (Term.list items).Portable) {t : Term}
    (member : t ∈ items) : t.Portable := by
  constructor
  · intro iri inside
    refine portable.absolute iri ?_
    rw [iris, irisAll_eq_flatMap]
    exact List.mem_flatMap.mpr ⟨t, member, inside⟩
  · intro node inside
    have within := Document.mem_partsAll.mpr ⟨t, member, inside⟩
    exact portable.labels node (List.mem_cons_of_mem _ within)

end Term

namespace Template

-- What the text of a signature needs of the names in it. That of a datatype is the part behind its
-- namespace.
structure Portable (t : Template) : Prop where
  absolute : ∀ iri ∈ t.iri :: t.parameters.flatMap Parameter.iris, iri.Absolute
  names : ∀ p ∈ t.parameters, PlainName p.name
  datatypes : ∀ p ∈ t.parameters, ∀ name ∈ p.type.iris, PlainName name.split.2
  labels : ∀ p ∈ t.parameters, ∀ value ∈ p.default, ∀ node, .blank node ∈ value.parts →
    PlainName node.label

end Template

namespace Document

section Accepted

variable {ns : Namespaces} {ts : List Token}

theorem TypeRun.known {type : ParamType} (run : TypeRun ns ts type) : type.Known := by
  induction run with
  | named _ _ known => exact ParamType.known_of_ofIri? known
  | list _ _ _ ih => exact .list ih
  | nonEmptyList _ _ _ ih => exact .nonEmptyList ih

theorem LiteralRun.built {lexical : String} {tag : Option LiteralTag} {value : Literal}
    (run : LiteralRun ns lexical tag value) (absolute : value.datatype.Absolute) : value.Built := by
  cases run with
  | plain => exact .plain lexical
  | language valid => exact .tagged valid
  | datatype => exact .typed lexical absolute

theorem writable_of_word? {word : String} {value : Term} (meaning : word? word = some value) :
    value.Writable := by
  have boolean (held : Bool) : (Term.literal (.ofBoolean held)).Writable :=
    .literal (.typed _ (show Vocabulary.boolean.Absolute by decide))
  unfold word? at meaning
  split at meaning
  · cases meaning
    exact .none
  split at meaning
  · cases meaning
    exact boolean true
  split at meaning
  · cases meaning
    exact boolean false
  · cases meaning

theorem Atom.writable {kind : TokenKind} {value : Term}
    (meaning : Atom ns [] kind (.concrete value)) (portable : value.Portable) :
    value.Writable := by
  generalize same : Argument.concrete value = a at meaning
  cases meaning with
  | @iri _ named resolved =>
    cases same
    by_cases absent : named = Vocabulary.absent
    · rw [ofName, if_pos absent]
      exact .none
    · rw [ofName, if_neg absent] at portable ⊢
      exact .iri (portable.absolute named List.mem_cons_self) absent
  | blank label =>
    cases same
    obtain ⟨notEmpty, characters, ending⟩ := portable.labels ⟨label⟩ List.mem_cons_self
    exact .blank notEmpty characters ending
  | literal read =>
    cases same
    exact .literal (read.built (portable.absolute _ List.mem_cons_self))
  | integer digits =>
    cases same
    exact .literal (.typed digits (show Vocabulary.integer.Absolute by decide))
  | decimal digits =>
    cases same
    exact .literal (.typed digits (show Vocabulary.decimal.Absolute by decide))
  | word meaning =>
    cases same
    exact writable_of_word? meaning
  | «variable» declared => cases same

-- By induction on the run, since a list is read into arguments before it is found to be constant.
theorem ConstantRun.writable {value : Term} (run : ConstantRun ns ts value)
    (portable : value.Portable) : value.Writable := by
  refine TermRun.induction (P := fun _ a => ∀ value, a = .concrete value → value.Portable →
    value.Writable) ?_ ?_ run value rfl portable
  · rintro t _ meaning value rfl portable
    exact meaning.writable portable
  · intro opening closing ts items _ _ inside value same portable
    obtain ⟨values, rfl⟩ := exists_map_concrete
      (inside.forall_mem (fun _ _ _ one => concrete_of_termRun one.1) nofun)
    rw [ofList_concrete] at same
    cases same
    refine .list fun t member => ?_
    have each := inside.forall_mem (P := fun a => ∀ value, a = .concrete value → value.Portable →
      value.Writable) (fun _ _ _ one => one.2) nofun
    exact each _ (List.mem_map_of_mem member) t rfl (portable.item member)

theorem ParameterRun.known {index : Nat} {p : Parameter} (run : ParameterRun ns index ts p) :
    p.type.Known ∧ ∀ value ∈ p.default, value.Portable → value.Writable := by
  cases run with
  | parameter marked typed named given =>
    constructor
    · cases typed with
      | untyped => exact .resource
      | typed inside => exact inside.known
    · cases given with
      | none => nofun
      | given assigned constant =>
        rintro value ⟨⟩ portable
        exact constant.writable portable

theorem TemplateRun.signable {t : Template} (run : TemplateRun ns ts t) (portable : t.Portable) :
    t.Signable := by
  obtain ⟨-, indices, names, -⟩ := run.proper.1
  cases run with
  | @template _ _ _ _ _ _ _ _ _ iri parameters _ named opens closes signed =>
    have known := signed.forall_mem (fun _ _ _ one => one.1.known) nofun
    refine ⟨portable.absolute iri List.mem_cons_self, ?_, indices, names⟩
    intro p member
    obtain ⟨type, default⟩ := known p member
    refine ⟨portable.names p member, type, portable.datatypes p member, ?_⟩
    intro value given
    refine default value given ⟨?_, portable.labels p member value given⟩
    intro iri inside
    refine portable.absolute iri (List.mem_cons_of_mem _ (List.mem_flatMap.mpr ⟨p, member, ?_⟩))
    refine List.mem_append_right _ (List.mem_flatMap.mpr ⟨value, ?_, inside⟩)
    exact Option.mem_toList.mpr given

end Accepted

-- The signature of a template that was read from a text, with an empty body behind it, is read
-- under the standard prefixes as one template of the same name with the same parameters.
theorem signature_read_back {ns : Namespaces} {text : String} {items : List Template}
    {t : Template} (accepted : (templates ns text).outcome = .ok items) (member : t ∈ items)
    (portable : t.Portable) :
    ∃ again, templates .standard (t.signature ++ " :: \x7b \x7d .") = ⟨.ok [again], .standard⟩ ∧
      again.iri = t.iri ∧
      again.parameters.map Parameter.unplaced = t.parameters.map Parameter.unplaced := by
  obtain ⟨stream, scanned, run⟩ := templates_declarations accepted
  have signable := run.forall_mem (P := fun t => t.Portable → t.Signable)
    (fun _ _ _ one => one.signable) t member portable
  exact templates_signature signable

-- Both marks, a nested type whose datatype is written by another prefix, a default with everything
-- in it, and a type that is printed by another name.
def widelySigned : String :=
  "@prefix ex: <http://e/> . @prefix x: <http://www.w3.org/2001/XMLSchema#> . " ++
    "ex:A[ ?! List<NEList<x:integer>> ?a.b = (_:b1, none, \"x\\n\"@EN, true, ex:c), " ++
      "owl:Class ?y ] :: \x7b ex:B(?y) \x7d ."

theorem signature_read_back_widely :
    ∃ t, (templates .standard widelySigned).outcome = .ok [t] ∧
      t.signature = "<http://e/A>[ ! ? List<NEList<xsd:integer>> ?a.b = (_:b1, " ++
        "<http://ns.ottr.xyz/0.4/none>, \"x\\n\"@en, " ++
        "\"true\"^^<http://www.w3.org/2001/XMLSchema#boolean>, <http://e/c>), ottr:IRI ?y ]" ∧
      ∃ again, templates .standard (t.signature ++ " :: \x7b \x7d .") = ⟨.ok [again], .standard⟩ ∧
        again.iri = t.iri ∧
        again.parameters.map Parameter.unplaced = t.parameters.map Parameter.unplaced := by
  have signed : (templates .standard widelySigned).outcome.toOption.map
      (List.map fun t => (t.iri, t.parameters)) = some [(⟨"http://e/A"⟩,
        [⟨"a.b", 0, .list (.nonEmptyList (.datatype Vocabulary.integer)), true, true,
          some (.list [.blank ⟨"b1"⟩, .none, .literal ⟨"x\n", Vocabulary.langString, some "en"⟩,
            .literal (.ofBoolean true), .iri ⟨"http://e/c"⟩]), ⟨81, 149, 1, 82⟩⟩,
        ⟨"y", 1, .iri, false, false, none, ⟨151, 163, 1, 152⟩⟩])] := by decide +kernel
  obtain ⟨items, accepted, same⟩ := Option.map_eq_some_iff.mp signed
  obtain ⟨t, rfl, parts⟩ := List.map_eq_singleton_iff.mp same
  obtain ⟨iri, parameters⟩ := Prod.mk.inj parts
  have portable : t.Portable := by
    constructor
    · rw [iri, parameters]
      decide +kernel
    · rw [parameters]
      decide +kernel
    · rw [parameters]
      decide +kernel
    · rw [parameters]
      intro p member value given node inside
      rcases List.mem_pair.mp member with rfl | rfl
      · cases given
        have label : node = ⟨"b1"⟩ := by simpa [Term.parts, Term.partsAll] using inside
        rw [label]
        decide +kernel
      · cases given
  refine ⟨t, ok_of_toOption accepted, ?_, signature_read_back (ok_of_toOption accepted)
    List.mem_cons_self portable⟩
  rw [Template.signature, iri, parameters]
  decide +kernel

end Document

end Stottr

import Stottr.Proofs.Document.Printed

namespace Stottr.Document

variable {α : Type}

def lastSpan (ts : List Token) : Text.Span := (ts.getLast?.map Token.span).getD .nowhere

def spanOf (ts : List Token) : Text.Span :=
  ((ts.head?.map Token.span).getD .nowhere).through (lastSpan ts)

inductive Resolves (ns : Namespaces) : WrittenIri → Iri → Prop where
  | full {text : String} {iri : Iri} (valid : Iri.parse text = .ok iri) :
    Resolves ns (.full text) iri
  | prefixed {label name : String} {iri : Iri} (bound : ns.resolve label name = some iri) :
    Resolves ns (.prefixed label name) iri

inductive LiteralRun (ns : Namespaces) (lexical : String) :
    Option LiteralTag → Literal → Prop where
  | plain : LiteralRun ns lexical none (.plain lexical)
  | language {tag : String} {value : Literal} (valid : Literal.tagged lexical tag = .ok value) :
    LiteralRun ns lexical (some (.language tag)) value
  | datatype {name : WrittenIri} {iri : Iri} (resolved : Resolves ns name iri) :
    LiteralRun ns lexical (some (.datatype name)) (.typed lexical iri)

-- The terms of a single token. Where there are no parameters in scope these are constants.
inductive Atom (ns : Namespaces) (scope : List Parameter) : TokenKind → Argument → Prop where
  | iri {name : WrittenIri} {iri : Iri} (resolved : Resolves ns name iri) :
    Atom ns scope (.iri name) (.concrete (ofName iri))
  | blank (label : String) : Atom ns scope (.blankNode label) (.concrete (.blank ⟨label⟩))
  | literal {lexical : String} {tag : Option LiteralTag} {value : Literal}
    (read : LiteralRun ns lexical tag value) :
    Atom ns scope (.literal lexical tag) (.concrete (.literal value))
  | integer (digits : String) :
    Atom ns scope (.integer digits) (.concrete (.literal (.typed digits Vocabulary.integer)))
  | decimal (digits : String) :
    Atom ns scope (.decimal digits) (.concrete (.literal (.typed digits Vocabulary.decimal)))
  | word {word : String} {value : Term} (meaning : word? word = some value) :
    Atom ns scope (.word word) (.concrete value)
  | variable {name : String} {p : Parameter}
    (declared : scope.find? (fun p => p.name = name) = some p) :
    Atom ns scope (.variable name) (.variable p.index)

-- Items with commas between them, one of which may follow the last. An item is spelled in view of
-- those before it, the latest of them first.
inductive Listed (Item : List α → List Token → α → Prop) :
    List α → List Token → List α → Prop where
  | stop {found : List α} : Listed Item found [] found.reverse
  | last {found : List α} {ts : List Token} {a : α} (one : Item found ts a) :
    Listed Item found ts (a :: found).reverse
  | next {found all : List α} {ts us : List Token} {a : α} {comma : Token}
    (one : Item found ts a) (separator : comma.kind = .comma)
    (others : Listed Item (a :: found) us all) : Listed Item found (ts ++ comma :: us) all

inductive TermRun (ns : Namespaces) (scope : List Parameter) :
    List Token → Argument → Prop where
  | atom {t : Token} {a : Argument} (meaning : Atom ns scope t.kind a) : TermRun ns scope [t] a
  | list {opening closing : Token} {ts : List Token} {items : List Argument}
    (opens : opening.kind = .openParen) (closes : closing.kind = .closeParen)
    (inside : Listed (fun _ us a => TermRun ns scope us a) [] ts items) :
    TermRun ns scope (opening :: ts ++ [closing]) (.ofList items)

inductive ArgumentRun (ns : Namespaces) (scope : List Parameter) :
    List Token → Argument → Prop where
  | plain {ts : List Token} {a : Argument} (term : TermRun ns scope ts a) :
    ArgumentRun ns scope ts a
  | expand {mark : Token} {ts : List Token} {a : Argument} (marked : mark.kind = .plusPlus)
    (term : TermRun ns scope ts a) : ArgumentRun ns scope (mark :: ts) (.expand a)

def ConstantRun (ns : Namespaces) (ts : List Token) (value : Term) : Prop :=
  TermRun ns [] ts (.concrete value)

inductive TypeRun (ns : Namespaces) : List Token → ParamType → Prop where
  | named {t : Token} {name : WrittenIri} {iri : Iri} {type : ParamType}
    (written : t.kind = .iri name) (resolved : Resolves ns name iri)
    (known : ParamType.ofIri? iri = some type) : TypeRun ns [t] type
  | list {opening closing : Token} {ts : List Token} {element : ParamType}
    (opens : opening.kind = .listType) (closes : closing.kind = .closeAngle)
    (inside : TypeRun ns ts element) : TypeRun ns (opening :: ts ++ [closing]) (.list element)
  | nonEmptyList {opening closing : Token} {ts : List Token} {element : ParamType}
    (opens : opening.kind = .nonEmptyListType) (closes : closing.kind = .closeAngle)
    (inside : TypeRun ns ts element) :
    TypeRun ns (opening :: ts ++ [closing]) (.nonEmptyList element)

-- The two marks in any order, neither of them twice: which have been seen, and which are then.
inductive MarksRun : Bool → Bool → List Token → Bool → Bool → Prop where
  | done {nonBlank optional : Bool} : MarksRun nonBlank optional [] nonBlank optional
  | nonBlank {optional marked omittable : Bool} {t : Token} {ts : List Token}
    (bang : t.kind = .bang) (others : MarksRun true optional ts marked omittable) :
    MarksRun false optional (t :: ts) marked omittable
  | optional {nonBlank marked omittable : Bool} {t : Token} {ts : List Token}
    (question : t.kind = .question) (others : MarksRun nonBlank true ts marked omittable) :
    MarksRun nonBlank false (t :: ts) marked omittable

inductive TypedRun (ns : Namespaces) : List Token → ParamType → Prop where
  | untyped : TypedRun ns [] .resource
  | typed {ts : List Token} {type : ParamType} (given : TypeRun ns ts type) : TypedRun ns ts type

inductive DefaultRun (ns : Namespaces) : List Token → Option Term → Prop where
  | none : DefaultRun ns [] none
  | given {equals : Token} {ts : List Token} {value : Term} (assigned : equals.kind = .equals)
    (constant : ConstantRun ns ts value) : DefaultRun ns (equals :: ts) (some value)

inductive ParameterRun (ns : Namespaces) (index : Nat) : List Token → Parameter → Prop where
  | parameter {front types back : List Token} {t : Token} {name : String} {type : ParamType}
    {nonBlank optional : Bool} {default : Option Term}
    (marked : MarksRun false false front nonBlank optional) (typed : TypedRun ns types type)
    (named : t.kind = .variable name)
    (value : DefaultRun ns back default) :
    ParameterRun ns index (front ++ types ++ t :: back)
      ⟨name, index, type, nonBlank, optional, default, spanOf (front ++ types ++ t :: back)⟩

def NewParameterRun (ns : Namespaces) (found : List Parameter) (ts : List Token) (p : Parameter) :
    Prop :=
  ParameterRun ns found.length ts p ∧ ∀ q ∈ found, q.name ≠ p.name

inductive ModeRun : List Token → Option ExpansionMode → Prop where
  | none : ModeRun [] none
  | mode {t bar : Token} {word : String} {mode : ExpansionMode} (written : t.kind = .word word)
    (piped : bar.kind = .pipe) (known : ExpansionMode.ofKeyword? word = some mode) :
    ModeRun [t, bar] (some mode)

inductive NameRun (ns : Namespaces) : List Token → Iri → Prop where
  | name {t : Token} {name : WrittenIri} {iri : Iri} (written : t.kind = .iri name)
    (resolved : Resolves ns name iri) : NameRun ns [t] iri

inductive CallRun (ns : Namespaces) (scope : List Parameter) : List Token → Call → Prop where
  | call {front names ts : List Token} {opening closing : Token} {mode : Option ExpansionMode}
    {iri : Iri} {arguments : List Argument} (moded : ModeRun front mode)
    (named : NameRun ns names iri) (opens : opening.kind = .openParen)
    (closes : closing.kind = .closeParen)
    (given : Listed (fun _ us a => ArgumentRun ns scope us a) [] ts arguments)
    (agree : mode.isSome = arguments.any Argument.isExpand) :
    CallRun ns scope (front ++ names ++ opening :: ts ++ [closing])
      ⟨iri, arguments, mode, spanOf (front ++ names ++ opening :: ts ++ [closing])⟩

inductive TemplateRun (ns : Namespaces) : List Token → Template → Prop where
  | template {names signature body : List Token} {opening closing colons begins ends dot : Token}
    {iri : Iri} {parameters : List Parameter} {calls : List Call} (named : NameRun ns names iri)
    (opens : opening.kind = .openBracket) (closes : closing.kind = .closeBracket)
    (signed : Listed (NewParameterRun ns) [] signature parameters)
    (defined : colons.kind = .doubleColon)
    (begun : begins.kind = .openBrace) (ended : ends.kind = .closeBrace)
    (made : Listed (fun _ us inner => CallRun ns parameters us inner) [] body calls)
    (stops : dot.kind = .dot) :
    TemplateRun ns (names ++ opening :: signature ++ closing :: colons :: begins :: body ++
      [ends, dot]) ⟨iri, parameters, .calls calls, spanOf (names ++ opening :: signature ++
        closing :: colons :: begins :: body ++ [ends, dot])⟩

inductive InstanceRun (ns : Namespaces) : List Token → Instance → Prop where
  | ground {names ts : List Token} {opening closing dot : Token} {iri : Iri}
    {arguments : List Term} (named : NameRun ns names iri) (opens : opening.kind = .openParen)
    (closes : closing.kind = .closeParen)
    (given : Listed (fun _ us value => ConstantRun ns us value) [] ts arguments)
    (stops : dot.kind = .dot) :
    InstanceRun ns (names ++ opening :: ts ++ [closing, dot])
      ⟨iri, arguments, spanOf (names ++ opening :: ts ++ [closing, dot])⟩

inductive BindingRun : List Token → Binding → Prop where
  | binding {keyword name space dot : Token} {label text : String}
    (begins : keyword.kind = .prefixKeyword) (named : name.kind = .iri (.prefixed label ""))
    (spaced : space.kind = .iri (.full text)) (stops : dot.kind = .dot) :
    BindingRun [keyword, name, space, dot] ⟨label, text⟩

inductive DeclarationRun (Item : Namespaces → List Token → α → Prop) (ns : Namespaces) :
    List Token → Declared α → Prop where
  | binding {front : List Token} {b : Binding} (bound : BindingRun front b) :
    DeclarationRun Item ns front (.binding b)
  | item {front : List Token} {a : α} (one : Item ns front a) :
    DeclarationRun Item ns front (.item a)

-- Declarations one after the other. What a prefix is bound to holds in those that follow.
inductive Declarations (Item : Namespaces → List Token → α → Prop) :
    Namespaces → List Token → List α → Namespaces → Prop where
  | done {ns : Namespaces} : Declarations Item ns [] [] ns
  | binding {ns after : Namespaces} {front rest : List Token} {b : Binding} {items : List α}
    (bound : BindingRun front b)
    (others : Declarations Item (ns.bind b.label b.space) rest items after) :
    Declarations Item ns (front ++ rest) items after
  | item {ns after : Namespaces} {front rest : List Token} {a : α} {items : List α}
    (one : Item ns front a) (others : Declarations Item ns rest items after) :
    Declarations Item ns (front ++ rest) (a :: items) after

namespace Listed

variable {Item : List α → List Token → α → Prop} {found all : List α} {ts : List Token}

theorem run {P : List Token → Prop} (listed : Listed Item found ts all) (empty : P [])
    (each : ∀ found us a, Item found us a → P us)
    (joined : ∀ us vs comma, comma.kind = .comma → P us → P vs → P (us ++ comma :: vs)) :
    P ts := by
  induction listed with
  | stop => exact empty
  | last one => exact each _ _ _ one
  | next one separator _ ih => exact joined _ _ _ separator (each _ _ _ one) ih

theorem forall_mem {P : α → Prop} (listed : Listed Item found ts all)
    (each : ∀ found us a, Item found us a → P a) (earlier : ∀ a ∈ found, P a) :
    ∀ a ∈ all, P a := by
  induction listed with
  | stop => exact fun a member => earlier a (List.mem_reverse.mp member)
  | last one =>
    intro a member
    rcases List.mem_cons.mp (List.mem_reverse.mp member) with rfl | old
    · exact each _ _ _ one
    · exact earlier a old
  | next one _ _ ih =>
    refine ih ?_
    intro a member
    rcases List.mem_cons.mp member with rfl | old
    · exact each _ _ _ one
    · exact earlier a old

end Listed

theorem Declarations.forall_mem {Item : Namespaces → List Token → α → Prop} {P : α → Prop}
    {ns after : Namespaces} {ts : List Token} {items : List α}
    (run : Declarations Item ns ts items after) (each : ∀ ns us a, Item ns us a → P a) :
    ∀ a ∈ items, P a := by
  induction run with
  | done => exact List.forall_mem_nil _
  | binding _ _ ih => exact ih
  | item one _ ih => exact List.forall_mem_cons.mpr ⟨each _ _ _ one, ih⟩

-- Terms are spelled from the inside out.
theorem TermRun.induction {ns : Namespaces} {scope : List Parameter}
    {P : List Token → Argument → Prop} (atom : ∀ t a, Atom ns scope t.kind a → P [t] a)
    (list : ∀ (opening closing : Token) ts items, opening.kind = .openParen →
      closing.kind = .closeParen →
      Listed (fun _ us a => TermRun ns scope us a ∧ P us a) [] ts items →
      P (opening :: ts ++ [closing]) (.ofList items))
    {ts : List Token} {a : Argument} (run : TermRun ns scope ts a) : P ts a := by
  refine @TermRun.rec ns scope (fun ts a _ => P ts a)
    (fun found ts all _ => Listed (fun _ us a => TermRun ns scope us a ∧ P us a) found ts all)
    ?_ ?_ ?_ ?_ ?_ ts a run
  · intro t a meaning
    exact atom t a meaning
  · intro opening closing ts items opens closes _ inside
    exact list opening closing ts items opens closes inside
  · exact .stop
  · intro found ts a one held
    exact .last ⟨one, held⟩
  · intro found all ts us a comma one separator _ held others
    exact .next ⟨one, held⟩ separator others

theorem exists_map_concrete {items : List Argument}
    (constant : ∀ a ∈ items, ∃ value, a = .concrete value) :
    ∃ values : List Term, items = values.map .concrete := by
  induction items with
  | nil => exact ⟨[], rfl⟩
  | cons a items ih =>
    obtain ⟨value, rfl⟩ := constant a List.mem_cons_self
    obtain ⟨values, rfl⟩ := ih fun a member => constant a (List.mem_cons_of_mem _ member)
    exact ⟨value :: values, rfl⟩

theorem concrete_of_termRun {ns : Namespaces} {ts : List Token} {a : Argument}
    (run : TermRun ns [] ts a) : ∃ value, a = .concrete value := by
  refine TermRun.induction (P := fun _ a => ∃ value, a = .concrete value) ?_ ?_ run
  · intro t a meaning
    generalize t.kind = kind at meaning
    cases meaning with
    | iri | blank | literal | integer | decimal | word => exact ⟨_, rfl⟩
    | «variable» declared => cases declared
  · intro opening closing ts items _ _ inside
    have each := inside.forall_mem (fun _ _ _ one => one.2) nofun
    obtain ⟨values, rfl⟩ := exists_map_concrete each
    exact ⟨.list values, ofList_concrete values⟩

end Stottr.Document

import Stottr.Proofs.Document.Proper
import Stottr.Proofs.Token.Absolute

namespace Stottr

namespace Term

mutual

-- Every IRI in a term, the datatypes of literals among them.
def iris : Term → List Iri
  | .iri name => [name]
  | .literal value => [value.datatype]
  | .list items => irisAll items
  | .blank _ => []
  | .none => []

def irisAll : List Term → List Iri
  | [] => []
  | t :: ts => t.iris ++ irisAll ts

end

theorem irisAll_eq_flatMap (ts : List Term) : irisAll ts = ts.flatMap iris := by
  induction ts with
  | nil => rfl
  | cons t ts ih => simp [irisAll, ih]

end Term

namespace Argument

mutual

def iris : Argument → List Iri
  | .concrete value => value.iris
  | .list items => irisAll items
  | .expand inner => inner.iris
  | .variable _ => []

def irisAll : List Argument → List Iri
  | [] => []
  | a :: as => a.iris ++ irisAll as

end

theorem irisAll_eq_flatMap (items : List Argument) : irisAll items = items.flatMap iris := by
  induction items with
  | nil => rfl
  | cons a as ih => simp [irisAll, ih]

theorem iris_ofList (items : List Argument) : (ofList items).iris = items.flatMap iris := by
  rcases Document.ofList_cases items with ⟨values, rfl, folded⟩ | ⟨-, kept⟩
  · rw [folded, List.flatMap_map]
    exact Term.irisAll_eq_flatMap values
  · rw [kept]
    exact irisAll_eq_flatMap items

end Argument

def ParamType.iris : ParamType → List Iri
  | .datatype name => [name]
  | .list element | .nonEmptyList element => element.iris
  | .resource | .iri | .literal => []

def Parameter.iris (p : Parameter) : List Iri := p.type.iris ++ (p.default.toList.flatMap Term.iris)

def Call.iris (inner : Call) : List Iri := inner.template :: inner.arguments.flatMap Argument.iris

def Template.iris (t : Template) : List Iri :=
  t.iri :: t.parameters.flatMap Parameter.iris ++ t.calls.flatMap Call.iris

def Instance.iris (i : Instance) : List Iri := i.template :: i.arguments.flatMap Term.iris

namespace Document

def Sourced (ns : Namespaces) (ts : List Token) (iri : Iri) : Prop :=
  iri.Absolute ∨ ∃ label name, .prefixed label name ∈ ts.flatMap Token.written ∧
    ns.resolve label name = some iri

section Runs

variable {ns : Namespaces} {scope : List Parameter} {ts us whole : List Token} {iri : Iri}

theorem Sourced.mono (sourced : Sourced ns ts iri) (within : ts ⊆ us) : Sourced ns us iri := by
  rcases sourced with absolute | ⟨label, name, member, resolved⟩
  · exact .inl absolute
  · obtain ⟨t, held, inside⟩ := List.mem_flatMap.mp member
    exact .inr ⟨label, name, List.mem_flatMap.mpr ⟨t, within held, inside⟩, resolved⟩

theorem Resolves.sourced {t : Token} {name : WrittenIri} (resolved : Resolves ns name iri)
    (member : name ∈ t.written) : Sourced ns [t] iri := by
  cases resolved with
  | full valid => exact .inl (Iri.parse_eq_ok_iff.mp valid).2
  | prefixed bound => exact .inr ⟨_, _, by simpa using member, bound⟩

theorem Resolves.sourced_of_kind {t : Token} {name : WrittenIri} (resolved : Resolves ns name iri)
    (kind : t.kind = .iri name) : Sourced ns [t] iri :=
  resolved.sourced (by simp [Token.written, kind])

theorem Atom.sourced {t : Token} {a : Argument} (meaning : Atom ns scope t.kind a) :
    ∀ iri ∈ a.iris, Sourced ns [t] iri := by
  generalize kind : t.kind = written at meaning
  cases meaning with
  | blank | «variable» => exact List.forall_mem_nil _
  | @iri name named resolved =>
    intro iri member
    have same : iri = named := by
      simp only [ofName, Argument.iris] at member
      split at member
      · cases member
      · exact List.mem_singleton.mp member
    rw [same]
    exact resolved.sourced_of_kind kind
  | literal read =>
    refine List.forall_mem_singleton.mpr ?_
    cases read with
    | plain => exact .inl (show Vocabulary.string.Absolute by decide)
    | language valid =>
      unfold Literal.tagged at valid
      split at valid
      · cases valid
        exact .inl (show Vocabulary.langString.Absolute by decide)
      · cases valid
    | datatype resolved => exact resolved.sourced (by simp [Token.written, kind])
  | integer =>
    exact List.forall_mem_singleton.mpr (.inl (show Vocabulary.integer.Absolute by decide))
  | decimal =>
    exact List.forall_mem_singleton.mpr (.inl (show Vocabulary.decimal.Absolute by decide))
  | word meaning =>
    unfold word? at meaning
    split at meaning
    · cases meaning
      exact List.forall_mem_nil _
    split at meaning
    · cases meaning
      exact List.forall_mem_singleton.mpr (.inl (by decide))
    split at meaning
    · cases meaning
      exact List.forall_mem_singleton.mpr (.inl (by decide))
    · cases meaning

theorem Listed.forall_mem_within {α : Type} {Item : List α → List Token → α → Prop}
    {found all : List α} {P : α → Prop} (listed : Listed Item found ts all) (within : ts ⊆ whole)
    (each : ∀ found us a, us ⊆ whole → Item found us a → P a) (earlier : ∀ a ∈ found, P a) :
    ∀ a ∈ all, P a := by
  induction listed with
  | stop => exact fun a member => earlier a (List.mem_reverse.mp member)
  | last one =>
    intro a member
    rcases List.mem_cons.mp (List.mem_reverse.mp member) with rfl | old
    · exact each _ _ _ within one
    · exact earlier a old
  | next one _ _ ih =>
    obtain ⟨front, back⟩ := List.append_subset.mp within
    refine ih (fun t member => back (List.mem_cons_of_mem _ member)) ?_
    intro a member
    rcases List.mem_cons.mp member with rfl | old
    · exact each _ _ _ front one
    · exact earlier a old

theorem Listed.sourced {α : Type} {Item : List α → List Token → α → Prop} {all : List α}
    {iris : α → List Iri} (listed : Listed Item [] ts all) (within : ts ⊆ whole)
    (each : ∀ found us a, Item found us a → ∀ iri ∈ iris a, Sourced ns us iri) :
    ∀ iri ∈ all.flatMap iris, Sourced ns whole iri := by
  have items := listed.forall_mem_within (P := fun a => ∀ iri ∈ iris a, Sourced ns whole iri) within
    (fun found us a inside one iri member => (each found us a one iri member).mono inside)
    (List.forall_mem_nil _)
  intro iri member
  obtain ⟨a, held, inside⟩ := List.mem_flatMap.mp member
  exact items a held iri inside

theorem TermRun.sourced {a : Argument} (run : TermRun ns scope ts a) :
    ∀ iri ∈ a.iris, Sourced ns ts iri := by
  refine TermRun.induction (P := fun ts a => ∀ iri ∈ a.iris, Sourced ns ts iri) ?_ ?_ run
  · intro t a meaning
    exact meaning.sourced
  · intro opening closing ts items _ _ inside
    rw [Argument.iris_ofList]
    refine inside.sourced ?_ fun _ _ _ one => one.2
    exact fun t member => by simp [member]

theorem ConstantRun.sourced {value : Term} (run : ConstantRun ns ts value) :
    ∀ iri ∈ value.iris, Sourced ns ts iri :=
  TermRun.sourced run

theorem ArgumentRun.sourced {a : Argument} (run : ArgumentRun ns scope ts a) :
    ∀ iri ∈ a.iris, Sourced ns ts iri := by
  cases run with
  | plain term => exact term.sourced
  | expand _ term =>
    intro iri member
    exact (term.sourced iri member).mono (List.subset_cons_self _ _)

theorem iris_ofIri {name : Iri} {type : ParamType} (known : ParamType.ofIri? name = some type) :
    ∀ iri ∈ type.iris, iri = name := by
  unfold ParamType.ofIri? at known
  dsimp only at known
  split at known
  · cases known
    exact List.forall_mem_nil _
  split at known
  · cases known
    exact List.forall_mem_nil _
  split at known
  · cases known
    exact List.forall_mem_nil _
  split at known
  · cases known
    exact fun iri member => List.mem_singleton.mp member
  split at known
  · cases known
    exact fun iri member => List.mem_singleton.mp member
  · cases known

theorem TypeRun.sourced {type : ParamType} (run : TypeRun ns ts type) :
    ∀ iri ∈ type.iris, Sourced ns ts iri := by
  induction run with
  | named kind resolved known =>
    intro iri member
    rw [iris_ofIri known iri member]
    exact resolved.sourced_of_kind kind
  | list _ _ _ ih | nonEmptyList _ _ _ ih =>
    intro iri member
    exact (ih iri member).mono fun t inside => by simp [inside]

theorem ParameterRun.sourced {index : Nat} {p : Parameter} (run : ParameterRun ns index ts p) :
    ∀ iri ∈ p.iris, Sourced ns ts iri := by
  cases run with
  | parameter _ typed _ value =>
    intro iri member
    rcases List.mem_append.mp member with ofType | ofDefault
    · cases typed with
      | untyped => cases ofType
      | typed given => exact (given.sourced iri ofType).mono fun t inside => by simp [inside]
    · cases value with
      | none => cases ofDefault
      | given _ constant =>
        refine (constant.sourced iri ?_).mono fun t inside => by simp [inside]
        simpa using ofDefault

theorem NameRun.sourced (run : NameRun ns ts iri) : Sourced ns ts iri := by
  cases run with
  | name kind resolved => exact resolved.sourced_of_kind kind

theorem CallRun.sourced {inner : Call} (run : CallRun ns scope ts inner) :
    ∀ iri ∈ inner.iris, Sourced ns ts iri := by
  cases run with
  | call _ named _ _ given =>
    refine List.forall_mem_cons.mpr ⟨named.sourced.mono fun t inside => by simp [inside], ?_⟩
    refine given.sourced ?_ fun _ _ _ one => one.sourced
    exact fun t inside => by simp [inside]

theorem TemplateRun.sourced {t : Template} (run : TemplateRun ns ts t) :
    ∀ iri ∈ t.iris, Sourced ns ts iri := by
  cases run with
  | template named _ _ signed _ _ _ made =>
    refine List.forall_mem_append.mpr ⟨List.forall_mem_cons.mpr ⟨?_, ?_⟩, ?_⟩
    · exact named.sourced.mono fun t inside => by simp [inside]
    · refine signed.sourced ?_ fun _ _ _ one => one.1.sourced
      exact fun t inside => by simp [inside]
    · refine made.sourced ?_ fun _ _ _ one => one.sourced
      exact fun t inside => by simp [inside]

theorem InstanceRun.sourced {i : Instance} (run : InstanceRun ns ts i) :
    ∀ iri ∈ i.iris, Sourced ns ts iri := by
  cases run with
  | ground named _ _ given =>
    refine List.forall_mem_cons.mpr ⟨named.sourced.mono fun t inside => by simp [inside], ?_⟩
    refine given.sourced ?_ fun _ _ _ one => one.sourced
    exact fun t inside => by simp [inside]

end Runs

def Declares (ts : List Token) (b : Binding) : Prop := ∃ run, BindingRun run b ∧ run <:+: ts

theorem Declares.behind {front rest : List Token} {b : Binding} (declares : Declares rest b) :
    Declares (front ++ rest) b := by
  obtain ⟨run, bound, inside⟩ := declares
  exact ⟨run, bound, inside.trans (List.suffix_append front rest).isInfix⟩

theorem resolve_binding {ns : Namespaces} {label name : String} {iri : Iri}
    (resolved : ns.resolve label name = some iri) :
    ∃ space, ⟨label, space⟩ ∈ ns.items ∧ iri = .inNamespace space name := by
  obtain ⟨space, held, same⟩ := Option.map_eq_some_iff.mp resolved
  obtain ⟨b, found, spaced⟩ := Option.map_eq_some_iff.mp held
  have labelled : b.label = label := ns.key_of_find? label b found
  refine ⟨space, ?_, same.symm⟩
  rw [← labelled, ← spaced]
  exact ns.mem_of_find? label b found

inductive Stems (ns : Namespaces) (ts : List Token) (iri : Iri) : Prop where
  | absolute (absolute : iri.Absolute)
  | named {label space name : String}
    (written : .prefixed label name ∈ ts.flatMap Token.written)
    (bound : ⟨label, space⟩ ∈ ns.items ∨ Declares ts ⟨label, space⟩)
    (same : iri = .inNamespace space name)

theorem Sourced.stems {ns : Namespaces} {ts : List Token} {iri : Iri}
    (sourced : Sourced ns ts iri) : Stems ns ts iri := by
  rcases sourced with absolute | ⟨label, name, written, resolved⟩
  · exact .absolute absolute
  · obtain ⟨space, bound, same⟩ := resolve_binding resolved
    exact .named written (.inl bound) same

theorem Stems.front {ns : Namespaces} {front rest : List Token} {iri : Iri}
    (stems : Stems ns front iri) : Stems ns (front ++ rest) iri := by
  cases stems with
  | absolute absolute => exact .absolute absolute
  | named written bound same =>
    refine .named (by rw [List.flatMap_append]; exact List.mem_append_left _ written) ?_ same
    refine bound.imp_right ?_
    rintro ⟨run, binds, inside⟩
    exact ⟨run, binds, inside.trans (List.prefix_append front rest).isInfix⟩

theorem Stems.behind {ns : Namespaces} {front rest : List Token} {iri : Iri}
    (stems : Stems ns rest iri) : Stems ns (front ++ rest) iri := by
  cases stems with
  | absolute absolute => exact .absolute absolute
  | named written bound same =>
    refine .named (by rw [List.flatMap_append]; exact List.mem_append_right _ written) ?_ same
    exact bound.imp_right Declares.behind

-- A prefix that is bound in the text takes the place of any that was bound before.
theorem Stems.bound {ns : Namespaces} {front rest : List Token} {b : Binding} {iri : Iri}
    (run : BindingRun front b) (stems : Stems (ns.bind b.label b.space) rest iri) :
    Stems ns (front ++ rest) iri := by
  cases stems with
  | absolute absolute => exact .absolute absolute
  | named written bound same =>
    refine .named (by rw [List.flatMap_append]; exact List.mem_append_right _ written) ?_ same
    rcases bound with held | declared
    · rcases Keyed.mem_insertInto _ _ _ held with new | old
      · rw [new]
        exact .inr ⟨front, run, (List.prefix_append front rest).isInfix⟩
      · exact .inl old
    · exact .inr declared.behind

theorem Declarations.stems {α : Type} {Item : Namespaces → List Token → α → Prop}
    {iris : α → List Iri}
    (each : ∀ ns us a, Item ns us a → ∀ iri ∈ iris a, Sourced ns us iri)
    {ns after : Namespaces} {ts : List Token} {items : List α}
    (run : Declarations Item ns ts items after) :
    ∀ a ∈ items, ∀ iri ∈ iris a, Stems ns ts iri := by
  induction run with
  | done => exact List.forall_mem_nil _
  | binding bound _ ih =>
    intro a member iri inside
    exact (ih a member iri inside).bound bound
  | item one _ ih =>
    intro a member iri inside
    rcases List.mem_cons.mp member with rfl | later
    · exact (each _ _ _ one iri inside).stems.front
    · exact (ih a later iri inside).behind

-- What an IRI that is not absolute is made of: a name in a namespace that the text declares and
-- that is not absolute either, or a name with a character that no name has.
inductive Lapse (ts : List Token) (iri : Iri) : Prop where
  | space {label space name : String}
    (written : .prefixed label name ∈ ts.flatMap Token.written)
    (declared : Declares ts ⟨label, space⟩) (relative : ¬(Iri.mk space).Absolute)
    (same : iri = .inNamespace space name)
  | name {label space name : String} {c : Char}
    (written : .prefixed label name ∈ ts.flatMap Token.written) (inside : c ∈ name.toList)
    (foreign : Token.isNameChar c = false) (same : iri = .inNamespace space name)

theorem Stems.absolute_or_lapse {ns : Namespaces} {ts : List Token} {iri : Iri}
    (valid : ∀ b ∈ ns.items, (Iri.mk b.space).Absolute) (stems : Stems ns ts iri) :
    iri.Absolute ∨ Lapse ts iri := by
  cases stems with
  | absolute absolute => exact .inl absolute
  | @named label space name written bound same =>
    by_cases named : ∀ c ∈ name.toList, Token.isNameChar c = true
    · by_cases absolute : (Iri.mk space).Absolute
      · rw [same]
        exact .inl ((Token.inNamespace_absolute_iff named).mpr absolute)
      · rcases bound with held | declared
        · exact absurd (valid _ held) absolute
        · exact .inr (.space written declared absolute same)
    · push Not at named
      obtain ⟨c, inside, foreign⟩ := named
      exact .inr (.name written inside ((Bool.not_eq_true _).mp foreign) same)

theorem read_absolute {α : Type} {item : Item α} {Run : Namespaces → List Token → α → Prop}
    {iris : α → List Iri} {ns : Namespaces} {text : String} {items : List α}
    (reads : ∀ r us (one : Parsed α us), item r us = .ok one → Spelled (Run r.namespaces) one)
    (each : ∀ ns us a, Run ns us a → ∀ iri ∈ iris a, Sourced ns us iri)
    (valid : ∀ b ∈ ns.items, (Iri.mk b.space).Absolute)
    (accepted : (read item ns text).outcome = .ok items) :
    ∃ stream, Token.scan text = .ok stream ∧
      ∀ a ∈ items, ∀ iri ∈ iris a, iri.Absolute ∨ Lapse stream.tokens iri := by
  obtain ⟨stream, scanned, run⟩ := read_declarations reads accepted
  refine ⟨stream, scanned, ?_⟩
  intro a member iri inside
  exact (run.stems each a member iri inside).absolute_or_lapse valid

theorem standard_absolute : ∀ b ∈ Namespaces.standard.items, (Iri.mk b.space).Absolute := by
  decide +kernel

-- Every IRI of an accepted text is absolute, unless it is a prefixed name of one of two kinds: the
-- prefix is declared by the text and its namespace is not absolute, or the name has a character
-- that is none of a name, which takes a character wider than one byte. Otherwise the namespace
-- alone decides.
theorem accepted_absolute {ns : Namespaces} (valid : ∀ b ∈ ns.items, (Iri.mk b.space).Absolute)
    (text : String) :
    (∀ templates, (Document.templates ns text).outcome = .ok templates →
      ∃ stream, Token.scan text = .ok stream ∧
        ∀ t ∈ templates, ∀ iri ∈ t.iris, iri.Absolute ∨ Lapse stream.tokens iri) ∧
    (∀ instances, (Document.instances ns text).outcome = .ok instances →
      ∃ stream, Token.scan text = .ok stream ∧
        ∀ i ∈ instances, ∀ iri ∈ i.iris, iri.Absolute ∨ Lapse stream.tokens iri) ∧
    (∀ space name, (∀ c ∈ name.toList, Token.isNameChar c = true) →
      ((Iri.inNamespace space name).Absolute ↔ (Iri.mk space).Absolute)) ∧
    ∀ stream, Token.scan text = .ok stream → (∀ c ∈ text.toList, c.utf8Size = 1) →
      ∀ label name, .prefixed label name ∈ stream.tokens.flatMap Token.written →
        ∀ c ∈ name.toList, Token.isNameChar c = true := by
  refine ⟨?_, ?_, fun _ _ => Token.inNamespace_absolute_iff, ?_⟩
  · intro templates accepted
    exact read_absolute (fun _ _ _ taken => template_run taken)
      (fun _ _ _ run => TemplateRun.sourced run) valid accepted
  · intro instances accepted
    exact read_absolute (fun _ _ _ taken => groundInstance_run taken)
      (fun _ _ _ run => InstanceRun.sourced run) valid accepted
  · intro stream scanned narrow label name written
    obtain ⟨t, member, inside⟩ := List.mem_flatMap.mp written
    exact Token.names_of_narrow scanned narrow t member _ (Token.name_of_written inside)

def mixed : String :=
  "@prefix ex: <http://e/> . @prefix rel: <rel/> . " ++
    "ex:T((<u:a>, rdf:value), \"x\"^^xsd:date, rel:a) ."

theorem accepted_absolute_mixed :
    (∀ b ∈ Namespaces.standard.items, (Iri.mk b.space).Absolute) ∧
    ∃ i stream, (Document.instances Namespaces.standard mixed).outcome = .ok [i] ∧
      i.iris = [⟨"http://e/T"⟩, ⟨"u:a"⟩, .inNamespace Vocabulary.rdf "value",
        .inNamespace Vocabulary.xsd "date", ⟨"rel/a"⟩] ∧
      Token.scan mixed = .ok stream ∧ ∀ iri ∈ i.iris, iri.Absolute ∨ Lapse stream.tokens iri := by
  let i : Instance := ⟨⟨"http://e/T"⟩,
    [.list [.iri ⟨"u:a"⟩, .iri (.inNamespace Vocabulary.rdf "value")],
      .literal (.typed "x" (.inNamespace Vocabulary.xsd "date")), .iri ⟨"rel/a"⟩], ⟨48, 96, 1, 49⟩⟩
  have accepted : (Document.instances Namespaces.standard mixed).outcome = .ok [i] := by
    decide +kernel
  obtain ⟨stream, scanned, each⟩ := (accepted_absolute standard_absolute mixed).2.1 [i] accepted
  exact ⟨standard_absolute, i, stream, accepted, rfl, scanned, each i List.mem_cons_self⟩

def relative : String := "@prefix ex: <rel/> .\nex:T(ex:a) ."

theorem not_accepted_absolute :
    ¬∀ (ns : Namespaces) (text : String) (instances : List Instance),
      (∀ b ∈ ns.items, (Iri.mk b.space).Absolute) →
      (Document.instances ns text).outcome = .ok instances →
      ∀ i ∈ instances, ∀ iri ∈ i.iris, iri.Absolute := by
  intro claimed
  have accepted : (Document.instances Namespaces.standard relative).outcome =
      .ok [⟨⟨"rel/T"⟩, [.iri ⟨"rel/a"⟩], ⟨21, 33, 2, 1⟩⟩] := by decide +kernel
  have named := claimed _ _ _ standard_absolute accepted _ List.mem_cons_self ⟨"rel/T"⟩
    List.mem_cons_self
  exact absurd named (by decide)

end Document

end Stottr

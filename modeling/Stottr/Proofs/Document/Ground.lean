import Mathlib.Data.List.Chain
import Stottr.Proofs.Document.Derived

namespace Stottr.Document

variable {α β : Type} {ns : Namespaces} {ts us : List Token}

-- Items with commas between them, and something behind every comma.
inductive Row (Item : List Token → α → Prop) : List Token → List α → Prop where
  | empty : Row Item [] []
  | one {ts : List Token} {a : α} (item : Item ts a) : Row Item ts [a]
  | next {ts us : List Token} {a : α} {all : List α} {comma : Token} (item : Item ts a)
    (separator : comma.kind = .comma) (others : Row Item us all) (more : all ≠ []) :
    Row Item (ts ++ comma :: us) (a :: all)

-- Constants. There is no parameter that a variable could name.
inductive StrictConstant (ns : Namespaces) : List Token → Term → Prop where
  | atom {t : Token} {value : Term} (meaning : Atom ns [] t.kind (.concrete value)) :
    StrictConstant ns [t] value
  | list {opening closing : Token} {ts : List Token} {items : List Term}
    (opens : opening.kind = .openParen) (closes : closing.kind = .closeParen)
    (inside : Row (StrictConstant ns) ts items) :
    StrictConstant ns (opening :: ts ++ [closing]) (.list items)

inductive StrictInstance (ns : Namespaces) : List Token → Instance → Prop where
  | ground {names ts : List Token} {opening closing dot : Token} {iri : Iri}
    {arguments : List Term} (named : NameRun ns names iri) (opens : opening.kind = .openParen)
    (closes : closing.kind = .closeParen) (given : Row (StrictConstant ns) ts arguments)
    (stops : dot.kind = .dot) :
    StrictInstance ns (names ++ opening :: ts ++ [closing, dot])
      ⟨iri, arguments, spanOf (names ++ opening :: ts ++ [closing, dot])⟩

-- No comma stands right before a closing parenthesis.
def Unpadded (ts : List Token) : Prop :=
  ts.IsChain fun t next => t.kind = .comma → next.kind ≠ .closeParen

instance (ts : List Token) : Decidable (Unpadded ts) :=
  inferInstanceAs (Decidable (List.IsChain _ _))

theorem Unpadded.part {ts us : List Token} (unpadded : Unpadded ts) (inside : us <:+: ts) :
    Unpadded us :=
  List.IsChain.infix unpadded inside

namespace Row

variable {Item : List Token → α → Prop}

theorem eq_nil (row : Row Item ts []) : ts = [] := by
  cases row with
  | empty => rfl

theorem listed {Q : List Token → β → Prop} {f : α → β} {all : List α}
    (each : ∀ us a, Item us a → Q us (f a)) (row : Row Item ts all) (found : List β) :
    Listed (fun _ us b => Q us b) found ts (found.reverse ++ all.map f) := by
  induction row generalizing found with
  | empty => simpa using Listed.stop
  | one item => simpa using Listed.last (each _ _ item)
  | @next ts us a all comma item separator _ _ ih =>
    have whole : found.reverse ++ (a :: all).map f =
        (f a :: found).reverse ++ all.map f := by simp
    rw [whole]
    exact .next (each _ _ item) separator (ih _)

end Row

theorem Listed.row {Item : List Token → α → Prop} {Item' : List β → List Token → β → Prop}
    {f : α → β} {found all : List β} (listed : Listed Item' found ts all)
    (each : ∀ found us b, Item' found us b → Unpadded us → ∃ a, b = f a ∧ Item us a)
    {closing : Token} (closes : closing.kind = .closeParen)
    (unpadded : Unpadded (ts ++ [closing])) :
    ∃ later, all = found.reverse ++ later.map f ∧ Row Item ts later := by
  induction listed with
  | stop => exact ⟨[], by simp, .empty⟩
  | last one =>
    obtain ⟨a, rfl, item⟩ := each _ _ _ one (List.isChain_append.mp unpadded).1
    exact ⟨[a], by simp, .one item⟩
  | @next found all us vs b comma one separator _ ih =>
    have split : us ++ comma :: vs ++ [closing] = us ++ comma :: (vs ++ [closing]) := by simp
    unfold Unpadded at unpadded
    rw [split, List.isChain_split] at unpadded
    obtain ⟨before, behind⟩ := unpadded
    obtain ⟨a, rfl, item⟩ := each _ _ _ one (List.isChain_append.mp before).1
    obtain ⟨later, rfl, row⟩ := ih behind.tail
    refine ⟨a :: later, by simp, .next item separator row ?_⟩
    rintro rfl
    cases row.eq_nil
    exact (List.isChain_cons_cons.mp behind).1 separator closes

theorem StrictConstant.induction {P : List Token → Term → Prop}
    (atom : ∀ t value, Atom ns [] t.kind (.concrete value) → P [t] value)
    (list : ∀ (opening closing : Token) ts items, opening.kind = .openParen →
      closing.kind = .closeParen →
      Row (fun us value => StrictConstant ns us value ∧ P us value) ts items →
      P (opening :: ts ++ [closing]) (.list items))
    {value : Term} (run : StrictConstant ns ts value) : P ts value := by
  refine @StrictConstant.rec ns (fun ts value _ => P ts value)
    (fun ts all _ => Row (fun us value => StrictConstant ns us value ∧ P us value) ts all)
    ?_ ?_ ?_ ?_ ?_ ts value run
  · intro t value meaning
    exact atom t value meaning
  · intro opening closing ts items opens closes _ inside
    exact list opening closing ts items opens closes inside
  · exact .empty
  · intro ts a item held
    exact .one ⟨item, held⟩
  · intro ts us a all comma item separator _ more held others
    exact .next ⟨item, held⟩ separator others more

theorem StrictConstant.constant {value : Term} (run : StrictConstant ns ts value) :
    ConstantRun ns ts value := by
  refine StrictConstant.induction (P := ConstantRun ns) ?_ ?_ run
  · intro t value meaning
    exact .atom meaning
  · intro opening closing ts items opens closes inside
    have listed := inside.listed (Q := TermRun ns []) (fun _ _ one => one.2) []
    have run := TermRun.list opens closes listed
    rwa [List.reverse_nil, List.nil_append, ofList_concrete] at run

theorem strict_of_unpadded {a : Argument} (run : TermRun ns [] ts a) (unpadded : Unpadded ts) :
    ∃ value, a = .concrete value ∧ StrictConstant ns ts value := by
  refine TermRun.induction
    (P := fun ts a => Unpadded ts → ∃ value, a = .concrete value ∧ StrictConstant ns ts value)
    ?_ ?_ run unpadded
  · intro t a meaning _
    obtain ⟨value, rfl⟩ := concrete_of_termRun (.atom meaning)
    exact ⟨value, rfl, .atom meaning⟩
  · intro opening closing ts items opens closes inside unpadded
    obtain ⟨values, rfl, row⟩ := inside.row (fun _ _ _ one => one.2) closes unpadded.tail
    exact ⟨.list values, ofList_concrete values, .list opens closes row⟩

structure Neat (ts : List Token) : Prop where
  unpadded : Unpadded ts
  begins : BeginsWithout [.closeParen] ts
  ends : ∃ front t, ts = front ++ [t] ∧ t.kind ≠ .comma

namespace Neat

theorem of_kind {t : Token} {kind : TokenKind} (written : t.kind = kind)
    (notClose : kind ≠ .closeParen) (notComma : kind ≠ .comma) : Neat [t] := by
  subst written
  exact ⟨.singleton t, ⟨t, [], rfl, by simpa using notClose⟩, [], t, rfl, notComma⟩

theorem before (neat : Neat ts) (unpadded : Unpadded us) : Unpadded (ts ++ us) := by
  obtain ⟨inside, -, front, t, rfl, notComma⟩ := neat
  refine List.isChain_append.mpr ⟨inside, unpadded, ?_⟩
  intro last member next _ comma
  rw [List.getLast?_concat] at member
  cases member
  exact absurd comma notComma

theorem append (neat : Neat ts) (later : Neat us) : Neat (ts ++ us) := by
  obtain ⟨t, rest, rfl, notClose⟩ := neat.begins
  obtain ⟨front, last, rfl, notComma⟩ := later.ends
  exact ⟨neat.before later.unpadded, ⟨t, _, rfl, notClose⟩, _, last, (List.append_assoc _ _ _).symm,
    notComma⟩

theorem separated (neat : Neat ts) (separator : Token) (later : Neat us) :
    Neat (ts ++ separator :: us) := by
  obtain ⟨next, rest, rfl, notClose⟩ := later.begins
  obtain ⟨t, others, rfl, first⟩ := neat.begins
  obtain ⟨front, last, whole, notComma⟩ := later.ends
  refine ⟨neat.before (List.isChain_cons_cons.mpr ⟨?_, later.unpadded⟩), ⟨t, _, rfl, first⟩,
    t :: others ++ separator :: front, last, by simp [whole], notComma⟩
  exact fun _ closes => notClose (by simpa using closes)

theorem list {opening closing : Token} (opens : opening.kind = .openParen)
    (closes : closing.kind = .closeParen) (inside : ts = [] ∨ Neat ts) :
    Neat (opening :: ts ++ [closing]) := by
  have first : Neat [opening] := of_kind opens (by simp) (by simp)
  refine ⟨?_, ⟨opening, _, rfl, by simp [opens]⟩, opening :: ts, closing, rfl, by simp [closes]⟩
  rcases inside with rfl | neat
  · exact first.before (.singleton closing)
  · exact (first.append neat).before (.singleton closing)

end Neat

theorem Row.neat {Item : List Token → α → Prop} {all : List α} (row : Row Item ts all)
    (each : ∀ us a, Item us a → Neat us) : ts = [] ∨ Neat ts := by
  have filled : all = [] ∨ Neat ts := by
    induction row with
    | empty => exact .inl rfl
    | one item => exact .inr (each _ _ item)
    | @next ts us a all comma item separator others more ih =>
      exact .inr ((each _ _ item).separated comma (ih.resolve_left more))
  rcases filled with rfl | neat
  · exact .inl row.eq_nil
  · exact .inr neat

theorem StrictConstant.neat {value : Term} (run : StrictConstant ns ts value) : Neat ts := by
  refine StrictConstant.induction (P := fun ts _ => Neat ts) ?_ ?_ run
  · intro t value meaning
    generalize written : t.kind = kind at meaning
    cases meaning <;> exact .of_kind written (by simp) (by simp)
  · intro opening closing ts items opens closes inside
    exact .list opens closes (inside.neat fun _ _ one => one.2)

theorem NameRun.neat {iri : Iri} (run : NameRun ns ts iri) : Neat ts := by
  cases run with
  | name written => exact .of_kind written (by simp) (by simp)

theorem StrictInstance.neat {i : Instance} (run : StrictInstance ns ts i) : Neat ts := by
  cases run with
  | @ground names ts opening closing dot iri arguments named opens closes given stops =>
    have inside : Neat (opening :: ts ++ [closing]) :=
      .list opens closes (given.neat fun _ _ one => one.neat)
    have dotted : Neat [dot] := .of_kind stops (by simp) (by simp)
    simpa using (named.neat.append inside).append dotted

theorem BindingRun.neat {b : Binding} (run : BindingRun ts b) : Neat ts := by
  cases run with
  | binding begins named spaced stops =>
    have first := Neat.of_kind begins (by simp) (by simp)
    have second := Neat.of_kind named (by simp) (by simp)
    have third := Neat.of_kind spaced (by simp) (by simp)
    exact first.append (second.append (third.append (.of_kind stops (by simp) (by simp))))

theorem StrictInstance.instance {i : Instance} (run : StrictInstance ns ts i) :
    InstanceRun ns ts i := by
  cases run with
  | @ground names ts opening closing dot iri arguments named opens closes given stops =>
    have listed := given.listed (f := id) (fun _ _ one => one.constant) []
    rw [List.reverse_nil, List.nil_append, List.map_id] at listed
    exact .ground named opens closes listed stops

theorem strictInstance_of_unpadded {i : Instance} (run : InstanceRun ns ts i)
    (unpadded : Unpadded ts) : StrictInstance ns ts i := by
  cases run with
  | @ground names ts opening closing dot iri arguments named opens closes given stops =>
    have inside : Unpadded (ts ++ [closing]) := by
      refine unpadded.part ⟨names ++ [opening], [dot], ?_⟩
      simp
    have each : ∀ (found : List Term) us value, ConstantRun ns us value → Unpadded us →
        ∃ value', value = id value' ∧ StrictConstant ns us value' := by
      intro _ us value one unpadded
      obtain ⟨value', same, strict⟩ := strict_of_unpadded one unpadded
      cases same
      exact ⟨value, rfl, strict⟩
    obtain ⟨values, same, row⟩ := given.row each closes inside
    rw [List.reverse_nil, List.nil_append, List.map_id] at same
    exact .ground named opens closes (same ▸ row) stops

section Declarations

variable {Run Run' : Namespaces → List Token → α → Prop} {after : Namespaces} {items : List α}

theorem Declarations.imp (run : Declarations Run ns ts items after)
    (each : ∀ ns us a, us <:+: ts → Run ns us a → Run' ns us a) :
    Declarations Run' ns ts items after := by
  induction run with
  | done => exact .done
  | binding bound _ ih =>
    exact .binding bound (ih fun ns us a inside => each ns us a
      (inside.trans (List.suffix_append _ _).isInfix))
  | item one _ ih =>
    exact .item (each _ _ _ (List.prefix_append _ _).isInfix one)
      (ih fun ns us a inside => each ns us a (inside.trans (List.suffix_append _ _).isInfix))

theorem Declarations.unpadded (each : ∀ ns us a, Run ns us a → Neat us)
    (run : Declarations Run ns ts items after) : Unpadded ts := by
  induction run with
  | done => exact .nil
  | binding bound _ ih => exact bound.neat.before ih
  | item one _ ih => exact (each _ _ _ one).before ih

-- The two grammars differ by the padding.
theorem strict_iff_unpadded {items : List Instance} :
    Declarations StrictInstance ns ts items after ↔
      Declarations InstanceRun ns ts items after ∧ Unpadded ts := by
  constructor
  · intro strict
    exact ⟨strict.imp fun _ _ _ _ one => one.instance, strict.unpadded fun _ _ _ one => one.neat⟩
  · rintro ⟨run, unpadded⟩
    exact run.imp fun _ _ _ inside one => strictInstance_of_unpadded one (unpadded.part inside)

end Declarations

def Fixed (ts : List Token) : Prop :=
  ∀ t ∈ ts, t.kind ≠ .plusPlus ∧ ∀ name, t.kind ≠ .variable name

section Fixed

@[simp] theorem fixed_nil : Fixed [] := nofun

@[simp] theorem fixed_cons (t : Token) (ts : List Token) :
    Fixed (t :: ts) ↔ (t.kind ≠ .plusPlus ∧ ∀ name, t.kind ≠ .variable name) ∧ Fixed ts :=
  List.forall_mem_cons

@[simp] theorem fixed_append (ts us : List Token) : Fixed (ts ++ us) ↔ Fixed ts ∧ Fixed us :=
  List.forall_mem_append

theorem Listed.fixed {Item : List α → List Token → α → Prop} {found all : List α}
    (listed : Listed Item found ts all) (each : ∀ found us a, Item found us a → Fixed us) :
    Fixed ts := by
  refine listed.run fixed_nil each ?_
  intro us vs comma separator one others
  simp [one, others, separator]

theorem ConstantRun.fixed {value : Term} (run : ConstantRun ns ts value) : Fixed ts := by
  refine TermRun.induction (P := fun ts _ => Fixed ts) ?_ ?_ run
  · intro t a meaning
    generalize written : t.kind = kind at meaning
    cases meaning with
    | iri | blank | literal | integer | decimal | word => simp [written]
    | «variable» declared => cases declared
  · intro opening closing ts items opens closes inside
    simp [opens, closes, inside.fixed fun _ _ _ one => one.2]

theorem InstanceRun.fixed {i : Instance} (run : InstanceRun ns ts i) : Fixed ts := by
  cases run with
  | ground named opens closes given stops =>
    obtain ⟨t, name, rfl, written⟩ := named.begins
    simp [written, opens, closes, stops, given.fixed fun _ _ _ one => ConstantRun.fixed one]

theorem BindingRun.fixed {b : Binding} (run : BindingRun ts b) : Fixed ts := by
  cases run with
  | binding begins named spaced stops => simp [begins, named, spaced, stops]

theorem Declarations.fixed {after : Namespaces} {items : List Instance}
    (run : Declarations InstanceRun ns ts items after) : Fixed ts := by
  induction run with
  | done => exact fixed_nil
  | binding bound _ ih => exact (fixed_append _ _).mpr ⟨bound.fixed, ih⟩
  | item one _ ih => exact (fixed_append _ _).mpr ⟨one.fixed, ih⟩

end Fixed

-- The grammar decides what is accepted and what the instances of an accepted text are. What it has
-- beyond the strict grammar are commas before closing parentheses; and of what the tokens spell out
-- only the namespaces of prefix declarations need not be valid.
theorem instances_iff_derived (stop : Text.Span) (ns after : Namespaces) (ts : List Token)
    (items : List Instance) :
    (ofTokens groundInstance stop ns ts = ⟨items, [], after⟩ ↔
      Declarations InstanceRun ns ts items after) ∧
    (Declarations StrictInstance ns ts items after ↔
      Declarations InstanceRun ns ts items after ∧ Unpadded ts) ∧
    (Declarations InstanceRun ns ts items after →
      Fixed ts ∧ ∀ t ∈ ts, t.kind.wellFormed = true ∨ Spaces ts t) ∧
    ∀ text, instances ns text = ⟨.ok items, after⟩ ↔
      ∃ stream, Token.scan text = .ok stream ∧
        Declarations InstanceRun ns stream.tokens items after := by
  have run := fun r us (one : Parsed Instance us) => @groundInstance_run r us one
  have takes := fun r us i rest spelled => @groundInstance_takes r us i spelled rest
  have begins := fun ns us i => @InstanceRun.begins us ns i
  refine ⟨ofTokens_iff_declarations run takes begins, strict_iff_unpadded, ?_,
    fun text => read_iff_declarations run takes begins⟩
  intro run
  exact ⟨run.fixed, run.wellFormed_or_spaces fun _ _ _ one t member => (one.inner t member).1⟩

def nestedLists : String :=
  "@prefix ex: <http://e/> . ex:T((1, (none, _:b), ()), \"a\"@en) . ex:T() ."

theorem instances_iff_derived_nested :
    ∃ i j stream after, instances Namespaces.standard nestedLists = ⟨.ok [i, j], after⟩ ∧
      Token.scan nestedLists = .ok stream ∧
      Declarations StrictInstance Namespaces.standard stream.tokens [i, j] after ∧
      i.arguments = [.list [.literal (.typed "1" Vocabulary.integer),
        .list [.none, .blank ⟨"b"⟩], .list []],
        .literal ⟨"a", Vocabulary.langString, some "en"⟩] ∧ j.arguments = [] ∧
      Fixed stream.tokens ∧
      ∀ t ∈ stream.tokens, t.kind.wellFormed = true ∨ Spaces stream.tokens t := by
  have given : (instances Namespaces.standard nestedLists).outcome.toOption.map
      (List.map Instance.arguments) = some [[.list [.literal (.typed "1" Vocabulary.integer),
        .list [.none, .blank ⟨"b"⟩], .list []],
        .literal ⟨"a", Vocabulary.langString, some "en"⟩], []] := by decide +kernel
  have tight : (Token.scan nestedLists).toOption.map
      (fun stream => decide (Unpadded stream.tokens)) = some true := by decide +kernel
  obtain ⟨items, accepted, same⟩ := Option.map_eq_some_iff.mp given
  obtain ⟨i, rest, rfl, first, same⟩ := List.map_eq_cons_iff.mp same
  obtain ⟨j, rfl, second⟩ := List.map_eq_singleton_iff.mp same
  have reading : instances Namespaces.standard nestedLists =
      ⟨.ok [i, j], (instances Namespaces.standard nestedLists).namespaces⟩ := by
    rw [← ok_of_toOption accepted]
  obtain ⟨stream, scanned, run⟩ :=
    ((instances_iff_derived .nowhere _ _ [] [i, j]).2.2.2 nestedLists).mp reading
  rw [scanned] at tight
  have unpadded : Unpadded stream.tokens := of_decide_eq_true (Option.some.inj tight)
  obtain ⟨-, strict, checked, -⟩ := instances_iff_derived .nowhere Namespaces.standard
    (instances Namespaces.standard nestedLists).namespaces stream.tokens [i, j]
  exact ⟨i, j, stream, _, reading, scanned, strict.mpr ⟨run, unpadded⟩, first, second,
    checked run⟩

def padded : String := "<u:t>(<u:a>,) ."

theorem not_instances_iff_strict :
    ¬∀ (ns : Namespaces) (text : String) (stream : TokenStream), Token.scan text = .ok stream →
      ((∃ items after, instances ns text = ⟨.ok items, after⟩) ↔
        (∃ items after, Declarations StrictInstance ns stream.tokens items after) ∧
          WellFormed stream.tokens) := by
  intro claimed
  have named : (instances Namespaces.standard padded).outcome.toOption.map
      (List.map Instance.template) = some [⟨"u:t"⟩] := by decide +kernel
  have loose : (Token.scan padded).toOption.map (fun stream => decide (Unpadded stream.tokens)) =
      some false := by decide +kernel
  obtain ⟨items, accepted, -⟩ := Option.map_eq_some_iff.mp named
  obtain ⟨stream, scanned, refused⟩ := Option.map_eq_some_iff.mp loose
  have reading : instances Namespaces.standard padded =
      ⟨.ok items, (instances Namespaces.standard padded).namespaces⟩ := by
    rw [← ok_of_toOption accepted]
  obtain ⟨⟨_, _, strict⟩, -⟩ := (claimed _ _ stream (ok_of_toOption scanned)).mp ⟨items, _, reading⟩
  exact of_decide_eq_false refused (strict_iff_unpadded.mp strict).2

end Stottr.Document

import Stottr.Proofs.Document.Extent
import Stottr.Proofs.Document.Respelled
import Stottr.Proofs.Token.Excerpt

namespace Stottr

theorem Template.respan_id (t : Template) : t.respan id = t := by
  obtain ⟨iri, parameters, body, span⟩ := t
  have parameters : parameters.map (Parameter.respan id) = parameters := List.map_id _
  cases body with
  | statement | crossProduct => simp only [respan, parameters, Body.respan, id]
  | calls inside =>
    have calls : inside.map (Call.respan id) = inside := List.map_id _
    simp only [respan, parameters, Body.respan, calls, id]

namespace Document

variable {α : Type} {ns after : Namespaces} {ts : List Token} {earlier later items : List α} {a : α}

theorem joins_id : Joins id := fun _ _ => rfl

theorem joins_shift (origin : Text.Position) : Joins (.shift origin) := by
  intro first last
  have stop : origin.offset + max last.stop first.stop =
      max (origin.offset + last.stop) (origin.offset + first.stop) := by omega
  exact congrArg (fun stop => Text.Span.mk _ stop _ _) stop

-- The item stands in the text under its span. Alone, read with the prefixes that are left by what
-- stands in front of it, this stretch of the text is the item, moved to the start.
def ReadAgain (item : Item α) (respan : (Text.Span → Text.Span) → α → α) (ns : Namespaces)
    (text : String) (earlier : List α) (a : α) (span : Text.Span) : Prop :=
  ∃ front spelled behind here alone, Token.Stands text.toList span front spelled behind ∧
    read item ns (String.ofList front) = ⟨.ok earlier, here⟩ ∧
    read item here (String.ofList spelled) = ⟨.ok [alone], here⟩ ∧
    respan (.shift (Text.Position.start.after front)) alone = a

section Texts

variable {item : Item α} {Run : Namespaces → List Token → α → Prop} {span : α → Text.Span}
  {respan : (Text.Span → Text.Span) → α → α} {text : String}

theorem Declarations.parts (run : Declarations Run ns ts items after)
    (split : items = earlier ++ a :: later) :
    ∃ before own behind here, ts = before ++ (own ++ behind) ∧
      Declarations Run ns before earlier here ∧ Run here own a := by
  induction run generalizing earlier with
  | done => cases earlier <;> cases split
  | binding bound _ ih =>
    obtain ⟨before, own, behind, here, rfl, declared, one⟩ := ih split
    exact ⟨_ ++ before, own, behind, here, (List.append_assoc _ _ _).symm, .binding bound declared,
      one⟩
  | @item ns after front rest first items one _ ih =>
    cases earlier with
    | nil =>
      cases split
      exact ⟨[], front, rest, ns, rfl, .done, one⟩
    | cons e earlier =>
      obtain ⟨rfl, others⟩ := List.cons.inj split
      obtain ⟨before, own, behind, here, rfl, declared, one'⟩ := ih others
      exact ⟨front ++ before, own, behind, here, (List.append_assoc _ _ _).symm,
        .item one declared, one'⟩

theorem Grammar.readAgain (grammar : Grammar item Run)
    (place : ∀ ns us a, Run ns us a → us ≠ [] ∧ span a = spanOf us)
    (moved : ∀ {ns ts us a} origin, Respelled ns id (.shift origin) ts us → Run ns ts a →
      ∃ b, Run ns us b ∧ respan (.shift origin) b = a)
    (accepted : read item ns text = ⟨.ok items, after⟩) (split : items = earlier ++ a :: later) :
    ReadAgain item respan ns text earlier a (span a) := by
  obtain ⟨stream, scanned, run⟩ := grammar.read_iff.mp accepted
  obtain ⟨before, own, behind, here, tokens, declared, one⟩ := run.parts split
  obtain ⟨given, covers⟩ := place _ _ _ one
  obtain ⟨front, last, concat⟩ := (List.eq_nil_or_concat own).resolve_left given
  obtain ⟨first, rest, spelled⟩ := List.exists_cons_of_ne_nil given
  have head : own.head? = some first := by rw [spelled, List.head?_cons]
  have final : own.getLast? = some last := by
    rw [concat, List.concat_eq_append, List.getLast?_concat]
  have scans : Token.Scans .start text.toList (before ++ (own ++ behind)) :=
    tokens ▸ Token.scans_of_scanFrom scanned
  obtain ⟨front, text', behind, stands, scans, alone, scans', same⟩ := scans.excerpt head final
  obtain ⟨b, one', back⟩ := moved _ (same.imp fun t u ⟨kind, place⟩ => ⟨kind ▸ .same _, place⟩) one
  obtain ⟨stop, scanned⟩ := Token.scanFrom_of_scans scans
  obtain ⟨stop', scanned'⟩ := Token.scanFrom_of_scans scans'
  have covered : span a = first.span.through last.span := by
    rw [covers, spanOf, lastSpan, head, final]
    rfl
  refine ⟨front, text', behind, here, b, covered ▸ stands, ?_, ?_, back⟩
  · refine grammar.read_iff.mpr ⟨⟨before, stop⟩, ?_, declared⟩
    rwa [Token.scan, String.toList_ofList]
  · refine grammar.read_iff.mpr ⟨⟨alone, stop'⟩, ?_, ?_⟩
    · rwa [Token.scan, String.toList_ofList]
    · rw [← List.append_nil alone]
      exact .item one' .done

theorem Grammar.inOrder (grammar : Grammar item Run)
    (place : ∀ ns us a, Run ns us a → us ≠ [] ∧ span a = spanOf us)
    (accepted : read item ns text = ⟨.ok items, after⟩) : InOrder (items.map span) := by
  obtain ⟨stream, scanned, run⟩ := grammar.read_iff.mp accepted
  exact ((run.spread place).inOrder (inOrder_of_scan scanned)).1

theorem parts_inOrder {found : List Template}
    (accepted : read template ns text = ⟨.ok found, after⟩) : ∀ t ∈ found,
      InOrder t.parts ∧ ∀ s ∈ t.parts, t.span.start ≤ s.start ∧ s.stop ≤ t.span.stop := by
  obtain ⟨stream, scanned, run⟩ := template_grammar.read_iff.mp accepted
  intro t member
  obtain ⟨earlier, later, split⟩ := List.append_of_mem member
  obtain ⟨before, own, behind, here, tokens, -, one⟩ := run.parts split
  have inside : own.Sublist stream.tokens := by
    rw [tokens]
    exact (List.sublist_append_left own behind).trans (List.sublist_append_right before _)
  have ordered := (inOrder_of_scan scanned).sublist (inside.map _)
  rw [one.span_eq.2]
  exact one.spread.inOrder ordered

end Texts

-- Items follow one another in the text as they are listed, the parts of a template follow one
-- another inside it, and each item is what its own stretch of the text is read as.
theorem spans_faithful (ns after : Namespaces) (text : String) :
    (∀ items, templates ns text = ⟨.ok items, after⟩ →
      InOrder (items.map Template.span) ∧
      (∀ t ∈ items, InOrder t.parts ∧
        ∀ s ∈ t.parts, t.span.start ≤ s.start ∧ s.stop ≤ t.span.stop) ∧
      ∀ earlier t later, items = earlier ++ t :: later →
        ReadAgain template Template.respan ns text earlier t t.span) ∧
    ∀ items, instances ns text = ⟨.ok items, after⟩ →
      InOrder (items.map Instance.span) ∧
      ∀ earlier i later, items = earlier ++ i :: later →
        ReadAgain groundInstance Instance.respan ns text earlier i i.span := by
  refine ⟨fun items accepted => ?_, fun items accepted => ?_⟩
  · have place : ∀ ns us t, TemplateRun ns us t → us ≠ [] ∧ t.span = spanOf us :=
      fun _ _ _ run => run.span_eq
    refine ⟨template_grammar.inOrder place accepted, parts_inOrder accepted, ?_⟩
    intro earlier t later split
    refine template_grammar.readAgain place (fun origin same run => ?_) accepted split
    obtain ⟨t', run', back⟩ := run.respelled joins_id (joins_shift origin) same
    exact ⟨t', run', back.trans (Template.respan_id _)⟩
  · have place : ∀ ns us i, InstanceRun ns us i → us ≠ [] ∧ i.span = spanOf us :=
      fun _ _ _ run => run.span_eq
    refine ⟨groundInstance_grammar.inOrder place accepted, ?_⟩
    intro earlier i later split
    refine groundInstance_grammar.readAgain place (fun origin same run => ?_) accepted split
    exact run.respelled joins_id (joins_shift origin) same

def successive : String :=
  "@prefix p: <u:> . p:A[ ?x = \"é\" ] :: \x7b p:B(?x) \x7d . # note\n" ++
    "@prefix p: <v:> . p:C[ ?y,\n ?z ] :: \x7b p:B(?z) \x7d ."

theorem spans_faithful_successive :
    ∃ t u after, templates .standard successive = ⟨.ok [t, u], after⟩ ∧
      t.span = ⟨18, 51, 1, 19⟩ ∧ u.span = ⟨77, 108, 2, 19⟩ ∧
      u.parts = [⟨82, 84, 2, 24⟩, ⟨87, 89, 3, 2⟩, ⟨97, 104, 3, 12⟩] ∧
      InOrder [t.span, u.span] ∧ InOrder u.parts ∧
      ReadAgain template Template.respan .standard successive [t] u u.span := by
  have computed : (templates .standard successive).outcome.toOption.map
      (List.map fun t => (t.span, t.parts)) =
        some [(⟨18, 51, 1, 19⟩, [⟨23, 32, 1, 24⟩, ⟨40, 47, 1, 40⟩]),
          (⟨77, 108, 2, 19⟩, [⟨82, 84, 2, 24⟩, ⟨87, 89, 3, 2⟩, ⟨97, 104, 3, 12⟩])] := by
    decide +kernel
  obtain ⟨items, accepted, same⟩ := Option.map_eq_some_iff.mp computed
  obtain ⟨t, others, rfl, first, same⟩ := List.map_eq_cons_iff.mp same
  obtain ⟨u, rfl, second⟩ := List.map_eq_singleton_iff.mp same
  have reading : templates .standard successive =
      ⟨.ok [t, u], (templates .standard successive).namespaces⟩ := by rw [← ok_of_toOption accepted]
  obtain ⟨order, parts, again⟩ := (spans_faithful .standard _ successive).1 _ reading
  exact ⟨t, u, _, reading, congrArg Prod.fst first, congrArg Prod.fst second,
    congrArg Prod.snd second, order, (parts u (by simp)).1, again [t] u [] rfl⟩

end Document

end Stottr

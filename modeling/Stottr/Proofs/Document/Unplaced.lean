import Stottr.Proofs.Document.Respelled
import Stottr.Proofs.Token.Leading

namespace Stottr

def Parameter.unplaced (p : Parameter) : Parameter := { p with span := .nowhere }

def Call.unplaced (inner : Call) : Call := { inner with span := .nowhere }

def Body.unplaced : Body → Body
  | .calls inside => .calls (inside.map Call.unplaced)
  | base => base

def Template.unplaced (t : Template) : Template :=
  ⟨t.iri, t.parameters.map Parameter.unplaced, t.body.unplaced, .nowhere⟩

def Instance.unplaced (i : Instance) : Instance := { i with span := .nowhere }

theorem Template.unplaced_eq (t : Template) : t.unplaced = t.respan fun _ => .nowhere := by
  obtain ⟨iri, parameters, body, span⟩ := t
  cases body <;> rfl

namespace Document

def SameKinds (ts us : List Token) : Prop := us.map Token.kind = ts.map Token.kind

namespace SameKinds

variable {t : Token} {ts ts' us : List Token}

theorem nil (same : SameKinds [] us) : us = [] := List.map_eq_nil_iff.mp same

theorem cons (same : SameKinds (t :: ts) us) :
    ∃ u vs, us = u :: vs ∧ u.kind = t.kind ∧ SameKinds ts vs := List.map_eq_cons_iff.mp same

theorem append (same : SameKinds (ts ++ ts') us) :
    ∃ vs vs', us = vs ++ vs' ∧ SameKinds ts vs ∧ SameKinds ts' vs' := by
  rw [SameKinds, List.map_append] at same
  exact List.map_eq_append_iff.mp same

theorem single (same : SameKinds [t] us) : ∃ u, us = [u] ∧ u.kind = t.kind := by
  obtain ⟨u, vs, rfl, kind, rest⟩ := same.cons
  rw [rest.nil]
  exact ⟨u, rfl, kind⟩

end SameKinds

section Runs

variable {ns : Namespaces} {ts us : List Token}

theorem joins_nowhere : Joins fun _ => .nowhere := fun _ _ => rfl

theorem respelled_of_sameKinds (same : SameKinds ts us) :
    Respelled ns (fun _ => .nowhere) (fun _ => .nowhere) ts us := by
  induction ts generalizing us with
  | nil =>
    rw [same.nil]
    exact List.Forall₂.nil
  | cons t ts ih =>
    obtain ⟨u, vs, rfl, kind, rest⟩ := same.cons
    exact List.Forall₂.cons ⟨kind ▸ .same _, rfl⟩ (ih rest)

theorem TemplateRun.relaid {t : Template} (run : TemplateRun ns ts t) (same : SameKinds ts us) :
    ∃ t', TemplateRun ns us t' ∧ t'.unplaced = t.unplaced := by
  simp only [Template.unplaced_eq]
  exact run.respelled joins_nowhere joins_nowhere (respelled_of_sameKinds same)

theorem InstanceRun.relaid {i : Instance} (run : InstanceRun ns ts i) (same : SameKinds ts us) :
    ∃ i', InstanceRun ns us i' ∧ i'.unplaced = i.unplaced :=
  run.respelled joins_nowhere joins_nowhere (respelled_of_sameKinds same)

theorem BindingRun.relaid {b : Binding} (run : BindingRun ts b) (same : SameKinds ts us) :
    BindingRun us b := by
  cases run with
  | binding begins named spaced stops =>
    obtain ⟨keyword, rest, rfl, kind, sameRest⟩ := same.cons
    obtain ⟨name, rest, rfl, kindName, sameRest⟩ := sameRest.cons
    obtain ⟨space, rest, rfl, kindSpace, sameRest⟩ := sameRest.cons
    obtain ⟨dot, rfl, kindDot⟩ := sameRest.single
    exact .binding (kind.trans begins) (kindName.trans named) (kindSpace.trans spaced)
      (kindDot.trans stops)

theorem Declarations.relaid {α : Type} {f : α → α} {Item : Namespaces → List Token → α → Prop}
    {after : Namespaces} {items : List α} (run : Declarations Item ns ts items after)
    (each : ∀ {ns ts us a}, SameKinds ts us → Item ns ts a → ∃ b, Item ns us b ∧ f b = f a)
    (same : SameKinds ts us) :
    ∃ items', Declarations Item ns us items' after ∧ items'.map f = items.map f := by
  induction run generalizing us with
  | done =>
    rw [same.nil]
    exact ⟨[], .done, rfl⟩
  | binding bound _ ih =>
    obtain ⟨front, rest, rfl, sameFront, sameRest⟩ := same.append
    obtain ⟨items', others, alike⟩ := ih sameRest
    exact ⟨items', .binding (bound.relaid sameFront) others, alike⟩
  | item one _ ih =>
    obtain ⟨front, rest, rfl, sameFront, sameRest⟩ := same.append
    obtain ⟨b, one', alikeOne⟩ := each sameFront one
    obtain ⟨items', others, alike⟩ := ih sameRest
    exact ⟨b :: items', .item one' others, congrArg₂ List.cons alikeOne alike⟩

end Runs

section Texts

variable {α : Type} {item : Item α} {Run : Namespaces → List Token → α → Prop} {f : α → α}

def Yields (item : Item α) (f : α → α) (ns : Namespaces) (text : String) (shapes : List α)
    (after : Namespaces) : Prop :=
  ∃ items, read item ns text = ⟨.ok items, after⟩ ∧ items.map f = shapes

theorem yields_of_sameKinds (grammar : Grammar item Run)
    (each : ∀ {ns ts us a}, SameKinds ts us → Run ns ts a → ∃ b, Run ns us b ∧ f b = f a)
    {text text' : String} {stream stream' : TokenStream} (scanned : Token.scan text = .ok stream)
    (scanned' : Token.scan text' = .ok stream') (same : SameKinds stream.tokens stream'.tokens)
    {ns after : Namespaces} {shapes : List α} (yields : Yields item f ns text shapes after) :
    Yields item f ns text' shapes after := by
  obtain ⟨items, accepted, rfl⟩ := yields
  obtain ⟨found, isFound, declarations⟩ := grammar.read_iff.mp accepted
  cases scanned.symm.trans isFound
  obtain ⟨items', declarations', alike⟩ := declarations.relaid each same
  exact ⟨items', grammar.read_iff.mpr ⟨stream', scanned', declarations'⟩, alike⟩

variable {text text' : String} {stream stream' : TokenStream} {ns after : Namespaces}

theorem template_yields_iff {shapes : List Template} (scanned : Token.scan text = .ok stream)
    (scanned' : Token.scan text' = .ok stream') (same : SameKinds stream.tokens stream'.tokens) :
    Yields template Template.unplaced ns text shapes after ↔
      Yields template Template.unplaced ns text' shapes after := by
  have oneWay := @yields_of_sameKinds _ template TemplateRun Template.unplaced template_grammar
    fun same run => run.relaid same
  exact ⟨oneWay scanned scanned' same, oneWay scanned' scanned same.symm⟩

theorem instance_yields_iff {shapes : List Instance} (scanned : Token.scan text = .ok stream)
    (scanned' : Token.scan text' = .ok stream') (same : SameKinds stream.tokens stream'.tokens) :
    Yields groundInstance Instance.unplaced ns text shapes after ↔
      Yields groundInstance Instance.unplaced ns text' shapes after := by
  have oneWay := @yields_of_sameKinds _ groundInstance InstanceRun Instance.unplaced
    groundInstance_grammar fun same run => run.relaid same
  exact ⟨oneWay scanned scanned' same, oneWay scanned' scanned same.symm⟩

end Texts

-- Layout between tokens does not matter: neither for the kinds of the tokens nor for what the text
-- declares, apart from places.
theorem layout_immaterial {text front gap after : String} {stream : TokenStream}
    (scanned : Token.scan text = .ok stream) (whole : text = front ++ after)
    (between : front = "" ∨ ∃ t ∈ stream.tokens, t.span.stop = front.utf8ByteSize)
    (layout : (∀ c ∈ gap.toList, Token.isSpace c = true) ∨
      ∃ note, gap = "#" ++ note ++ "\n" ∧ ∀ c ∈ note.toList, Token.isLineEnd c = false) :
    (∃ relaid, Token.scan (front ++ gap ++ after) = .ok relaid ∧
      relaid.tokens.map Token.kind = stream.tokens.map Token.kind) ∧
    ∀ ns left,
      (∀ shapes, Yields template Template.unplaced ns (front ++ gap ++ after) shapes left ↔
        Yields template Template.unplaced ns text shapes left) ∧
      ∀ shapes, Yields groundInstance Instance.unplaced ns (front ++ gap ++ after) shapes left ↔
        Yields groundInstance Instance.unplaced ns text shapes left := by
  have place : Token.Between stream.tokens front.toList := by
    refine between.imp (fun none => by rw [none]; rfl) ?_
    rintro ⟨t, member, ends⟩
    exact ⟨t, member, by rw [ends, Text.Position.behind, String.ofList_toList]⟩
  have isLayout : Token.Layout false gap.toList := by
    rcases layout with blank | ⟨note, rfl, inLine⟩
    · exact Token.layout_of_spaces blank
    · have comment := Token.layout_of_comment inLine
      simpa using comment
  have spelled : text.toList = front.toList ++ after.toList := by rw [whole, String.toList_append]
  obtain ⟨relaid, scanned', kinds⟩ := Token.kinds_relaid scanned spelled place isLayout
  have same : String.ofList (front.toList ++ (gap.toList ++ after.toList)) =
      front ++ gap ++ after := by
    rw [← String.toList_append, ← String.toList_append, String.ofList_toList, String.append_assoc]
  rw [same] at scanned'
  refine ⟨⟨relaid, scanned', kinds⟩, fun ns left => ⟨fun shapes => ?_, fun shapes => ?_⟩⟩
  · exact template_yields_iff scanned' scanned kinds.symm
  · exact instance_yields_iff scanned' scanned kinds.symm

theorem layout_immaterial_note :
    ∃ stream, Token.scan "ottr:A(1,\"b\"@en)." = .ok stream ∧
      (∃ t ∈ stream.tokens, t.span.stop = "ottr:A(1".utf8ByteSize) ∧
      (∃ relaid, Token.scan ("ottr:A(1" ++ "#.5\n" ++ ",\"b\"@en).") = .ok relaid ∧
        relaid.tokens.map Token.kind = stream.tokens.map Token.kind) ∧
      ∀ left shapes, Yields groundInstance Instance.unplaced .standard
          ("ottr:A(1" ++ "#.5\n" ++ ",\"b\"@en).") shapes left ↔
        Yields groundInstance Instance.unplaced .standard "ottr:A(1,\"b\"@en)." shapes left := by
  have scanned : Token.scan "ottr:A(1,\"b\"@en)." = .ok ⟨[
      ⟨.iri (.prefixed "ottr" "A"), ⟨0, 6, 1, 1⟩⟩, ⟨.openParen, ⟨6, 7, 1, 7⟩⟩,
      ⟨.integer "1", ⟨7, 8, 1, 8⟩⟩, ⟨.comma, ⟨8, 9, 1, 9⟩⟩,
      ⟨.literal "b" (some (.language "en")), ⟨9, 15, 1, 10⟩⟩, ⟨.closeParen, ⟨15, 16, 1, 16⟩⟩,
      ⟨.dot, ⟨16, 17, 1, 17⟩⟩], ⟨17, 17, 1, 18⟩⟩ := by decide +kernel
  have ends : (⟨.integer "1", ⟨7, 8, 1, 8⟩⟩ : Token).span.stop = "ottr:A(1".utf8ByteSize := rfl
  have inLine : ∀ c ∈ ".5".toList, Token.isLineEnd c = false := by simp [Token.isLineEnd]
  obtain ⟨relaid, declared⟩ := @layout_immaterial _ "ottr:A(1" "#.5\n" ",\"b\"@en)." _ scanned rfl
    (.inr ⟨_, by decide, ends⟩) (.inr ⟨".5", rfl, inLine⟩)
  exact ⟨_, scanned, ⟨_, by decide, ends⟩, relaid, fun left shapes =>
    (declared .standard left).2 shapes⟩

end Document

end Stottr

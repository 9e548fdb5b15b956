import Stottr.Proofs.Document.Rest
import Stottr.Proofs.Token.Scans

namespace Stottr

namespace Text.Position

theorem offset_le_after (p : Position) (cs : List Char) : p.offset ≤ (p.after cs).offset := by
  induction cs generalizing p with
  | nil => exact Nat.le_refl _
  | cons c cs ih =>
    refine Nat.le_trans ?_ (ih (p.next c))
    unfold next
    split <;> exact Nat.le_add_right _ _

theorem line_le_after (p : Position) (cs : List Char) : p.line ≤ (p.after cs).line := by
  induction cs generalizing p with
  | nil => exact Nat.le_refl _
  | cons c cs ih =>
    refine Nat.le_trans ?_ (ih (p.next c))
    unfold next
    split
    · exact Nat.le_succ _
    · exact Nat.le_refl _

end Text.Position

namespace Token

open Text

theorem Stands.line_pos {text front spelled behind : List Char} {span : Span}
    (stands : Stands text span front spelled behind) : 0 < span.line := by
  rw [stands.span_eq]
  exact Position.start.line_le_after front

theorem Scans.ends {p : Position} {cs : List Char} {tokens : List Token}
    (scans : Scans p cs tokens) :
    ∀ t ∈ tokens, ∃ part behind, cs = part ++ behind ∧ t.span.stop = (p.after part).offset := by
  induction scans with
  | stop => exact nofun
  | @token p first last cs c rest found later starts read before through remainder ih =>
    subst before through
    have parts := lexeme_parts starts found.more
    intro t member
    rcases List.mem_cons.mp member with rfl | member
    · exact ⟨_, _, parts, by rw [Position.after_append]; rfl⟩
    · obtain ⟨part, behind, split, stop⟩ := ih t member
      refine ⟨cs.take (triviaWidth cs) ++ (c :: rest.take found.more) ++ part, behind, ?_, ?_⟩
      · rw [List.append_assoc, ← split]
        exact parts
      · rw [stop, Position.after_append, Position.after_append]

theorem Scans.through {text front cs : List Char} {tokens : List Token}
    (scans : Scans (Position.start.after front) cs tokens) (whole : text = front ++ cs)
    {t u : Token} {rest : List Token} (within : t :: rest <:+ tokens) (member : u ∈ t :: rest) :
    ∃ front spelled behind, Stands text (t.span.through u.span) front spelled behind := by
  generalize origin : Position.start.after front = p at scans
  induction scans generalizing front with
  | stop => cases List.eq_nil_of_suffix_nil within
  | @token p first last cs c rest' found later starts read before through remainder ih =>
    subst origin before through
    have parts := text_parts whole starts found.more
    rcases List.suffix_cons_iff.mp within with same | within
    · cases same
      rcases List.mem_cons.mp member with rfl | member
      · refine ⟨_, _, _, parts, ?_⟩
        simp only [Span.through, Span.between, Position.after_append, Nat.max_self]
      · obtain ⟨part, behind, split, stop⟩ := remainder.ends u member
        refine ⟨front ++ cs.take (triviaWidth cs), c :: rest'.take found.more ++ part, behind,
          ?_, ?_⟩
        · rw [parts, split]
          simp only [List.append_assoc]
        · simp only [Span.through, Span.between, Position.after_append, stop,
            Nat.max_eq_left (Position.offset_le_after _ part)]
    · refine @ih (front ++ cs.take (triviaWidth cs) ++ (c :: rest'.take found.more)) parts within ?_
      simp only [Position.after_append]

end Token

namespace Document

open Token

theorem templates_placed {ns : Namespaces} {text : String} {templates : List Template}
    (accepted : (Document.templates ns text).outcome = .ok templates) :
    ∀ t ∈ templates, ∀ inner ∈ t.calls, 0 < inner.span.line := by
  obtain ⟨stream, scanned, parts⟩ :=
    read_parts (fun _ _ _ read => (template_items read).1) accepted
  intro t member inner called
  obtain ⟨r, us, one, within, read, rfl⟩ := parts t member
  obtain ⟨scope, vs, call, inside, taken, rfl⟩ := (template_items read).2 inner called
  obtain ⟨last, span⟩ := (call_rest taken).2
  cases vs with
  | nil => exact absurd call.shorter (Nat.not_lt_zero _)
  | cons first rest =>
    have present : first ∈ stream.tokens := (inside.trans within).mem List.mem_cons_self
    obtain ⟨_, _, _, _, _, _, stands⟩ := stands_of_scan scanned first present
    rw [span]
    exact stands.line_pos

-- An instance takes up the text from its first token through the dot behind it.
theorem instances_stand {ns : Namespaces} {text : String} {instances : List Instance}
    (accepted : (Document.instances ns text).outcome = .ok instances) :
    ∀ i ∈ instances, ∃ front spelled behind, Stands text.toList i.span front spelled behind := by
  obtain ⟨stream, scanned, parts⟩ :=
    read_parts (fun _ _ _ read => (groundInstance_items read).1) accepted
  intro i member
  obtain ⟨r, us, one, within, read, rfl⟩ := parts i member
  obtain ⟨dot, present, span⟩ := (groundInstance_items read).2
  cases us with
  | nil => cases present
  | cons first rest =>
    rw [span]
    exact @Scans.through text.toList [] _ _ (scans_of_scanFrom scanned) rfl first dot rest within
      present

end Document

theorem Library.FromTexts.calls_placed {lib : Library} (texts : lib.FromTexts) :
    ∀ t ∈ lib.items, ∀ inner ∈ t.calls, 0 < inner.span.line := by
  refine texts.items nofun nofun ?_
  intro ns text templates accepted
  exact Document.templates_placed accepted

end Stottr

import Stottr.Proofs.Document.Spans
import Stottr.Proofs.Token.Leading

namespace Stottr

namespace Text

-- The place that is this far behind an origin. A column counts from that of the origin only on the
-- first line.
def Position.shift (origin p : Position) : Position :=
  ⟨origin.offset + p.offset, origin.line + p.line - 1,
    if p.line = 1 then origin.column + p.column - 1 else p.column⟩

def Span.shift (origin : Position) (s : Span) : Span :=
  ⟨origin.offset + s.start, origin.offset + s.stop, origin.line + s.line - 1,
    if s.line = 1 then origin.column + s.column - 1 else s.column⟩

theorem Position.shift_next {p : Position} (line : 0 < p.line) (column : 0 < p.column)
    (origin : Position) (c : Char) : (origin.shift p).next c = origin.shift (p.next c) := by
  by_cases feed : c = '\n'
  · simp only [next, shift, feed, if_true, Position.mk.injEq]
    exact ⟨Nat.add_assoc _ _ _, by omega, (if_neg (by omega)).symm⟩
  · simp only [next, shift, feed, if_false, Position.mk.injEq]
    refine ⟨Nat.add_assoc _ _ _, trivial, ?_⟩
    split <;> omega

theorem Position.after_eq_shift (origin : Position) (cs : List Char) :
    origin.after cs = origin.shift (start.after cs) := by
  induction cs using List.reverseRecOn with
  | nil => rfl
  | append_singleton cs c ih =>
    rw [after_append, after_append, ih, start_after]
    exact shift_next (Nat.add_pos_left Nat.one_pos _) (Nat.add_pos_left Nat.one_pos _) origin c

theorem Span.shift_between (origin first last : Position) :
    (Span.between first last).shift origin =
      .between (origin.shift first) (origin.shift last) := rfl

end Text

namespace Token

open Text

variable {p origin : Position} {cs kept gone front : List Char}
  {tokens earlier later run : List Token} {t u : Token}

theorem Scans.shifted (scans : Scans (origin.after front) cs tokens) :
    ∃ tokens', Scans (Position.start.after front) cs tokens' ∧
      List.Forall₂ (fun t u => u.kind = t.kind ∧ u.span.shift origin = t.span) tokens tokens' := by
  generalize here : origin.after front = p at scans
  induction scans generalizing front with
  | stop blank => exact ⟨[], .stop blank, .nil⟩
  | @token p first last cs c rest found later starts read before through remainder ih =>
    subst here before through
    obtain ⟨tokens', scans, same⟩ :=
      @ih (front ++ cs.take (triviaWidth cs) ++ (c :: rest.take found.more))
        (by rw [Position.after_append, Position.after_append])
    rw [Position.after_append, Position.after_append] at scans
    refine ⟨_, .token starts read rfl rfl scans, .cons ⟨rfl, ?_⟩ same⟩
    simp only [Span.shift_between, ← Position.after_append, ← Position.after_eq_shift]

theorem Leads.first (leads : Leads gone p kept (t :: tokens)) :
    ∃ gap spelled, kept = gap ++ spelled ∧ Layout false gap ∧
      Leads gone (p.after gap) spelled (t :: tokens) ∧
      ∃ part more, spelled = part ++ more ∧
        t.span = Span.between (p.after gap) ((p.after gap).after part) := by
  cases leads with
  | @token _ _ _ gap spelled kept c kind _ layout read before through remainder =>
    subst before through
    refine ⟨gap, c :: (spelled ++ kept), rfl, layout, ?_, c :: spelled, kept, rfl, rfl⟩
    rw [← List.nil_append (c :: _)]
    exact .token .nil read rfl rfl remainder

theorem Leads.through {part more spelled : List Char} (leads : Leads gone p spelled run)
    (parts : spelled = part ++ more) (begins : t.span = Span.between p (p.after part))
    (last : run.getLast? = some u) : t.span.through u.span = Span.between p (p.after spelled) := by
  have ends : u.span.stop = (p.after spelled).offset := leads.stop u last
  have inside : (p.after part).offset ≤ (p.after spelled).offset := by
    rw [parts, Position.after_append]
    exact Position.offset_le_after _ more
  simp only [Span.through, begins, Span.between, ends, Nat.max_eq_left inside]

-- Successive tokens stand in a stretch of the text. What is in front of it has the tokens before
-- them, and the stretch alone has these.
theorem Scans.excerpt (scans : Scans .start cs (earlier ++ (run ++ later)))
    (first : run.head? = some t) (last : run.getLast? = some u) :
    ∃ front spelled behind, Stands cs (t.span.through u.span) front spelled behind ∧
      Scans .start front earlier ∧ ∃ alone, Scans .start spelled alone ∧
        List.Forall₂ (fun t u => u.kind = t.kind ∧
          u.span.shift (Position.start.after front) = t.span) run alone := by
  obtain ⟨others, rfl⟩ := List.head?_eq_some_iff.mp first
  obtain ⟨kept, gone, rfl, leads, scans⟩ := scans.cut
  obtain ⟨here, behind, rfl, leads', -⟩ := scans.cut
  obtain ⟨gap, spelled, rfl, layout, leads', part, more, parts, begins⟩ := leads'.first
  rw [← Position.after_append] at leads' begins
  refine ⟨kept ++ gap, spelled, behind, ⟨by simp only [List.append_assoc], ?_⟩, ?_, ?_⟩
  · rw [leads'.through parts begins last, ← Position.after_append]
  · rw [List.append_assoc] at leads
    have cut : Leads (gap ++ []) .start kept earlier :=
      leads.again parted_nil fun torn => absurd torn layout.ne_colon
    rw [List.append_nil] at cut
    have scans := cut.scans (scans_of_layout layout)
    rwa [List.append_nil] at scans
  · have cut : Leads [] (Position.start.after (kept ++ gap)) spelled (t :: others) :=
      @Leads.again _ _ [] _ _ [] leads' parted_nil nofun
    have scans : Scans ((Position.start.after (kept ++ gap)).after []) (spelled ++ [])
        (t :: others ++ []) := cut.scans (.stop List.drop_nil)
    rw [List.append_nil, List.append_nil] at scans
    exact scans.shifted

end Token

end Stottr

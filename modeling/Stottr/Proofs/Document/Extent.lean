import Stottr.Proofs.Document.Grammar
import Stottr.Proofs.Token.Tiling

namespace Stottr

def Template.parts (t : Template) : List Text.Span :=
  t.parameters.map Parameter.span ++ t.calls.map Call.span

namespace Document

variable {α : Type} {ts us : List Token} {spans spans' : List Text.Span}

-- Spans that take up something each, one behind the other.
structure InOrder (spans : List Text.Span) : Prop where
  proper : ∀ s ∈ spans, s.start < s.stop
  apart : spans.Pairwise fun s s' => s.stop ≤ s'.start

theorem InOrder.sublist (ordered : InOrder spans) (kept : spans'.Sublist spans) : InOrder spans' :=
  ⟨fun s member => ordered.proper s (kept.subset member), ordered.apart.sublist kept⟩

structure Bounds (ts : List Token) (first last : Token) : Prop where
  first_mem : first ∈ ts
  last_mem : last ∈ ts
  start_eq : (spanOf ts).start = first.span.start
  stop_eq : (spanOf ts).stop = last.span.stop
  within : ∀ t ∈ ts, first.span.start ≤ t.span.start ∧ t.span.stop ≤ last.span.stop

theorem exists_bounds (ordered : InOrder (ts.map Token.span)) (given : ts ≠ []) :
    ∃ first last, Bounds ts first last := by
  obtain ⟨front, last, concat⟩ := (List.eq_nil_or_concat ts).resolve_left given
  rw [List.concat_eq_append] at concat
  obtain ⟨first, rest, rfl⟩ := List.exists_cons_of_ne_nil given
  obtain ⟨proper, apart⟩ := ordered
  rw [List.forall_mem_map] at proper
  rw [List.pairwise_map] at apart
  have begins : ∀ t ∈ first :: rest, first.span.start ≤ t.span.start := by
    intro t member
    rcases List.mem_cons.mp member with rfl | later
    · exact Nat.le_refl _
    · have before := List.rel_of_pairwise_cons apart later
      have something := proper first List.mem_cons_self
      omega
  rw [concat] at apart
  have ends : ∀ t ∈ first :: rest, t.span.stop ≤ last.span.stop := by
    intro t member
    rcases List.mem_append.mp (concat ▸ member) with earlier | final
    · have before := (List.pairwise_append.mp apart).2.2 t earlier last List.mem_cons_self
      have something := proper last (concat ▸ by simp)
      omega
    · rw [List.mem_singleton.mp final]
  have stop : lastSpan (first :: rest) = last.span := by simp [concat, lastSpan]
  refine ⟨first, last, List.mem_cons_self, concat ▸ by simp, rfl, ?_, fun t member =>
    ⟨begins t member, ends t member⟩⟩
  rw [spanOf, stop]
  exact Nat.max_eq_left (ends first List.mem_cons_self)

theorem inOrder_of_scan {text : String} {stream : TokenStream}
    (scanned : Token.scan text = .ok stream) : InOrder (stream.tokens.map Token.span) := by
  obtain ⟨-, proper, apart, -⟩ := Token.tiles_of_scan scanned
  exact ⟨List.forall_mem_map.mpr proper, List.pairwise_map.mpr apart⟩

-- The spans of successive runs of tokens, which may have other tokens between them.
def Spread (ts : List Token) (spans : List Text.Span) : Prop :=
  ∃ runs : List (List Token), (∀ run ∈ runs, run ≠ []) ∧ runs.map spanOf = spans ∧
    runs.flatten.Sublist ts

namespace Spread

theorem nil (ts : List Token) : Spread ts [] := ⟨[], nofun, rfl, List.nil_sublist ts⟩

theorem one (given : ts ≠ []) : Spread ts [spanOf ts] :=
  ⟨[ts], by simpa using given, rfl, by simp⟩

theorem mono (spread : Spread ts spans) (kept : ts.Sublist us) : Spread us spans := by
  obtain ⟨runs, given, same, inside⟩ := spread
  exact ⟨runs, given, same, inside.trans kept⟩

theorem behind (spread : Spread ts spans) (t : Token) : Spread (t :: ts) spans :=
  spread.mono (List.sublist_cons_self t ts)

theorem append (spread : Spread ts spans) (spread' : Spread us spans') :
    Spread (ts ++ us) (spans ++ spans') := by
  obtain ⟨runs, given, rfl, inside⟩ := spread
  obtain ⟨runs', given', rfl, inside'⟩ := spread'
  refine ⟨runs ++ runs', List.forall_mem_append.mpr ⟨given, given'⟩, List.map_append, ?_⟩
  rw [List.flatten_append]
  exact inside.append inside'

theorem inOrder (spread : Spread ts spans) (ordered : InOrder (ts.map Token.span)) :
    InOrder spans ∧ ∀ s ∈ spans, (spanOf ts).start ≤ s.start ∧ s.stop ≤ (spanOf ts).stop := by
  obtain ⟨runs, given, rfl, inside⟩ := spread
  have flat : InOrder (runs.flatten.map Token.span) := ordered.sublist (inside.map _)
  have bounded : ∀ run ∈ runs, ∃ first last, Bounds run first last := fun run member =>
    exists_bounds (flat.sublist ((List.sublist_flatten_of_mem member).map _)) (given run member)
  refine ⟨⟨?_, ?_⟩, ?_⟩
  · refine List.forall_mem_map.mpr fun run member => ?_
    obtain ⟨first, last, bounds⟩ := bounded run member
    have something := flat.proper first.span
      (List.mem_map_of_mem (List.mem_flatten_of_mem member bounds.first_mem))
    have within := bounds.within first bounds.first_mem
    rw [bounds.start_eq, bounds.stop_eq]
    omega
  · have apart := (List.pairwise_flatten.mp (List.pairwise_map.mp flat.apart)).2
    refine List.pairwise_map.mpr (apart.imp_of_mem ?_)
    intro run run' member member' before
    obtain ⟨first, last, bounds⟩ := bounded run member
    obtain ⟨first', last', bounds'⟩ := bounded run' member'
    rw [bounds.stop_eq, bounds'.start_eq]
    exact before last bounds.last_mem first' bounds'.first_mem
  · refine List.forall_mem_map.mpr fun run member => ?_
    obtain ⟨first, last, bounds⟩ := bounded run member
    have first_mem := inside.subset (List.mem_flatten_of_mem member bounds.first_mem)
    have last_mem := inside.subset (List.mem_flatten_of_mem member bounds.last_mem)
    obtain ⟨begin, finish, whole⟩ := exists_bounds ordered (List.ne_nil_of_mem first_mem)
    rw [bounds.start_eq, bounds.stop_eq, whole.start_eq, whole.stop_eq]
    exact ⟨(whole.within first first_mem).1, (whole.within last last_mem).2⟩

end Spread

section Runs

variable {ns after : Namespaces} {scope : List Parameter}

theorem Listed.spread {Item : List α → List Token → α → Prop} {span : α → Text.Span}
    {found all : List α} (listed : Listed Item found ts all)
    (each : ∀ found us a, Item found us a → us ≠ [] ∧ span a = spanOf us) :
    ∃ later, all = found.reverse ++ later ∧ Spread ts (later.map span) := by
  induction listed with
  | stop => exact ⟨[], (List.append_nil _).symm, .nil _⟩
  | @last found ts a one =>
    obtain ⟨given, place⟩ := each _ _ _ one
    refine ⟨[a], List.reverse_cons, ?_⟩
    rw [List.map_singleton, place]
    exact .one given
  | @next found all ts us a comma one separator others ih =>
    obtain ⟨given, place⟩ := each _ _ _ one
    obtain ⟨later, same, spread⟩ := ih
    refine ⟨a :: later, by simp [same], ?_⟩
    rw [List.map_cons, place]
    exact (Spread.one given).append (spread.behind comma)

theorem Listed.spread_nil {Item : List α → List Token → α → Prop} {span : α → Text.Span}
    {all : List α} (listed : Listed Item [] ts all)
    (each : ∀ found us a, Item found us a → us ≠ [] ∧ span a = spanOf us) :
    Spread ts (all.map span) := by
  obtain ⟨later, same, spread⟩ := listed.spread each
  rwa [same]

theorem ParameterRun.span_eq {index : Nat} {p : Parameter} (run : ParameterRun ns index ts p) :
    ts ≠ [] ∧ p.span = spanOf ts := by
  cases run with
  | parameter => exact ⟨by simp, rfl⟩

theorem CallRun.span_eq {inner : Call} (run : CallRun ns scope ts inner) :
    ts ≠ [] ∧ inner.span = spanOf ts := by
  cases run with
  | call => exact ⟨by simp, rfl⟩

theorem TemplateRun.span_eq {t : Template} (run : TemplateRun ns ts t) :
    ts ≠ [] ∧ t.span = spanOf ts := by
  cases run with
  | template => exact ⟨by simp, rfl⟩

theorem InstanceRun.span_eq {i : Instance} (run : InstanceRun ns ts i) :
    ts ≠ [] ∧ i.span = spanOf ts := by
  cases run with
  | ground => exact ⟨by simp, rfl⟩

theorem TemplateRun.spread {t : Template} (run : TemplateRun ns ts t) : Spread ts t.parts := by
  cases run with
  | @template names signature body opening closing colons begins ends dot iri parameters calls named
      opens closes signed defined begun ended made stops =>
    have signed := signed.spread_nil fun _ _ _ one => one.1.span_eq
    have made := made.spread_nil fun _ _ _ one => one.span_eq
    have head := (Spread.nil names).append (signed.behind opening)
    have behind := ((made.behind begins).behind colons).behind closing
    have whole := (head.append behind).append (.nil [ends, dot])
    simpa [Template.parts, Template.calls] using whole

theorem Declarations.spread {Run : Namespaces → List Token → α → Prop} {span : α → Text.Span}
    {items : List α} (run : Declarations Run ns ts items after)
    (each : ∀ ns us a, Run ns us a → us ≠ [] ∧ span a = spanOf us) :
    Spread ts (items.map span) := by
  induction run with
  | done => exact .nil []
  | binding _ _ ih => exact ih.mono (List.sublist_append_right _ _)
  | item one _ ih =>
    obtain ⟨given, place⟩ := each _ _ _ one
    rw [List.map_cons, place]
    exact (Spread.one given).append ih

end Runs

end Document

end Stottr

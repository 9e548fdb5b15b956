import Mathlib.Data.List.Nodup
import Mathlib.Logic.Relation
import Stottr.Proofs.Expansion.Blame
import Stottr.Proofs.Library.Sources

namespace Stottr

theorem Template.isBase_of_calls {t : Template} {inner : Call} (made : inner ∈ t.calls) :
    t.isBase = false := by
  unfold calls at made
  unfold isBase
  split at made
  · rfl
  · cases made

namespace Library

def CallsAt (lib : Library) (caller callee : Iri) (span : Text.Span) : Prop :=
  ∃ t, lib.get? caller = some t ∧ t.isBase = false ∧
    ∃ inner ∈ t.calls, inner.template = callee ∧ inner.span = span

def Calls (lib : Library) (caller callee : Iri) : Prop := ∃ span, lib.CallsAt caller callee span

variable {lib : Library}

theorem iri_of_entry? {iri : Iri} {t : lib.Entry} (found : lib.entry? iri = some t) :
    t.val.iri = iri :=
  lib.iri_of_get? iri t.val (get?_of_entry found)

theorem callsAt_of_mem {t : Template} (held : t ∈ lib.items) {inner : Call}
    (made : inner ∈ t.calls) : lib.CallsAt t.iri inner.template inner.span :=
  ⟨t, lib.find?_of_mem t held, Template.isBase_of_calls made, inner, made, rfl, rfl⟩

end Library

namespace Expansion

-- The calls that an expansion can come to: the one that it starts with, and those in the body of a
-- template that it enters.
inductive Way (lib : Library) (start : lib.Entry) (place : Text.Span) :
    List Iri → Text.Span → lib.Entry → Prop where
  | top : Way lib start place [] place start
  | enter {path : List Iri} {span : Text.Span} {target callee : lib.Entry} {inner : Call}
    (way : Way lib start place path span target) (fresh : target.val.iri ∉ path)
    (made : inner ∈ target.val.calls) (found : lib.entry? inner.template = some callee) :
    Way lib start place (path ++ [target.val.iri]) inner.span callee

namespace Way

variable {lib : Library} {start target : lib.Entry} {place span : Text.Span} {path : List Iri}

theorem distinct (way : Way lib start place path span target) : path.Nodup := by
  induction way with
  | top => exact .nil
  | enter _ fresh _ _ ih => exact List.concat_eq_append ▸ ih.concat fresh

theorem composite (way : Way lib start place path span target) :
    ∀ iri ∈ path, ∃ t ∈ lib.items, t.isBase = false ∧ t.iri = iri := by
  induction way with
  | top => exact nofun
  | @enter _ _ target _ _ _ _ made _ ih =>
    intro iri member
    rcases List.mem_append.mp member with old | new
    · exact ih iri old
    · exact ⟨target.val, target.property, Template.isBase_of_calls made,
        (List.mem_singleton.mp new).symm⟩

theorem callsAt {inner : Call} {callee : lib.Entry} (made : inner ∈ target.val.calls)
    (found : lib.entry? inner.template = some callee) :
    lib.CallsAt target.val.iri callee.val.iri inner.span :=
  Library.iri_of_entry? found ▸ Library.callsAt_of_mem target.property made

theorem reached (way : Way lib start place path span target) :
    Relation.ReflTransGen lib.Calls start.val.iri target.val.iri := by
  induction way with
  | top => exact .refl
  | enter _ _ made found ih => exact ih.tail ⟨_, callsAt made found⟩

end Way

theorem exists_of_tooDeep {limit : Option Nat} {path : List Iri}
    (below : tooDeep limit path = true) : ∃ n, limit = some n ∧ n ≤ path.length := by
  cases limit with
  | none => cases below
  | some n => exact ⟨n, rfl, of_decide_eq_true below⟩

variable {s : Setting}

theorem error_of_perform {path : List Iri} {env : Environment} {number : Nat} {inner : Call}
    {next : Nat} {e : ExpansionError} (failed : perform s path env number inner next = .error e) :
    (s.library.entry? inner.template = none ∧
      e = ⟨.unknownTemplate inner.template, inner.span⟩) ∨
    Unfit inner.span e ∨
    ∃ callee row next, s.library.entry? inner.template = some callee ∧
      call s path false inner.span callee row next = .error e := by
  unfold perform at failed
  split at failed
  · rename_i unknown
    cases failed
    exact .inl ⟨unknown, rfl⟩
  · rename_i callee found
    split at failed
    · rename_i unfilled
      cases failed
      exact .inr (.inl (rows_unfit unfilled))
    · obtain ⟨row, _, next, failed⟩ := error_of_inOrder failed
      exact .inr (.inr ⟨callee, row, next, found, failed⟩)

-- How a call fails by itself, or for a call in its body that is never made.
inductive Stops (s : Setting) (path : List Iri) (span : Text.Span) (target : s.library.Entry) :
    ExpansionError → Prop where
  | unfit {e : ExpansionError} {called : Text.Span} (unfit : Unfit called e) :
    Stops s path span target e
  | deep {limit : Nat} (limited : s.limit = some limit) (below : limit ≤ path.length) :
    Stops s path span target ⟨.depthLimit limit target.val.iri, span⟩
  | cyclic (above : tooDeep s.limit path = false) (again : target.val.iri ∈ path) :
    Stops s path span target ⟨.cycle (path ++ [target.val.iri]), span⟩
  | missing {inner : Call} (fresh : target.val.iri ∉ path) (made : inner ∈ target.val.calls)
    (unknown : s.library.entry? inner.template = none) :
    Stops s path span target ⟨.unknownTemplate inner.template, inner.span⟩

theorem stops_of_call {start : s.library.Entry} {place : Text.Span} {path : List Iri}
    {span : Text.Span} {target : s.library.Entry} (way : Way s.library start place path span target)
    {atTop : Bool} {arguments : List Term} {next : Nat} {e : ExpansionError}
    (failed : call s path atTop span target arguments next = .error e) :
    ∃ path span target, Way s.library start place path span target ∧
      Stops s path span target e := by
  induction path using path_induction s.library generalizing
    atTop span target arguments next with
  | step path ih =>
    have stop {e'} (stops : Stops s path span target e') : ∃ path span target,
        Way s.library start place path span target ∧ Stops s path span target e' :=
      ⟨path, span, target, way, stops⟩
    have course := course s path atTop span target arguments next
    rw [failed] at course
    generalize result : (Except.error e : Result) = answer at course
    cases course with
    | skipped | statement => cases result
    | unbound binding =>
      cases result
      exact stop (.unfit (bound_unfit binding))
    | misfit | direct =>
      cases result
      exact stop (.unfit ⟨rfl, .inr rfl⟩)
    | deep _ _ _ below =>
      cases result
      obtain ⟨n, limited, below⟩ := exists_of_tooDeep below
      rw [limited]
      exact stop (.deep limited below)
    | cyclic _ _ _ above again =>
      cases result
      exact stop (.cyclic above again)
    | @entered env calls _ _ body _ fresh =>
      obtain ⟨inner, member, next, failed⟩ := error_of_inOrder result.symm
      have made : inner ∈ target.val.calls := by rwa [Template.calls, body]
      rcases error_of_perform failed with ⟨unknown, rfl⟩ | unfit | ⟨callee, row, next, found, failed⟩
      · exact stop (.missing fresh made unknown)
      · exact stop (.unfit unfit)
      · exact ih target.val target.property fresh (way.enter fresh made found) failed

end Expansion

theorem Library.stops_of_expand {lib : Library} {limit : Option Nat} {i : Instance} {scope : Scope}
    {e : ExpansionError} (failed : lib.expand limit i scope = .error e) :
    (lib.entry? i.template = none ∧ e = ⟨.unknownTemplate i.template, i.span⟩) ∨
    ∃ start path span target, start.val.iri = i.template ∧
      Expansion.Way lib start i.span path span target ∧
      Expansion.Stops ⟨lib, scope, limit⟩ path span target e := by
  unfold expand at failed
  split at failed
  · rename_i unknown
    cases failed
    exact .inl ⟨unknown, rfl⟩
  · rename_i start found
    obtain ⟨path, span, target, way, stops⟩ :=
      Expansion.stops_of_call (s := ⟨lib, scope, limit⟩) .top (error_of_map failed)
    exact .inr ⟨start, path, span, target, iri_of_entry? found, way, stops⟩

end Stottr

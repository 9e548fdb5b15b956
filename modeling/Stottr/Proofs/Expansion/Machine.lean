import Mathlib.Data.List.Perm.Subperm
import Mathlib.Logic.Relation
import Stottr.Proofs.Expansion.Course

namespace Stottr

namespace Library

def composites (lib : Library) : List Template := lib.items.filter fun t => !t.isBase

theorem mem_composites {lib : Library} {t : Template} :
    t ∈ lib.composites ↔ t ∈ lib.items ∧ t.isBase = false := by
  simp [composites]

theorem length_le_composites {lib : Library} {path : List Iri} (distinct : path.Nodup)
    (registered : ∀ iri ∈ path, ∃ t ∈ lib.composites, t.iri = iri) :
    path.length ≤ lib.composites.length := by
  have inside : path ⊆ lib.composites.map Template.iri := by
    intro iri present
    obtain ⟨t, member, rfl⟩ := registered iri present
    exact List.mem_map_of_mem member
  have bound := (List.subperm_of_subset distinct inside).length_le
  rwa [List.length_map] at bound

end Library

namespace Expansion

inductive Task (lib : Library) where
  | top (i : Instance)
  | call (atTop : Bool) (span : Text.Span) (target : lib.Entry) (arguments : List Term)
  | body (env : Environment) (number : Nat) (calls : List Call)
  | rows (span : Text.Span) (callee : lib.Entry) (rows : List (List Term))
  -- The body of this template is done.
  | leave (template : Iri)

structure Machine (lib : Library) where
  path : List Iri
  next : Nat
  out : List Statement
  tasks : List (Task lib)

inductive Progress (lib : Library) where
  | finished
  | failed (e : ExpansionError)
  | running (m : Machine lib)

variable (s : Setting)

def Machine.start (i : Instance) : Machine s.library := ⟨[], 0, [], [.top i]⟩

def advanceCall (m : Machine s.library) (atTop : Bool) (span : Text.Span)
    (target : s.library.Entry) (arguments : List Term) (rest : List (Task s.library)) :
    Progress s.library :=
  match bound s target arguments span m.next with
  | .error e => .failed e
  | .ok env =>
    match target.val.checkValues env with
    | .error misfit =>
      if misfit.reason = .noneNotAllowed ∧ atTop = false then .running { m with tasks := rest }
      else .failed (misfit.error target.val span)
    | .ok () =>
      match target.val.body with
      | .statement pattern =>
        .running { m with out := m.out ++ [pattern.statement env], tasks := rest }
      | .crossProduct => .failed ⟨.mismatch target.val.iri none none .directCrossCall, span⟩
      | .calls calls =>
        if tooDeep s.limit m.path = true then
          .failed ⟨.depthLimit (s.limit.getD 0) target.val.iri, span⟩
        else if target.val.iri ∈ m.path then
          .failed ⟨.cycle (m.path ++ [target.val.iri]), span⟩
        else .running ⟨m.path ++ [target.val.iri], m.next + 1, m.out,
          .body env m.next calls :: .leave target.val.iri :: rest⟩

def advanceBody (m : Machine s.library) (env : Environment) (number : Nat) (inner : Call)
    (later : List (Task s.library)) : Progress s.library :=
  match s.library.entry? inner.template with
  | none => .failed ⟨.unknownTemplate inner.template, inner.span⟩
  | some callee =>
    match rows inner callee.val (Argument.evaluate env fun label =>
        .ofCall label s.scope number) with
    | .error e => .failed e
    | .ok rows => .running { m with tasks := .rows inner.span callee rows :: later }

def advance (m : Machine s.library) : Progress s.library :=
  match m.tasks with
  | [] => .finished
  | .top i :: rest =>
    match s.library.entry? i.template with
    | none => .failed ⟨.unknownTemplate i.template, i.span⟩
    | some target =>
      let values := i.arguments.map (Term.relabel fun label => .ofInstance label s.scope)
      .running { m with tasks := .call true i.span target values :: rest }
  | .call atTop span target arguments :: rest => advanceCall s m atTop span target arguments rest
  | .body _ _ [] :: rest => .running { m with tasks := rest }
  | .body env number (inner :: calls) :: rest =>
    advanceBody s m env number inner (.body env number calls :: rest)
  | .rows _ _ [] :: rest => .running { m with tasks := rest }
  | .rows span callee (row :: rows) :: rest =>
    .running { m with tasks := .call false span callee row :: .rows span callee rows :: rest }
  | .leave _ :: rest => .running { m with path := m.path.dropLast, tasks := rest }

def Moves (earlier later : Machine s.library) : Prop := advance s earlier = .running later

abbrev Reaches : Machine s.library → Machine s.library → Prop := Relation.ReflTransGen (Moves s)

def Task.leaving? {lib : Library} : Task lib → Option Iri
  | .leave template => some template
  | _ => none

-- The bodies that have been entered and not left, the innermost first.
def pending {lib : Library} (tasks : List (Task lib)) : List Iri := tasks.filterMap Task.leaving?

inductive PathMove (m later : Machine s.library) : Prop where
  | kept (path : later.path = m.path) (bodies : pending later.tasks = pending m.tasks)
  | entered (t : Template) (member : t ∈ s.library.composites) (fresh : t.iri ∉ m.path)
    (path : later.path = m.path ++ [t.iri])
    (bodies : pending later.tasks = t.iri :: pending m.tasks)
  | left (iri : Iri) (path : later.path = m.path.dropLast)
    (bodies : pending m.tasks = iri :: pending later.tasks)

inductive Step (m : Machine s.library) : Machine s.library → Prop where
  | top {i : Instance} {target : s.library.Entry} {rest : List (Task s.library)}
    (tasks : m.tasks = .top i :: rest) (found : s.library.entry? i.template = some target) :
    Step m ⟨m.path, m.next, m.out, .call true i.span target
      (i.arguments.map (Term.relabel fun label => .ofInstance label s.scope)) :: rest⟩
  | skipped {atTop : Bool} {span : Text.Span} {target : s.library.Entry} {arguments : List Term}
    {rest : List (Task s.library)} {env : Environment} {misfit : Template.Misfit}
    (tasks : m.tasks = .call atTop span target arguments :: rest)
    (binding : bound s target arguments span m.next = .ok env)
    (checked : target.val.checkValues env = .error misfit)
    (absent : misfit.reason = .noneNotAllowed) (below : atTop = false) :
    Step m { m with tasks := rest }
  | statement {atTop : Bool} {span : Text.Span} {target : s.library.Entry}
    {arguments : List Term} {rest : List (Task s.library)} {env : Environment} {pattern : Pattern}
    (tasks : m.tasks = .call atTop span target arguments :: rest)
    (binding : bound s target arguments span m.next = .ok env)
    (checked : target.val.checkValues env = .ok ()) (body : target.val.body = .statement pattern) :
    Step m { m with out := m.out ++ [pattern.statement env], tasks := rest }
  | entered {atTop : Bool} {span : Text.Span} {target : s.library.Entry} {arguments : List Term}
    {rest : List (Task s.library)} {env : Environment} {calls : List Call}
    (tasks : m.tasks = .call atTop span target arguments :: rest)
    (binding : bound s target arguments span m.next = .ok env)
    (checked : target.val.checkValues env = .ok ()) (body : target.val.body = .calls calls)
    (above : tooDeep s.limit m.path = false) (fresh : target.val.iri ∉ m.path) :
    Step m ⟨m.path ++ [target.val.iri], m.next + 1, m.out,
      .body env m.next calls :: .leave target.val.iri :: rest⟩
  | bodyDone {env : Environment} {number : Nat} {rest : List (Task s.library)}
    (tasks : m.tasks = .body env number [] :: rest) : Step m { m with tasks := rest }
  | body {env : Environment} {number : Nat} {inner : Call} {calls : List Call}
    {rest : List (Task s.library)} {callee : s.library.Entry} {made : List (List Term)}
    (tasks : m.tasks = .body env number (inner :: calls) :: rest)
    (found : s.library.entry? inner.template = some callee)
    (read : rows inner callee.val (Argument.evaluate env fun label =>
      .ofCall label s.scope number) = .ok made) :
    Step m { m with tasks := .rows inner.span callee made :: .body env number calls :: rest }
  | rowsDone {span : Text.Span} {callee : s.library.Entry} {rest : List (Task s.library)}
    (tasks : m.tasks = .rows span callee [] :: rest) : Step m { m with tasks := rest }
  | row {span : Text.Span} {callee : s.library.Entry} {row : List Term}
    {others : List (List Term)} {rest : List (Task s.library)}
    (tasks : m.tasks = .rows span callee (row :: others) :: rest) :
    Step m { m with tasks := .call false span callee row :: .rows span callee others :: rest }
  | leave {template : Iri} {rest : List (Task s.library)}
    (tasks : m.tasks = .leave template :: rest) :
    Step m { m with path := m.path.dropLast, tasks := rest }

variable {s}

theorem step_of_advanceCall {m later : Machine s.library} {atTop : Bool} {span : Text.Span}
    {target : s.library.Entry} {arguments : List Term} {rest : List (Task s.library)}
    (tasks : m.tasks = .call atTop span target arguments :: rest)
    (moved : advanceCall s m atTop span target arguments rest = .running later) :
    Step s m later := by
  unfold advanceCall at moved
  split at moved
  · cases moved
  · rename_i env binding
    split at moved
    · rename_i misfit checked
      split at moved
      · rename_i excused
        cases moved
        exact .skipped tasks binding checked excused.1 excused.2
      · cases moved
    · rename_i checked
      split at moved
      · rename_i pattern body
        cases moved
        exact .statement tasks binding checked body
      · cases moved
      · rename_i calls body
        split at moved
        · cases moved
        · rename_i above
          split at moved
          · cases moved
          · rename_i fresh
            cases moved
            exact .entered tasks binding checked body ((Bool.not_eq_true _).mp above) fresh

theorem step_of_moves {m later : Machine s.library} (moved : Moves s m later) :
    Step s m later := by
  unfold Moves advance at moved
  split at moved
  · cases moved
  · rename_i tasks
    split at moved
    · cases moved
    · rename_i found
      cases moved
      exact .top tasks found
  · rename_i tasks
    exact step_of_advanceCall tasks moved
  · rename_i tasks
    cases moved
    exact .bodyDone tasks
  · rename_i tasks
    unfold advanceBody at moved
    split at moved
    · cases moved
    · rename_i found
      split at moved
      · cases moved
      · rename_i read
        cases moved
        exact .body tasks found read
  · rename_i tasks
    cases moved
    exact .rowsDone tasks
  · rename_i tasks
    cases moved
    exact .row tasks
  · rename_i tasks
    cases moved
    exact .leave tasks

theorem moves_path {m later : Machine s.library} (moved : Moves s m later) :
    PathMove s m later := by
  cases step_of_moves moved with
  | top tasks | skipped tasks | statement tasks | bodyDone tasks | body tasks | rowsDone tasks
  | row tasks => exact .kept rfl (by rw [tasks]; rfl)
  | @entered _ _ target _ _ _ _ tasks _ _ body _ fresh =>
    have composite : target.val.isBase = false := by simp [Template.isBase, body]
    refine .entered target.val ?_ fresh rfl ?_
    · exact Library.mem_composites.mpr ⟨target.property, composite⟩
    · rw [tasks]
      rfl
  | leave tasks => exact .left _ rfl (by rw [tasks]; rfl)

-- The path is at every moment what the bodies still pending say it is.
structure Sound (m : Machine s.library) : Prop where
  path : m.path = (pending m.tasks).reverse
  distinct : m.path.Nodup
  registered : ∀ iri ∈ m.path, ∃ t ∈ s.library.composites, t.iri = iri

theorem start_sound (i : Instance) : Sound (Machine.start s i) :=
  ⟨rfl, .nil, nofun⟩

theorem moves_sound {m later : Machine s.library} (sound : Sound m) (moved : Moves s m later) :
    Sound later := by
  obtain ⟨path, distinct, registered⟩ := sound
  cases moves_path moved with
  | kept same bodies =>
    rw [← same] at distinct registered
    exact ⟨by rw [same, bodies, path], distinct, registered⟩
  | entered t member fresh grown bodies =>
    refine ⟨by rw [grown, bodies, List.reverse_cons, path], ?_, ?_⟩
    · rw [grown]
      refine List.nodup_append.mpr ⟨distinct, List.pairwise_singleton _ _, ?_⟩
      intro a old b new equal
      rw [List.mem_singleton.mp new] at equal
      exact fresh (equal ▸ old)
    · intro iri present
      rw [grown] at present
      rcases List.mem_append.mp present with old | new
      · exact registered iri old
      · exact ⟨t, member, (List.mem_singleton.mp new).symm⟩
  | left iri shorter bodies =>
    have kept : m.path.dropLast.Sublist m.path := List.dropLast_sublist _
    refine ⟨?_, by rw [shorter]; exact distinct.sublist kept, ?_⟩
    · rw [shorter, path, bodies, List.reverse_cons, List.dropLast_concat]
    · intro iri present
      rw [shorter] at present
      exact registered iri (kept.subset present)

theorem reaches_sound {m later : Machine s.library} (sound : Sound m) (path : Reaches s m later) :
    Sound later := by
  induction path with
  | refl => exact sound
  | tail _ moved ih => exact moves_sound ih moved

theorem Sound.length_le {m : Machine s.library} (sound : Sound m) :
    m.path.length ≤ s.library.composites.length :=
  Library.length_le_composites sound.distinct sound.registered

-- What a result of the recursive definition says of the machine: its steps come to the rest of the
-- tasks with the statements written, or they stop at the error.
def Answers (path : List Iri) (out : List Statement) (rest : List (Task s.library))
    (m : Machine s.library) : Result → Prop
  | .ok r => Reaches s m ⟨path, r.next, out ++ r.statements, rest⟩
  | .error e => ∃ last, Reaches s m last ∧ advance s last = .failed e

theorem Answers.head {path : List Iri} {out : List Statement} {rest : List (Task s.library)}
    {m later : Machine s.library} {result : Result} (moved : Moves s m later)
    (answers : Answers path out rest later result) : Answers path out rest m result := by
  cases result with
  | ok r => exact Relation.ReflTransGen.head moved answers
  | error e =>
    obtain ⟨last, reached, failed⟩ := answers
    exact ⟨last, Relation.ReflTransGen.head moved reached, failed⟩

theorem Answers.failed {path : List Iri} {out : List Statement} {rest : List (Task s.library)}
    {m : Machine s.library} {e : ExpansionError} (stopped : advance s m = .failed e) :
    Answers path out rest m (.error e) :=
  ⟨m, .refl, stopped⟩

theorem Answers.step {path : List Iri} {out : List Statement} {rest : List (Task s.library)}
    {m : Machine s.library} {r : Produced}
    (moved : Moves s m ⟨path, r.next, out ++ r.statements, rest⟩) :
    Answers path out rest m (.ok r) :=
  .single moved

theorem answers_inOrder {α : Type} {step : α → Nat → Result} (path : List Iri)
    (task : List α → Task s.library)
    (stop : ∀ next out rest, Moves s ⟨path, next, out, task [] :: rest⟩ ⟨path, next, out, rest⟩)
    (each : ∀ a items next out rest, Answers path out (task items :: rest)
      ⟨path, next, out, task (a :: items) :: rest⟩ (step a next))
    (items : List α) (next : Nat) (out : List Statement) (rest : List (Task s.library)) :
    Answers path out rest ⟨path, next, out, task items :: rest⟩ (inOrder step items next) := by
  induction items generalizing next out with
  | nil => exact .step (by simpa using stop next out rest)
  | cons a items ih =>
    have one := each a items next out rest
    unfold inOrder
    cases taken : step a next with
    | error e =>
      rw [taken] at one
      exact one
    | ok first =>
      rw [taken] at one
      have others := ih first.next (out ++ first.statements)
      dsimp only
      cases remainder : inOrder step items first.next with
      | error e =>
        rw [remainder] at others
        obtain ⟨last, reached, failed⟩ := others
        exact ⟨last, .trans one reached, failed⟩
      | ok later =>
        rw [remainder] at others
        have both : Reaches s _
            ⟨path, later.next, out ++ first.statements ++ later.statements, rest⟩ :=
          .trans one others
        rwa [List.append_assoc] at both

def CallsAnswer (path : List Iri) : Prop :=
  ∀ atTop span target arguments next out rest,
    Answers path out rest ⟨path, next, out, .call atTop span target arguments :: rest⟩
      (call s path atTop span target arguments next)

theorem answers_rows {path : List Iri} (calls : CallsAnswer (s := s) path) (span : Text.Span)
    (callee : s.library.Entry) (rows : List (List Term)) (next : Nat) (out : List Statement)
    (rest : List (Task s.library)) :
    Answers path out rest ⟨path, next, out, .rows span callee rows :: rest⟩
      (inOrder (call s path false span callee) rows next) := by
  refine answers_inOrder path (.rows span callee) (fun _ _ _ => rfl) ?_ rows next out rest
  intro row rows next out rest
  exact .head rfl (calls false span callee row next out _)

theorem answers_body {path : List Iri} (answers : CallsAnswer (s := s) path) (env : Environment)
    (number : Nat) (calls : List Call) (next : Nat) (out : List Statement)
    (rest : List (Task s.library)) :
    Answers path out rest ⟨path, next, out, .body env number calls :: rest⟩
      (inOrder (perform s path env number) calls next) := by
  refine answers_inOrder path (.body env number) (fun _ _ _ => rfl) ?_ calls next out rest
  intro inner calls next out rest
  unfold perform
  split
  · rename_i missing
    exact .failed (by simp only [advance, advanceBody, missing])
  · rename_i callee found
    split
    · rename_i e misread
      exact .failed (by simp only [advance, advanceBody, found, misread])
    · rename_i rows read
      refine .head ?_ (answers_rows answers inner.span callee rows next out _)
      simp only [Moves, advance, advanceBody, found, read]

theorem answers_call (path : List Iri) : CallsAnswer (s := s) path := by
  induction path using path_induction s.library with
  | step path ih =>
    intro atTop span target arguments next out rest
    have way := course s path atTop span target arguments next
    generalize call s path atTop span target arguments next = result at way ⊢
    cases way with
    | unbound binding => exact .failed (by simp only [advance, advanceCall, binding])
    | skipped binding checked absent inside =>
      refine .step ?_
      simp [Moves, advance, advanceCall, binding, checked, absent, inside]
    | misfit binding checked faulty =>
      exact .failed (by simp only [advance, advanceCall, binding, checked, faulty, if_false])
    | statement binding checked body =>
      exact .step (by simp only [Moves, advance, advanceCall, binding, checked, body])
    | direct binding checked body =>
      exact .failed (by simp only [advance, advanceCall, binding, checked, body])
    | deep binding checked body below =>
      exact .failed (by simp only [advance, advanceCall, binding, checked, body, below, if_true])
    | cyclic binding checked body above again =>
      exact .failed (by simp [advance, advanceCall, binding, checked, body, above, again])
    | @entered env calls binding checked body above fresh =>
      have inner := answers_body (ih target.val target.property fresh) env next calls (next + 1) out
        (.leave target.val.iri :: rest)
      have opened : Moves s ⟨path, next, out, .call atTop span target arguments :: rest⟩
          ⟨path ++ [target.val.iri], next + 1, out,
            .body env next calls :: .leave target.val.iri :: rest⟩ := by
        simp [Moves, advance, advanceCall, binding, checked, body, above, fresh]
      refine .head opened ?_
      generalize inOrder _ calls (next + 1) = result at inner ⊢
      cases result with
      | error e => exact inner
      | ok r =>
        refine .tail inner ?_
        simp [Moves, advance]

theorem answers_task (path : List Iri) (next : Nat) (out : List Statement) (task : Task s.library)
    (rest : List (Task s.library)) :
    ∃ after result, Answers after out rest ⟨path, next, out, task :: rest⟩ result := by
  cases task with
  | top i =>
    cases found : s.library.entry? i.template with
    | none =>
      refine ⟨path, .error ⟨.unknownTemplate i.template, i.span⟩, .failed ?_⟩
      simp only [advance, found]
    | some target =>
      refine ⟨path, _, .head ?_ (answers_call path true i.span target
        (i.arguments.map (Term.relabel fun label => .ofInstance label s.scope)) next out rest)⟩
      simp only [Moves, advance, found]
  | call atTop span target arguments => exact ⟨path, _, answers_call path _ _ _ _ _ _ _⟩
  | body env number calls => exact ⟨path, _, answers_body (answers_call path) _ _ _ _ _ _⟩
  | rows span callee rows => exact ⟨path, _, answers_rows (answers_call path) _ _ _ _ _ _⟩
  | leave template =>
    refine ⟨path.dropLast, .ok ⟨next, []⟩, .step ?_⟩
    simp [Moves, advance]

def Follows (later earlier : Machine s.library) : Prop := Moves s earlier later

theorem acc_of_reaches {m last : Machine s.library} (path : Reaches s m last)
    (stops : Acc Follows last) : Acc Follows m := by
  induction path using Relation.ReflTransGen.head_induction_on with
  | refl => exact stops
  | head moved _ ih =>
    refine .intro _ ?_
    intro other also
    cases moved.symm.trans also
    exact ih

-- The induction is on the tasks: each of them comes to the tasks behind it, or to an error.
theorem follows_wellFounded : WellFounded (Follows (s := s)) := by
  refine ⟨fun ⟨path, next, out, tasks⟩ => ?_⟩
  induction tasks generalizing path next out with
  | nil => exact .intro _ (fun later moved => by cases moved)
  | cons task rest ih =>
    obtain ⟨after, result, answers⟩ := answers_task path next out task rest
    cases result with
    | ok r => exact acc_of_reaches answers (ih _ _ _)
    | error e =>
      obtain ⟨last, reached, failed⟩ := answers
      refine acc_of_reaches reached (.intro _ ?_)
      intro later moved
      cases failed.symm.trans moved

def Ends (m : Machine s.library) : Except ExpansionError (List Statement) → Prop
  | .ok statements => ∃ next, Reaches s m ⟨[], next, statements, []⟩
  | .error e => ∃ last, Reaches s m last ∧ advance s last = .failed e

theorem start_ends (i : Instance) :
    Ends (Machine.start s i) (s.library.expand s.limit i s.scope) := by
  unfold Library.expand
  cases found : s.library.entry? i.template with
  | none =>
    refine ⟨_, .refl, ?_⟩
    simp only [advance, Machine.start, found]
  | some target =>
    let values := i.arguments.map (Term.relabel fun label => .ofInstance label s.scope)
    have answers := answers_call [] true i.span target values 0 [] []
    have moved : Moves s (Machine.start s i) ⟨[], 0, [], [.call true i.span target values]⟩ := by
      simp only [Moves, advance, Machine.start, found, values]
    have all := answers.head moved
    dsimp only
    generalize call s [] true i.span target values 0 = result at all ⊢
    cases result with
    | ok r => exact ⟨r.next, by simpa [Answers] using all⟩
    | error e => exact all

-- The bodies that are nested at a moment are the templates on the path, so the library bounds how
-- deep they are nested, and a call that succeeds leaves the path as it was.
theorem expansion_wellFounded (lib : Library) (limit : Option Nat) (scope : Scope)
    (i : Instance) :
    let s : Setting := ⟨lib, scope, limit⟩
    WellFounded (Follows (s := s)) ∧
    Ends (Machine.start s i) (lib.expand limit i scope) ∧
    ∀ m, Reaches s (Machine.start s i) m →
      m.path.Nodup ∧ (∀ iri ∈ m.path, ∃ t, lib.get? iri = some t ∧ t.isBase = false) ∧
      m.path = (pending m.tasks).reverse ∧
      (pending m.tasks).length ≤ lib.composites.length ∧
      ∀ atTop span target arguments rest later,
        m.tasks = .call atTop span target arguments :: rest → Reaches s m later →
        later.tasks = rest → later.path = m.path := by
  intro s
  refine ⟨follows_wellFounded, start_ends i, ?_⟩
  intro m reached
  have sound : Sound m := reaches_sound (start_sound i) reached
  refine ⟨sound.distinct, ?_, sound.path, ?_, ?_⟩
  · intro iri present
    obtain ⟨t, member, rfl⟩ := sound.registered iri present
    obtain ⟨held, composite⟩ := Library.mem_composites.mp member
    exact ⟨t, lib.find?_of_mem t held, composite⟩
  · have length := sound.length_le
    rwa [sound.path, List.length_reverse] at length
  · intro atTop span target arguments rest later tasks path back
    have after : Sound later := reaches_sound sound path
    rw [after.path, sound.path, tasks, back]
    rfl

def loop : Library :=
  let calling := fun (here there : String) => Template.mk ⟨here⟩
    [Library.baseParameter "x" 0 .resource false]
    (.calls [⟨⟨there⟩, [.variable 0], none, ⟨4, 9, 2, 1⟩⟩]) .nowhere
  (Library.base.insert (calling "u:a" "u:b")).insert (calling "u:b" "u:a")

theorem expansion_wellFounded_loop :
    let s : Setting := ⟨loop, .first, none⟩
    let i : Instance := ⟨⟨"u:a"⟩, [.blank ⟨"x"⟩], .nowhere⟩
    ∃ last, Reaches s (Machine.start s i) last ∧
      advance s last = .failed ⟨.cycle [⟨"u:a"⟩, ⟨"u:b"⟩, ⟨"u:a"⟩], ⟨4, 9, 2, 1⟩⟩ ∧
      last.path.Nodup ∧ (pending last.tasks).length ≤ 2 := by
  intro s i
  have computed : loop.expand none i .first =
      .error ⟨.cycle [⟨"u:a"⟩, ⟨"u:b"⟩, ⟨"u:a"⟩], ⟨4, 9, 2, 1⟩⟩ := by decide +kernel
  obtain ⟨_, ends, moments⟩ := expansion_wellFounded loop none .first i
  rw [computed] at ends
  obtain ⟨last, reached, failed⟩ := ends
  obtain ⟨distinct, _, _, nested, _⟩ := moments last reached
  have count : loop.composites.length = 2 := by decide +kernel
  exact ⟨last, reached, failed, distinct, count ▸ nested⟩

end Expansion

end Stottr

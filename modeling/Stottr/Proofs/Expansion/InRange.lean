import Stottr.Proofs.Document.Proper
import Stottr.Proofs.Expansion.Machine
import Stottr.Proofs.Expansion.Stable

namespace Stottr.Expansion

def InRange (env : Environment) (a : Argument) : Prop := ∀ k ∈ a.positions, k < env.length

variable (s : Setting)

-- What the next step of the machine evaluates: the arguments of a call in a body, or the three
-- places of a statement.
def evaluations (m : Machine s.library) : List (Environment × Argument) :=
  match m.tasks with
  | .body env _ (inner :: _) :: _ => inner.arguments.map fun a => (env, a)
  | .call _ span target arguments :: _ =>
    match bound s target arguments span m.next, target.val.body with
    | .ok env, .statement pattern =>
      [(env, pattern.subject), (env, pattern.predicate), (env, pattern.object)]
    | _, _ => []
  | _ => []

def Task.InRange {lib : Library} : Task lib → Prop
  | .body env _ calls => ∀ inner ∈ calls, ∀ a ∈ inner.arguments, Expansion.InRange env a
  | _ => True

variable {s}

theorem calls_inRange (texts : s.library.FromTexts) {target : s.library.Entry}
    {arguments : List Term} {span : Text.Span} {next : Nat} {env : Environment}
    {calls : List Call} (binding : bound s target arguments span next = .ok env)
    (body : target.val.body = .calls calls) :
    ∀ inner ∈ calls, ∀ a ∈ inner.arguments, InRange env a := by
  have composite : target.val.isBase = false := by simp [Template.isBase, body]
  have proper := texts.proper target.val target.property composite
  have made : target.val.calls = calls := by simp [Template.calls, body]
  intro inner member a listed k position
  rw [length_of_bound s binding]
  exact proper.positions inner (made ▸ member) a listed k position

theorem pattern_inRange (texts : s.library.FromTexts) {target : s.library.Entry}
    {arguments : List Term} {span : Text.Span} {next : Nat} {env : Environment}
    {pattern : Pattern} (binding : bound s target arguments span next = .ok env)
    (body : target.val.body = .statement pattern) :
    InRange env pattern.subject ∧ InRange env pattern.predicate ∧ InRange env pattern.object := by
  have length := length_of_bound s binding
  have same := texts.triple_of_statement target.property body
  rw [same] at body length
  cases body
  have three : env.length = 3 := length
  simp [InRange, Argument.positions, three]

theorem moves_inRange (texts : s.library.FromTexts) {m later : Machine s.library}
    (held : ∀ task ∈ m.tasks, task.InRange) (moved : Moves s m later) :
    ∀ task ∈ later.tasks, task.InRange := by
  cases step_of_moves moved with
  | top tasks | row tasks =>
    rw [tasks, List.forall_mem_cons] at held
    exact List.forall_mem_cons.mpr ⟨trivial, by simpa [Task.InRange] using held⟩
  | skipped tasks | statement tasks | bodyDone tasks | rowsDone tasks | leave tasks =>
    rw [tasks, List.forall_mem_cons] at held
    exact held.2
  | entered tasks binding _ body =>
    rw [tasks, List.forall_mem_cons] at held
    exact List.forall_mem_cons.mpr ⟨calls_inRange texts binding body,
      List.forall_mem_cons.mpr ⟨trivial, held.2⟩⟩
  | @body env number inner calls rest callee made tasks =>
    rw [tasks, List.forall_mem_cons] at held
    refine List.forall_mem_cons.mpr ⟨trivial, List.forall_mem_cons.mpr ⟨?_, held.2⟩⟩
    exact fun later member => held.1 later (List.mem_cons_of_mem _ member)

theorem reaches_inRange (texts : s.library.FromTexts) {i : Instance} {m : Machine s.library}
    (path : Reaches s (Machine.start s i) m) : ∀ task ∈ m.tasks, task.InRange := by
  induction path with
  | refl => exact List.forall_mem_singleton.mpr trivial
  | tail _ moved ih => exact moves_inRange texts ih moved

theorem evaluations_inRange (texts : s.library.FromTexts) {m : Machine s.library}
    (held : ∀ task ∈ m.tasks, task.InRange) :
    ∀ made ∈ evaluations s m, InRange made.1 made.2 := by
  unfold evaluations
  split
  · rename_i tasks
    rw [tasks, List.forall_mem_cons] at held
    intro made member
    obtain ⟨a, listed, rfl⟩ := List.mem_map.mp member
    exact held.1 _ List.mem_cons_self a listed
  · split
    · rename_i binding body
      obtain ⟨subject, predicate, object⟩ := pattern_inRange texts binding body
      simp only [List.forall_mem_cons]
      exact ⟨subject, predicate, object, nofun⟩
    · exact nofun
  · exact nofun

-- What texts give is proper, each variable in it being the parameter of the name that is written,
-- and no expansion over such templates evaluates a variable that has no value.
theorem templates_proper_inRange :
    (∀ ns text templates, (Document.templates ns text).outcome = .ok templates →
      (∀ t ∈ templates, t.Proper) ∧ ∃ stream, Token.scan text = .ok stream ∧
        Document.mentions stream.tokens = templates.flatMap Template.mentions) ∧
    ∀ lib : Library, lib.FromTexts → ∀ limit scope i,
      let s : Setting := ⟨lib, scope, limit⟩
      Ends (Machine.start s i) (lib.expand limit i scope) ∧
      ∀ m, Reaches s (Machine.start s i) m →
        ∀ made ∈ evaluations s m, InRange made.1 made.2 := by
  refine ⟨?_, ?_⟩
  · intro ns text templates accepted
    obtain ⟨stream, scanned, run⟩ := Document.templates_declarations accepted
    exact ⟨run.proper.1, stream, scanned, run.proper.2⟩
  · intro lib texts limit scope i s
    refine ⟨start_ends (s := s) i, ?_⟩
    intro m path
    exact evaluations_inRange texts (reaches_inRange texts path)

def Machine.after? (m : Machine s.library) : Nat → Option (Machine s.library)
  | 0 => some m
  | count + 1 =>
    match advance s m with
    | .running later => later.after? count
    | _ => none

theorem reaches_of_after? {count : Nat} {m later : Machine s.library}
    (run : m.after? count = some later) : Reaches s m later := by
  induction count generalizing m with
  | zero =>
    cases run
    exact .refl
  | succ count ih =>
    unfold Machine.after? at run
    split at run
    · rename_i moved
      exact .head moved (ih run)
    · cases run

def spreading : String :=
  "@prefix ex: <http://e/> . ex:Both[ ?x, ?y ] :: \x7b ottr:Triple(?x, rdf:value, ?y) \x7d . " ++
    "ex:Each[ ?x, List<ottr:IRI> ?xs = (ex:u, none) ] :: " ++
    "\x7b cross | ex:Both(++?xs, ((none, ex:v), ?x)) \x7d ."

theorem templates_proper_inRange_spreading :
    let lib := Library.ofText spreading
    let s : Setting := ⟨lib, .first, none⟩
    let i : Instance := ⟨⟨"http://e/Each"⟩, [.blank ⟨"b"⟩, .none], .nowhere⟩
    let env : Environment := [.blank ⟨"b_0_i"⟩, .list [.iri ⟨"http://e/u"⟩, .none]]
    (∃ templates,
      (Document.templates Namespaces.standard spreading).outcome = .ok templates ∧
      templates.length = 2 ∧ (∀ t ∈ templates, t.Proper) ∧
      templates.flatMap Template.mentions = ["x", "y", "x", "y", "x", "xs", "xs", "x"].map some) ∧
    lib.FromTexts ∧
    ∃ m, Reaches s (Machine.start s i) m ∧
      (evaluations s m).map (fun made => (made.1, made.2.positions)) = [(env, [1]), (env, [0])] ∧
      ∀ made ∈ evaluations s m, InRange made.1 made.2 := by
  intro lib s i env
  have computed :
      ((Document.templates Namespaces.standard spreading).outcome.map fun templates =>
        (templates.length, templates.flatMap Template.mentions)) =
        .ok (2, ["x", "y", "x", "y", "x", "xs", "xs", "x"].map some) ∧
      ((Machine.start s i).after? 2).map
        (fun m => (evaluations s m).map fun made => (made.1, made.2.positions)) =
        some [(env, [1]), (env, [0])] := by decide +kernel
  obtain ⟨accepted, evaluated⟩ := computed
  obtain ⟨templates, outcome, same⟩ := ok_of_map accepted
  injection same with length names
  obtain ⟨m, run, made⟩ := Option.map_eq_some_iff.mp evaluated
  have texts : lib.FromTexts := .ofText _
  have path : Reaches s (Machine.start s i) m := reaches_of_after? run
  obtain ⟨read, expanded⟩ := templates_proper_inRange
  exact ⟨⟨templates, outcome, length, (read _ _ _ outcome).1, names⟩, texts, m, path, made,
    (expanded lib texts none .first i).2 m path⟩

end Stottr.Expansion

import Mathlib.Data.Prod.Lex
import Mathlib.Logic.Function.Iterate
import Stottr.Proofs.Document.Anchored
import Stottr.Proofs.Document.Isolation
import Stottr.Proofs.Token.Tiling

namespace Stottr

namespace Text

-- Places compare by lines, and on one line by columns.
def Place.coordinates (p : Place) : Nat ×ₗ Nat := toLex (p.line, p.column)

namespace Position

def coordinates (p : Position) : Nat ×ₗ Nat := toLex (p.line, p.column)

theorem coordinates_lt_next (p : Position) (c : Char) : p.coordinates < (p.next c).coordinates := by
  unfold next coordinates
  rw [Prod.Lex.toLex_lt_toLex]
  split
  · exact .inl (Nat.lt_succ_self _)
  · exact .inr ⟨rfl, Nat.lt_succ_self _⟩

theorem coordinates_le_after (p : Position) (cs : List Char) :
    p.coordinates ≤ (p.after cs).coordinates := by
  induction cs generalizing p with
  | nil => exact le_refl _
  | cons c cs ih => exact (coordinates_lt_next p c).le.trans (ih (p.next c))

theorem coordinates_lt_after (p : Position) {cs : List Char} (some : cs ≠ []) :
    p.coordinates < (p.after cs).coordinates := by
  obtain ⟨c, rest, rfl⟩ := List.exists_cons_of_ne_nil some
  exact (coordinates_lt_next p c).trans_le (coordinates_le_after (p.next c) rest)

theorem behind_append (front more : List Char) :
    behind (front ++ more) = (behind front).after more := by
  rw [← start_after, ← start_after, after_append]

end Position

end Text

def TokenStream.spans (stream : TokenStream) : List Text.Span :=
  stream.tokens.map Token.span ++ [stream.stop]

def TokenStream.Ordered (stream : TokenStream) : Prop :=
  stream.spans.Pairwise fun s s' => s.place.coordinates < s'.place.coordinates

namespace Token

open Text

variable {front cs : List Char} {tokens : List Token} {stop : Span}

theorem Tiles.coordinates_le (tiles : Tiles front cs tokens stop) :
    ∀ s ∈ TokenStream.spans ⟨tokens, stop⟩,
      (Position.behind front).coordinates ≤ s.place.coordinates := by
  induction tiles with
  | @stop front gap stop layout located =>
    refine List.forall_mem_singleton.mpr ?_
    rw [located, Position.behind_append]
    exact Position.coordinates_le_after _ gap
  | @token front gap spelled after t later stop layout notEmpty located alone remainder ih =>
    refine List.forall_mem_cons.mpr ⟨?_, fun s member => le_trans ?_ (ih s member)⟩
    · rw [located, Position.behind_append]
      exact Position.coordinates_le_after _ gap
    · rw [List.append_assoc, Position.behind_append]
      exact Position.coordinates_le_after _ (gap ++ spelled)

theorem Tiles.ordered (tiles : Tiles front cs tokens stop) :
    TokenStream.Ordered ⟨tokens, stop⟩ := by
  induction tiles with
  | stop => exact List.pairwise_singleton _ _
  | @token front gap spelled after t later stop layout notEmpty located alone remainder ih =>
    refine List.Pairwise.cons (fun s member => ?_) ih
    refine lt_of_lt_of_le ?_ (remainder.coordinates_le s member)
    rw [located, Position.behind_append (front ++ gap)]
    exact Position.coordinates_lt_after _ notEmpty

theorem ordered_of_scan {text : String} {stream : TokenStream}
    (accepted : scan text = .ok stream) : stream.Ordered :=
  (@tiles_of_scanFrom [] _ _ accepted).ordered

end Token

namespace Document

variable {α : Type} {r : Reader} {item : Item α} {ts us vs more : List Token}

-- Where the reader goes on after blaming the first of some tokens for an error: behind that token,
-- or with it if it begins a prefix declaration.
def Resumes (blamed next : List Token) : Prop :=
  next <:+ blamed.tail ∨ next = blamed ∧ atKeyword next = true

theorem skip_cons_suffix (depth : Int) (t : Token) (rest : List Token) :
    skip depth (t :: rest) <:+ rest := by
  unfold skip
  split
  · exact List.suffix_refl rest
  · split
    · exact List.suffix_refl rest
    · exact skip_rest _ rest

-- Recovery comes past all interior tokens, however their brackets are nested.
theorem skip_resumes {t : Token} (other : t.kind ≠ .dot) (crosses : Crosses more us)
    (depth : Int) : Resumes us (skip depth (t :: more)) := by
  obtain ⟨front, rfl, inside⟩ := crosses
  induction front generalizing t depth with
  | nil =>
    rw [skip, if_neg fun ends => other ends.1, List.nil_append]
    split
    · rename_i keyword
      exact .inr ⟨rfl, keyword⟩
    · cases us with
      | nil => exact .inl (List.suffix_refl [])
      | cons u us => exact .inl (skip_cons_suffix _ u us)
  | cons u front ih =>
    obtain ⟨inner, inside⟩ := List.forall_mem_cons.mp inside
    obtain ⟨noDot, noKeyword⟩ := interior_iff.mp inner
    have before : ¬ atKeyword (u :: front ++ us) = true := by simpa [atKeyword] using noKeyword
    rw [skip, if_neg fun ends => other ends.1, if_neg before]
    exact ih noDot _ inside

-- What the declarations ahead can blame. A keyword in front of them is not among it: the declaration
-- before them may have blamed it already.
def blameable (stop : Text.Span) : List Token → List Text.Span
  | [] => []
  | t :: more =>
    if t.kind = .prefixKeyword then TokenStream.spans ⟨more, stop⟩
    else TokenStream.spans ⟨t :: more, stop⟩

theorem spans_sublist (stop : Text.Span) (inside : us <:+ ts) :
    (TokenStream.spans ⟨us, stop⟩).Sublist (TokenStream.spans ⟨ts, stop⟩) :=
  (inside.sublist.map _).append (List.Sublist.refl [stop])

theorem blameable_sublist (stop : Text.Span) (ts : List Token) :
    (blameable stop ts).Sublist (TokenStream.spans ⟨ts, stop⟩) := by
  cases ts with
  | nil => exact List.nil_sublist _
  | cons t more =>
    rw [blameable]
    split
    · exact spans_sublist stop (List.suffix_cons t more)
    · exact List.Sublist.refl _

theorem sublist_blameable (stop : Text.Span) (t : Token) (inside : us <:+ more) :
    (TokenStream.spans ⟨us, stop⟩).Sublist (blameable stop (t :: more)) := by
  rw [blameable]
  split
  · exact spans_sublist stop inside
  · exact spans_sublist stop (inside.trans (List.suffix_cons t more))

theorem Resumes.sublist (resumes : Resumes us vs) (stop : Text.Span) (ns : Namespaces) :
    (Reader.here ⟨ns, stop⟩ us :: blameable stop vs).Sublist (TokenStream.spans ⟨us, stop⟩) := by
  cases us with
  | nil =>
    have ended : vs = [] := by
      rcases resumes with behind | ⟨same, -⟩
      · exact List.eq_nil_of_suffix_nil behind
      · exact same
    rw [ended]
    exact List.Sublist.refl [stop]
  | cons u us =>
    refine List.Sublist.cons_cons u.span ?_
    rcases resumes with behind | ⟨rfl, keyword⟩
    · exact (blameable_sublist stop vs).trans (spans_sublist stop behind)
    · have begins : u.kind = .prefixKeyword := by simpa [atKeyword] using keyword
      rw [blameable, if_pos begins]
      exact List.Sublist.refl _

theorem declaration_resumes (each : ∀ us, Stuck r us (item r us)) {t : Token} {e : ParseError}
    (failed : declaration r (item r) (t :: more) = .error e) :
    ∃ us, us <:+ t :: more ∧
      (SyntaxError.parse e).place.coordinates = (r.here us).place.coordinates ∧
      Resumes us (skip 0 (t :: more)) ∧
      (TokenStream.spans ⟨us, r.stop⟩).Sublist (blameable r.stop (t :: more)) := by
  obtain ⟨us, came, line, column⟩ := declaration_stuck each failed
  have place : (SyntaxError.parse e).place.coordinates = (r.here us).place.coordinates :=
    congrArg toLex (Prod.ext line column)
  rcases came with ⟨same, other⟩ | ⟨other, crosses⟩
  · subst same
    refine ⟨_, List.suffix_refl _, place, .inl (skip_cons_suffix 0 t more), ?_⟩
    rw [blameable, if_neg other]
  · exact ⟨us, crosses.suffix.trans (List.suffix_cons t more), place, skip_resumes other crosses 0,
      sublist_blameable r.stop t crosses.suffix⟩

-- What recovery relies on in a kind of item: its reader fails at the first dot at the latest, and it
-- leaves an end of its tokens.
structure Steady (item : Item α) : Prop where
  stuck : ∀ r us, Stuck r us (item r us)
  rest : ∀ r us (one : Parsed α us), item r us = .ok one → one.rest <:+ us

theorem template_steady : Steady template :=
  ⟨fun _ us => template_stuck us, fun _ _ _ read => (template_items read).1⟩

theorem groundInstance_steady : Steady groundInstance :=
  ⟨fun _ us => groundInstance_stuck us, fun _ _ _ read => (groundInstance_items read).1⟩

theorem declaration_taken (steady : Steady item) {found : Parsed (Declared α) ts}
    (read : declaration r (item r) ts = .ok found) :
    ∃ taken, taken ≠ [] ∧ ts = taken ++ found.rest := by
  obtain ⟨taken, same⟩ := declaration_rest (steady.rest r) read
  refine ⟨taken, ?_, same.symm⟩
  rintro rfl
  exact absurd (congrArg List.length same) (Nat.ne_of_lt found.shorter)

theorem ofDeclared_errors (ns : Namespaces) (declared : Declared α) :
    (ofDeclared ns declared).errors = [] := by
  cases declared <;> rfl

theorem errors_sublist (steady : Steady item) (stop : Text.Span) (ns : Namespaces)
    (ts : List Token) :
    ((ofTokens item stop ns ts).errors.map fun e => (SyntaxError.parse e).place.coordinates).Sublist
      ((blameable stop ts).map fun s => s.place.coordinates) := by
  cases ts with
  | nil =>
    rw [ofTokens_nil]
    exact List.Sublist.refl []
  | cons t more =>
    cases read : declaration ⟨ns, stop⟩ (item ⟨ns, stop⟩) (t :: more) with
    | error e =>
      have fewer := length_skip_lt 0 t more
      have later := errors_sublist steady stop ns (skip 0 (t :: more))
      obtain ⟨us, -, place, resumes, inside⟩ := declaration_resumes (steady.stuck _) read
      rw [ofTokens_error (List.cons_ne_nil t more) read]
      refine List.Sublist.trans ?_ (((resumes.sublist stop ns).trans inside).map _)
      rw [followedBy, List.singleton_append, List.map_cons, List.map_cons, place]
      exact later.cons_cons _
    | ok found =>
      have fewer := found.shorter
      have later := errors_sublist steady stop (ofDeclared ns found.value).namespaces found.rest
      obtain ⟨taken, some, same⟩ := declaration_taken steady read
      obtain ⟨u, taken, rfl⟩ := List.exists_cons_of_ne_nil some
      have behind : found.rest <:+ more := ⟨taken, (List.cons.inj same).2.symm⟩
      rw [ofTokens_ok read, followedBy, ofDeclared_errors, List.nil_append]
      refine later.trans (List.Sublist.map _ ?_)
      exact (blameable_sublist stop found.rest).trans (sublist_blameable stop t behind)
termination_by ts.length
decreasing_by all_goals exact fewer

theorem followedBy_assoc (first second third : Document α) :
    followedBy (followedBy first second) third = followedBy first (followedBy second third) := by
  simp [followedBy]

-- The loop over the declarations between two of its rounds: what those before came to, and the
-- tokens ahead.
structure Loop (α : Type) where
  found : Document α
  ahead : List Token

namespace Loop

def start (ns : Namespaces) (ts : List Token) : Loop α := ⟨⟨[], [], ns⟩, ts⟩

variable (item : Item α) (stop : Text.Span) (s : Loop α)

def turn : Result (Declared α) s.ahead :=
  declaration ⟨s.found.namespaces, stop⟩ (item ⟨s.found.namespaces, stop⟩) s.ahead

-- After a declaration that fails the loop goes back to the beginning of it and skips it from there.
def round : Loop α :=
  if s.ahead = [] then s
  else match s.turn item stop with
    | .error e => ⟨followedBy s.found ⟨[], [e], s.found.namespaces⟩, skip 0 s.ahead⟩
    | .ok one => ⟨followedBy s.found (ofDeclared s.found.namespaces one.value), one.rest⟩

def outcome : Document α := followedBy s.found (ofTokens item stop s.found.namespaces s.ahead)

variable {item stop s}

theorem round_of_end (ended : s.ahead = []) : s.round item stop = s := if_pos ended

theorem round_of_error {e : ParseError} (given : s.ahead ≠ [])
    (failed : s.turn item stop = .error e) : s.round item stop =
      ⟨followedBy s.found ⟨[], [e], s.found.namespaces⟩, skip 0 s.ahead⟩ := by
  rw [round, if_neg given, failed]

theorem round_of_ok {one : Parsed (Declared α) s.ahead} (given : s.ahead ≠ [])
    (read : s.turn item stop = .ok one) : s.round item stop =
      ⟨followedBy s.found (ofDeclared s.found.namespaces one.value), one.rest⟩ := by
  rw [round, if_neg given, read]

theorem outcome_round : (s.round item stop).outcome item stop = s.outcome item stop := by
  by_cases ended : s.ahead = []
  · rw [round_of_end ended]
  · cases read : s.turn item stop with
    | error e =>
      rw [round_of_error ended read, outcome, outcome, ofTokens_error ended read, followedBy_assoc]
      rfl
    | ok one =>
      rw [round_of_ok ended read, outcome, outcome, ofTokens_ok read, followedBy_assoc]
      rfl

theorem round_takes (steady : Steady item) (given : s.ahead ≠ []) :
    ∃ taken, taken ≠ [] ∧ s.ahead = taken ++ (s.round item stop).ahead := by
  cases read : s.turn item stop with
  | error e =>
    rw [round_of_error given read]
    obtain ⟨t, more, same⟩ := List.exists_cons_of_ne_nil given
    obtain ⟨front, whole⟩ := skip_cons_suffix 0 t more
    refine ⟨t :: front, List.cons_ne_nil t front, ?_⟩
    rw [same, List.cons_append, whole]
  | ok one =>
    rw [round_of_ok given read]
    exact declaration_taken steady read

theorem length_round (steady : Steady item) :
    (s.round item stop).ahead.length ≤ s.ahead.length - 1 := by
  by_cases ended : s.ahead = []
  · rw [round_of_end ended, ended]
    exact Nat.le_refl 0
  · obtain ⟨taken, some, same⟩ := @round_takes α item stop s steady ended
    have positive := List.length_pos_iff.mpr some
    have lengths := congrArg List.length same
    rw [List.length_append] at lengths
    omega

theorem iterate_round (steady : Steady item) (rounds : Nat) (enough : s.ahead.length ≤ rounds) :
    (round item stop)^[rounds] s = ⟨s.outcome item stop, []⟩ := by
  induction rounds generalizing s with
  | zero =>
    obtain ⟨found, ahead⟩ := s
    have ended : ahead = [] := List.eq_nil_of_length_eq_zero (Nat.le_zero.mp enough)
    subst ended
    simp [outcome, ofTokens_nil, followedBy]
  | succ rounds ih =>
    have fewer := @length_round α item stop s steady
    rw [Function.iterate_succ_apply, ih (by omega), outcome_round]

end Loop

def InSourceOrder (errors : List SyntaxError) : Prop :=
  errors.Pairwise fun e e' => e.place.coordinates < e'.place.coordinates

-- What the loop does with a stream of tokens, however malformed.
structure Orderly (item : Item α) (ns : Namespaces) (stream : TokenStream) : Prop where
  -- It ends, after no more rounds than there are tokens, with what is read from the stream.
  ends : (Loop.round item stream.stop)^[stream.tokens.length] (.start ns stream.tokens) =
    ⟨ofTokens item stream.stop ns stream.tokens, []⟩
  takes : ∀ s : Loop α, s.ahead ≠ [] →
    ∃ taken, taken ≠ [] ∧ s.ahead = taken ++ (s.round item stream.stop).ahead
  -- A round that fails records one error, and goes on behind what the error blames.
  recovers : ∀ (s : Loop α) (e : ParseError), s.ahead ≠ [] → s.turn item stream.stop = .error e →
    (s.round item stream.stop).found.errors = s.found.errors ++ [e] ∧
    (s.round item stream.stop).ahead = skip 0 s.ahead ∧
    ∃ blamed, blamed <:+ s.ahead ∧ (SyntaxError.parse e).place.coordinates =
        (Reader.here ⟨s.found.namespaces, stream.stop⟩ blamed).place.coordinates ∧
      Resumes blamed (skip 0 s.ahead)
  -- The errors pick some of the tokens, and perhaps the end of the text, each of them once.
  blamed : ((ofStream item ns stream).errors.map fun e => e.place.coordinates).Sublist
    (stream.spans.map fun s => s.place.coordinates)
  ordered : stream.Ordered → InSourceOrder (ofStream item ns stream).errors

theorem Steady.orderly (steady : Steady item) (ns : Namespaces) (stream : TokenStream) :
    Orderly item ns stream := by
  have blamed : ((ofStream item ns stream).errors.map fun e => e.place.coordinates).Sublist
      (stream.spans.map fun s => s.place.coordinates) := by
    rw [ofStream, errors_ofDocument, List.map_map]
    exact (errors_sublist steady stream.stop ns stream.tokens).trans
      ((blameable_sublist stream.stop stream.tokens).map _)
  refine ⟨?_, fun s given => Loop.round_takes steady given, ?_, blamed, ?_⟩
  · refine (Loop.iterate_round steady stream.tokens.length (Nat.le_refl _)).trans ?_
    simp [Loop.outcome, Loop.start, followedBy]
  · intro s e given failed
    obtain ⟨t, more, same⟩ := List.exists_cons_of_ne_nil given
    have round := Loop.round_of_error given failed
    rw [round]
    refine ⟨rfl, rfl, ?_⟩
    unfold Loop.turn at failed
    rw [same] at failed ⊢
    obtain ⟨us, inside, place, resumes, -⟩ := declaration_resumes (steady.stuck _) failed
    exact ⟨us, inside, place, resumes⟩
  · intro ordered
    exact List.pairwise_map.mp ((List.pairwise_map.mpr ordered).sublist blamed)

theorem inSourceOrder_of_read (steady : Steady item) (ns : Namespaces) (text : String) :
    InSourceOrder (read item ns text).errors := by
  cases scanned : Token.scan text with
  | error e =>
    rw [read, scanned]
    exact List.pairwise_singleton _ _
  | ok stream =>
    rw [read_of_scan scanned]
    exact (steady.orderly ns stream).ordered (Token.ordered_of_scan scanned)

-- The loop goes on through every stream of tokens to its end, and what is wrong with a text is
-- reported in its order.
theorem streams_orderly (ns : Namespaces) :
    (∀ stream, Orderly template ns stream ∧ Orderly groundInstance ns stream) ∧
    ∀ text, (∀ stream, Token.scan text = .ok stream → stream.Ordered) ∧
      InSourceOrder (templates ns text).errors ∧ InSourceOrder (instances ns text).errors := by
  refine ⟨fun stream => ?_, fun text => ?_⟩
  · exact ⟨template_steady.orderly ns stream, groundInstance_steady.orderly ns stream⟩
  · refine ⟨fun stream scanned => Token.ordered_of_scan scanned, ?_, ?_⟩
    · exact inSourceOrder_of_read template_steady ns text
    · exact inSourceOrder_of_read groundInstance_steady ns text

-- A stray bracket, a prefix declaration in another, a variable, a bracket too many, and no end.
def unbalanced : String :=
  "] ex:A( .\n@prefix ex: @prefix ex: <http://e/> .\nex:A(?x) . ex:A(ex:a)) . ex:A("

theorem streams_orderly_unbalanced :
    ∃ stream, Token.scan unbalanced = .ok stream ∧ stream.Ordered ∧
      (instances .standard unbalanced).errors.map (fun e => (e.place.line, e.place.column)) =
        [(1, 1), (2, 13), (3, 6), (3, 22), (3, 31)] ∧
      InSourceOrder (instances .standard unbalanced).errors := by
  have scanned : (Token.scan unbalanced).toOption.isSome = true := by decide +kernel
  have places : (instances .standard unbalanced).errors.map
      (fun e => (e.place.line, e.place.column)) =
        [(1, 1), (2, 13), (3, 6), (3, 22), (3, 31)] := by decide +kernel
  obtain ⟨-, texts⟩ := streams_orderly .standard
  obtain ⟨streams, -, order⟩ := texts unbalanced
  cases found : Token.scan unbalanced with
  | error e =>
    rw [found] at scanned
    cases scanned
  | ok stream => exact ⟨stream, rfl, streams stream found, places, order⟩

end Document

end Stottr

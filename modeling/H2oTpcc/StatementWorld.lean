import Mathlib.Data.List.Forall2
import Mathlib.Logic.Function.Basic
import H2oTpcc.TransactionSystem

/-! Clients of one optimistic store, interleaved statement by statement. In
`TransactionSystem` a client is resumed in one piece when its operation is settled; here
a ready future only starts a callback, and callbacks of all clients go on in any order,
each statement with an answer of its own from the environment. `StepClient.Atomic` is the
rule that the coarser system suffices: what a callback in progress will do is a function
of the answers it has yet to get, and as long as that is so for each client by itself,
every run of statements is a run of whole callbacks with the same requests, the same
settlements and the same commits. `StepClient.Ends` is the rule for the converse: where
callbacks come to their end, every run of whole callbacks is one of statements. -/
namespace H2oTpcc

/-- A client of the store that goes on statement by statement. -/
structure StepClient (S R K V : Type) where
  start : S → R
  /-- The operations whose futures are outstanding. -/
  outstanding : R → List (Operation K)
  /-- An outstanding future becomes ready. -/
  fire : R → Nat → Future K V → Option R
  /-- A callback in progress does one statement; returns the sets that it buffers. -/
  run : R → Nat → Answers → Option (R × List (K × V))

/-- Machines of either kind. -/
def StepClient.sum (left : StepClient S R K V) (right : StepClient T Q K V) :
    StepClient (S ⊕ T) (R ⊕ Q) K V where
  start
    | .inl parameters => .inl (left.start parameters)
    | .inr parameters => .inr (right.start parameters)
  outstanding
    | .inl state => left.outstanding state
    | .inr state => right.outstanding state
  fire
    | .inl state, i, future => (left.fire state i future).map .inl
    | .inr state, i, future => (right.fire state i future).map .inr
  run
    | .inl state, i, answers => (left.run state i answers).map fun next => (.inl next.1, next.2)
    | .inr state, i, answers => (right.run state i answers).map fun next => (.inr next.1, next.2)

/-- What can happen next. -/
inductive Statement (S : Type) where
  | start (parameters : S)
  /-- The database settles one of the operations that a connection has outstanding. -/
  | settle (connection future : Nat) (verdict : Verdict)
  /-- One of a connection's callbacks goes on. -/
  | run (connection callback : Nat) (answers : Answers)

/-- A request or a settlement, whatever the answers of the environment. -/
inductive Act (S : Type) where
  | start (parameters : S)
  | settle (connection : Nat) (verdict : Verdict)

def Event.act : Event S → Act S
  | .start parameters _ => .start parameters
  | .settle connection verdict _ => .settle connection verdict

def Statement.act : Statement S → Option (Act S)
  | .start parameters => some (.start parameters)
  | .settle connection _ verdict => some (.settle connection verdict)
  | .run .. => none

variable {S R L K V : Type} [Ord K] [Std.TransOrd K] [DecidableEq K]

/-- One statement, or a settlement. -/
def World.stepStatement (machine : StepClient S R K V) (world : World R K V) :
    Statement S → Option (World R K V)
  | .start parameters =>
    some { world with connections := world.connections ++ [{ client := machine.start parameters }] }
  | .settle i j verdict => do
    let connection ← world.connections[i]?
    let operation ← (machine.outstanding connection.client)[j]?
    let (db, attempt, future) ←
      H2oTpcc.settle world.db (i, connection.client) connection.attempt operation verdict
    let client ← machine.fire connection.client j future
    return { db, connections := world.connections.set i { client, attempt } }
  | .run i j answers => do
    let connection ← world.connections[i]?
    let (client, sets) ← machine.run connection.client j answers
    return {
      db := world.db
      connections := world.connections.set i
        { client, attempt := { connection.attempt with writes := connection.attempt.writes ++ sets } } }

def World.runStatements (machine : StepClient S R K V) (world : World R K V) :
    List (Statement S) → Option (World R K V)
  | [] => some world
  | statement :: rest => do (← world.stepStatement machine statement).runStatements machine rest

/-! ## Databases with the same commits -/

/-- Both have the same commits, by the same connections. -/
structure Database.SameCommits (db : Database K V (Nat × R)) (db' : Database K V (Nat × L)) : Prop where
  base : db.base = db'.base
  log : db.log.map (fun commit => (commit.author.1, commit.writes)) =
    db'.log.map fun commit => (commit.author.1, commit.writes)

namespace Database.SameCommits
variable {db : Database K V (Nat × R)} {db' : Database K V (Nat × L)} {attempt : Attempt K V}

omit [Std.TransOrd K] [DecidableEq K] in
theorem writes (same : SameCommits db db') : db.log.map Commit.writes = db'.log.map Commit.writes := by
  have logs := congrArg (List.map Prod.snd) same.log
  rwa [List.map_map, List.map_map] at logs

omit [Std.TransOrd K] [DecidableEq K] in
theorem length (same : SameCommits db db') : db.log.length = db'.log.length := by
  simpa using congrArg List.length same.log

omit [DecidableEq K] in
/-- A store as the fold of the sets alone. -/
private theorem asOf_writes (db : Database K V A) (version : Nat) :
    db.asOf version = ((db.log.map Commit.writes).take version).foldl applyWrites db.base := by
  rw [← List.map_take, List.foldl_map]
  rfl

omit [DecidableEq K] in
theorem asOf (same : SameCommits db db') (version : Nat) : db.asOf version = db'.asOf version := by
  rw [asOf_writes, asOf_writes, same.writes, same.base]

omit [Std.TransOrd K] [DecidableEq K] in
private theorem conflicts (same : SameCommits db db') :
    attempt.Conflicts db ↔ attempt.Conflicts db' := by
  have later (version : Nat) (set : List (K × V) → Prop) :
      (∃ commit ∈ db.log.drop version, set commit.writes) ↔
        ∃ commit ∈ db'.log.drop version, set commit.writes := by
    have writes := congrArg (List.drop version) same.writes
    rw [← List.map_drop, ← List.map_drop] at writes
    have listed := fun set : List (K × V) => congrArg (set ∈ ·) writes
    simp only [List.mem_map, eq_iff_iff] at listed
    constructor
    · rintro ⟨commit, member, holds⟩
      obtain ⟨commit', member', sets⟩ := (listed commit.writes).mp ⟨commit, member, rfl⟩
      exact ⟨commit', member', sets ▸ holds⟩
    · rintro ⟨commit, member, holds⟩
      obtain ⟨commit', member', sets⟩ := (listed commit.writes).mpr ⟨commit, member, rfl⟩
      exact ⟨commit', member', sets ▸ holds⟩
  unfold Attempt.Conflicts
  refine exists_congr fun version => and_congr_right fun _ => ?_
  refine exists_congr fun read => and_congr_right fun _ => ?_
  exact later version fun writes => ∃ write ∈ writes, write.1 = read.1

omit [Std.TransOrd K] [DecidableEq K] in
theorem append (same : SameCommits db db') (i : Nat) (client : R) (client' : L) (writes : List (K × V)) :
    SameCommits (db.append ⟨(i, client), writes⟩) (db'.append ⟨(i, client'), writes⟩) :=
  ⟨same.base, by simp [same.log]⟩

/-- An operation is settled alike in both worlds, since they have the same versions. -/
theorem settle (same : SameCommits db db') {client : R} (client' : L)
    {next : Database K V (Nat × R)} {attempt' : Attempt K V} {future : Future K V}
    (settled : H2oTpcc.settle db (i, client) attempt operation verdict = some (next, attempt', future)) :
    ∃ next', H2oTpcc.settle db' (i, client') attempt operation verdict = some (next', attempt', future) ∧
      SameCommits next next' := by
  unfold H2oTpcc.settle at settled ⊢
  split at settled
  · split at settled
    · cases settled
      exact ⟨db', by simp [*], same⟩
    · split at settled
      · rename_i unset within
        cases settled
        rw [same.length] at within
        refine ⟨db', ?_, same⟩
        simp only [within, if_true, Attempt.readFrom, same.asOf]
      · cases settled
  · split at settled
    · cases settled
    · rename_i clear
      cases settled
      rw [same.conflicts] at clear
      exact ⟨_, if_neg clear, same.append i client client' _⟩
  · split at settled
    · cases settled
    · rename_i clear
      cases settled
      rw [same.conflicts] at clear
      exact ⟨_, if_neg clear, same.append i client client' _⟩
  · cases settled
    exact ⟨db', rfl, same⟩
  · cases settled
    exact ⟨db', rfl, same⟩
  · split at settled
    · cases settled
    · rename_i nonzero
      cases settled
      refine ⟨db', ?_, same⟩
      cases operation <;> simp [nonzero]
  · cases settled

end Database.SameCommits

/-! ## What is left of a callback -/

/-- What is left of a client in progress, as a function of the answers it has yet to get:
the client of the coarser system that it becomes, and the sets that it will buffer. -/
abbrev Completion (L K V : Type) := Answers → L × List (K × V)

/-- `Left state completion` says what is left of a client in progress; it goes on in single
statements as the client of the coarser system does in one piece. -/
structure StepClient.Atomic (machine : StepClient S R K V) (client : Client S L K V)
    (Left : R → Completion L K V → Prop) : Prop where
  start : ∀ parameters,
    Left (machine.start parameters) fun answers => (client.start parameters answers, [])
  /-- Only a client that has nothing left to do has an outstanding future. -/
  fire : ∀ {state state' : R} {completion : Completion L K V} {j : Nat} {operation : Operation K}
    {future : Future K V}, Left state completion → (machine.outstanding state)[j]? = some operation →
    machine.fire state j future = some state' →
    ∃ rest, (∀ answers, completion answers = (rest, [])) ∧ client.pending rest = some operation ∧
      Left state' fun answers => client.resume answers rest future
  /-- An answer that was got is not asked for again. -/
  run : ∀ {state state' : R} {completion : Completion L K V} {j : Nat} {answered : Answers}
    {sets : List (K × V)}, Left state completion → machine.run state j answered = some (state', sets) →
    ∃ completion', Left state' completion' ∧ ∀ answers, ∃ answers',
      completion answers' = ((completion' answers).1, sets ++ (completion' answers).2)

/-- Some callbacks of a client go on, one after the other. -/
def StepClient.runs (machine : StepClient S R K V) (state : R) :
    List (Nat × Answers) → Option (R × List (K × V))
  | [] => some (state, [])
  | (j, answers) :: rest => do
    let (next, sets) ← machine.run state j answers
    let (last, more) ← machine.runs next rest
    return (last, sets ++ more)

/-- The client stands where the one of the coarser system does: nothing is left of its
callbacks, it has sent the same answer, and what that one waits for can be settled. -/
structure StepClient.Stands (machine : StepClient S R K V) (client : Client S L K V)
    (Left : R → Completion L K V → Prop) (sent : R → List ρ) (answer : L → Option ρ) (state : R)
    (rest : L) :
    Prop where
  left : Left state fun _ => (rest, [])
  sent : sent state = (answer rest).toList
  waits : ∀ operation, client.pending rest = some operation →
    ∃ j, (machine.outstanding state)[j]? = some operation ∧
      ∀ future, ∃ state', machine.fire state j future = some state'

/-- A client in progress shows no answer but that of its whole callbacks, and whatever
answers it will get, its callbacks can come to their end. -/
structure StepClient.Ends (machine : StepClient S R K V) (client : Client S L K V)
    (Left : R → Completion L K V → Prop) (sent : R → List ρ) (answer : L → Option ρ) : Prop where
  shown : ∀ {state : R} {completion : Completion L K V} {response : ρ}, Left state completion →
    response ∈ sent state → ∀ answers, answer (completion answers).1 = some response
  ends : ∀ {state : R} {completion : Completion L K V}, Left state completion → ∀ answers, ∃ turns state',
    machine.runs state turns = some (state', (completion answers).2) ∧
    machine.Stands client Left sent answer state' (completion answers).1

/-! ## Clients of either kind -/

/-- What is left of a client of either kind. -/
def leftOf {M Q : Type} (Left : R → Completion L K V → Prop) (Left' : Q → Completion M K V → Prop) :
    R ⊕ Q → Completion (L ⊕ M) K V → Prop
  | .inl state, completion => ∃ inner, Left state inner ∧
    completion = fun answers => (.inl (inner answers).1, (inner answers).2)
  | .inr state, completion => ∃ inner, Left' state inner ∧
    completion = fun answers => (.inr (inner answers).1, (inner answers).2)

section Sum
variable {T M Q ρ : Type} {left : StepClient S R K V} {right : StepClient T Q K V} {client : Client S L K V}
  {client' : Client T M K V} {Left : R → Completion L K V → Prop} {Left' : Q → Completion M K V → Prop}
  {sent : R → List ρ} {sent' : Q → List ρ} {answer : L → Option ρ} {answer' : M → Option ρ}

omit [Ord K] [Std.TransOrd K] [DecidableEq K] in
/-- Machines of two kinds can be run statement by statement if each of them can. -/
theorem StepClient.Atomic.sum (first : left.Atomic client Left) (second : right.Atomic client' Left') :
    (left.sum right).Atomic (client.sum client') (leftOf Left Left') where
  start
    | .inl parameters => ⟨_, first.start parameters, rfl⟩
    | .inr parameters => ⟨_, second.start parameters, rfl⟩
  fire {state} {state'} {completion} {_} {_} {_} related waiting fired := by
    cases state with
    | inl state =>
      obtain ⟨inner, related, rfl⟩ := related
      obtain ⟨next, moved, rfl⟩ := Option.map_eq_some_iff.mp fired
      obtain ⟨rest, settled, pending, goesOn⟩ := first.fire related waiting moved
      exact ⟨.inl rest, fun answers => by simp only [settled], pending, _, goesOn, rfl⟩
    | inr state =>
      obtain ⟨inner, related, rfl⟩ := related
      obtain ⟨next, moved, rfl⟩ := Option.map_eq_some_iff.mp fired
      obtain ⟨rest, settled, pending, goesOn⟩ := second.fire related waiting moved
      exact ⟨.inr rest, fun answers => by simp only [settled], pending, _, goesOn, rfl⟩
  run {state} {state'} {completion} {_} {_} {_} related ran := by
    cases state with
    | inl state =>
      obtain ⟨inner, related, rfl⟩ := related
      obtain ⟨next, moved, rest⟩ := Option.map_eq_some_iff.mp ran
      cases rest
      obtain ⟨inner', goesOn, same⟩ := first.run related moved
      refine ⟨_, ⟨inner', goesOn, rfl⟩, fun answers => ?_⟩
      obtain ⟨answers', same⟩ := same answers
      exact ⟨answers', by simp only [same]⟩
    | inr state =>
      obtain ⟨inner, related, rfl⟩ := related
      obtain ⟨next, moved, rest⟩ := Option.map_eq_some_iff.mp ran
      cases rest
      obtain ⟨inner', goesOn, same⟩ := second.run related moved
      refine ⟨_, ⟨inner', goesOn, rfl⟩, fun answers => ?_⟩
      obtain ⟨answers', same⟩ := same answers
      exact ⟨answers', by simp only [same]⟩

/-- A machine runs within another, whose states it is a part of. -/
structure StepClient.Embeds (small : StepClient S R K V) (large : StepClient T Q K V) (embed : R → Q) :
    Prop where
  outstanding : ∀ state, large.outstanding (embed state) = small.outstanding state
  fire : ∀ state j future, large.fire (embed state) j future = (small.fire state j future).map embed
  run : ∀ state j answers, large.run (embed state) j answers =
    (small.run state j answers).map fun next => (embed next.1, next.2)

omit [Ord K] [Std.TransOrd K] [DecidableEq K] in
private theorem StepClient.embeds_inl : left.Embeds (left.sum right) .inl :=
  ⟨fun _ => rfl, fun _ _ _ => rfl, fun _ _ _ => rfl⟩

omit [Ord K] [Std.TransOrd K] [DecidableEq K] in
private theorem StepClient.embeds_inr : right.Embeds (left.sum right) .inr :=
  ⟨fun _ => rfl, fun _ _ _ => rfl, fun _ _ _ => rfl⟩

section Embeds
variable {embed : R → Q} (embeds : left.Embeds right embed)
include embeds

omit [Ord K] [Std.TransOrd K] [DecidableEq K] in
/-- Whatever callbacks of the one go on, they do so within the other. -/
theorem StepClient.Embeds.runs {turns : List (Nat × Answers)} {state state' : R} {sets : List (K × V)}
    (ran : left.runs state turns = some (state', sets)) :
    right.runs (embed state) turns = some (embed state', sets) := by
  induction turns generalizing state sets with
  | nil =>
    cases ran
    rfl
  | cons turn rest ih =>
    simp only [StepClient.runs, Option.bind_eq_bind, Option.bind_eq_some_iff] at ran
    obtain ⟨⟨next, added⟩, ran, ⟨last, more⟩, others, same⟩ := ran
    cases same
    simp only [StepClient.runs, embeds.run, ran, Option.map_some, Option.bind_eq_bind, Option.bind_some]
    exact Option.bind_eq_some_iff.mpr ⟨_, ih others, rfl⟩

omit [Ord K] [Std.TransOrd K] [DecidableEq K] in
/-- What can be settled within the one can be settled in the other. -/
theorem StepClient.Embeds.waits {state : R} {operation : Operation K}
    (waits : ∃ j, (left.outstanding state)[j]? = some operation ∧
      ∀ future, ∃ state', left.fire state j future = some state') :
    ∃ j, (right.outstanding (embed state))[j]? = some operation ∧
      ∀ future, ∃ state', right.fire (embed state) j future = some state' := by
  obtain ⟨j, outstanding, fires⟩ := waits
  refine ⟨j, by rw [embeds.outstanding, outstanding], fun future => ?_⟩
  obtain ⟨next, fired⟩ := fires future
  exact ⟨embed next, by rw [embeds.fire, fired, Option.map_some]⟩

end Embeds

omit [Ord K] [Std.TransOrd K] [DecidableEq K] in
/-- Callbacks of two kinds can come to their end if those of each kind can. -/
theorem StepClient.Ends.sum (first : left.Ends client Left sent answer)
    (second : right.Ends client' Left' sent' answer') :
    (left.sum right).Ends (client.sum client') (leftOf Left Left') (Sum.elim sent sent')
      (Sum.elim answer answer') where
  shown {state} {_} {_} related sent answers := by
    cases state with
    | inl state =>
      obtain ⟨inner, related, rfl⟩ := related
      exact first.shown related sent answers
    | inr state =>
      obtain ⟨inner, related, rfl⟩ := related
      exact second.shown related sent answers
  ends {state} {_} related answers := by
    cases state with
    | inl state =>
      obtain ⟨inner, related, rfl⟩ := related
      obtain ⟨turns, state', ran, stands⟩ := first.ends related answers
      exact ⟨turns, .inl state', embeds_inl.runs ran, ⟨_, stands.left, rfl⟩, stands.sent,
        fun operation pending => embeds_inl.waits (stands.waits operation pending)⟩
    | inr state =>
      obtain ⟨inner, related, rfl⟩ := related
      obtain ⟨turns, state', ran, stands⟩ := second.ends related answers
      exact ⟨turns, .inr state', embeds_inr.runs ran, ⟨_, stands.left, rfl⟩, stands.sent,
        fun operation pending => embeds_inr.waits (stands.waits operation pending)⟩

end Sum

/-! ## Statements as whole callbacks -/

/-- The connection after what is left of its callback. -/
def Connection.completed (connection : Connection R K V) (rest : L × List (K × V)) :
    Connection L K V where
  client := rest.1
  attempt := { connection.attempt with writes := connection.attempt.writes ++ rest.2 }

/-- The statements so far are those of whole callbacks, whatever answers each connection
has yet to get. -/
structure World.Covered (client : Client S L K V) (Left : R → Completion L K V → Prop) (base : Store K V)
    (statements : List (Statement S)) (world : World R K V) (completion : Nat → Completion L K V) :
    Prop where
  left : ∀ i connection, world.connections[i]? = some connection → Left connection.client (completion i)
  runs : ∀ choice : Nat → Answers, ∃ events world',
    (World.initial base).run client events = some world' ∧
    events.map Event.act = statements.filterMap Statement.act ∧ world.db.SameCommits world'.db ∧
    world'.connections =
      world.connections.mapIdx fun i connection => connection.completed (completion i (choice i))

section Cover
variable {machine : StepClient S R K V} {client : Client S L K V} {Left : R → Completion L K V → Prop}
  {base : Store K V} {statements : List (Statement S)} {world : World R K V}
  {completion : Nat → Completion L K V}

private theorem World.covered_initial (completion : Nat → Completion L K V) :
    (World.initial base).Covered client Left base [] completion where
  left _ _ found := by cases found
  runs _ := ⟨[], World.initial base, rfl, rfl, ⟨rfl, rfl⟩, rfl⟩

/-- A new connection is covered by one whose callbacks have all run. -/
theorem World.Covered.start (atomic : machine.Atomic client Left)
    (covered : world.Covered client Left base statements completion) (parameters : S) :
    World.Covered client Left base (statements ++ [.start parameters])
      { world with connections := world.connections ++ [{ client := machine.start parameters }] }
      (Function.update completion world.connections.length
        fun answers => (client.start parameters answers, [])) where
  left i connection found := by
    by_cases new : i = world.connections.length
    · subst new
      rw [List.getElem?_append_right (Nat.le_refl _), Nat.sub_self] at found
      cases found
      rw [Function.update_self]
      exact atomic.start parameters
    · rw [Function.update_of_ne new]
      rw [List.getElem?_append] at found
      split at found
      · exact covered.left i connection found
      · rw [List.getElem?_singleton, if_neg (by omega)] at found
        cases found
  runs choice := by
    obtain ⟨events, world', ran, acts, same, connections⟩ := covered.runs choice
    refine ⟨events ++ [.start parameters (choice world.connections.length)],
      { world' with connections := world'.connections ++
        [{ client := client.start parameters (choice world.connections.length) }] },
      run_trans ran (run_step rfl), ?_, same, ?_⟩
    · simp [acts, Event.act, Statement.act]
    · rw [connections]
      apply List.ext_getElem?
      intro i
      rcases Nat.lt_trichotomy i world.connections.length with old | rfl | beyond
      · simp [List.getElem?_append_left, old, Function.update_of_ne (Nat.ne_of_lt old)]
      · simp [Connection.completed]
      · rw [List.getElem?_eq_none (by simp; omega), List.getElem?_eq_none (by simp; omega)]

omit [Ord K] [Std.TransOrd K] [DecidableEq K] in
private theorem completed_set (connections : List (Connection R K V)) (connection : Connection R K V)
    (completion : Nat → Completion L K V) (changed : Completion L K V) (choice : Nat → Answers) (i : Nat) :
    (connections.set i connection).mapIdx
        (fun j connection => connection.completed (Function.update completion i changed j (choice j))) =
      (connections.mapIdx fun j connection => connection.completed (completion j (choice j))).set i
        (connection.completed (changed (choice i))) := by
  apply List.ext_getElem?
  intro j
  by_cases own : i = j
  · subst own
    simp only [List.getElem?_mapIdx, List.getElem?_set_self']
    cases connections[i]? <;> simp
  · simp [List.getElem?_set_ne own, Function.update_of_ne (Ne.symm own)]

omit [Std.TransOrd K] [DecidableEq K] in
private theorem left_set {connection : Connection R K V} {changed : Completion L K V} {i : Nat}
    (left : ∀ j connection, world.connections[j]? = some connection →
      Left connection.client (completion j)) (here : Left connection.client changed) :
    ∀ j other, (world.connections.set i connection)[j]? = some other →
      Left other.client (Function.update completion i changed j) := by
  intro j other found
  by_cases own : i = j
  · subst own
    rw [List.getElem?_set_self'] at found
    obtain ⟨_, _, rfl⟩ := Option.map_eq_some_iff.mp found
    rw [Function.update_self]
    exact here
  · rw [List.getElem?_set_ne own] at found
    rw [Function.update_of_ne (Ne.symm own)]
    exact left j other found

/-- A settlement is one of the coarser system: what is left of the connection's callbacks
does not depend on answers any more. -/
theorem World.Covered.settle {world' : World R K V} (atomic : machine.Atomic client Left)
    (covered : world.Covered client Left base statements completion)
    (stepped : world.stepStatement machine (.settle i j verdict) = some world') :
    ∃ completion', world'.Covered client Left base (statements ++ [.settle i j verdict]) completion' := by
  simp only [stepStatement, Option.bind_eq_bind, Option.bind_eq_some_iff] at stepped
  obtain ⟨connection, found, operation, waiting, ⟨db, attempt, future⟩, settled, state, fired,
    made⟩ := stepped
  cases made
  obtain ⟨rest, finished, pending, goesOn⟩ := atomic.fire (covered.left i connection found) waiting fired
  refine ⟨Function.update completion i fun answers => client.resume answers rest future,
    left_set covered.left goesOn, fun choice => ?_⟩
  obtain ⟨events, coarse, ran, acts, same, connections⟩ := covered.runs choice
  have here : coarse.connections[i]? = some ⟨rest, connection.attempt⟩ := by
    rw [connections, List.getElem?_mapIdx, found, Option.map_some, finished, Connection.completed,
      List.append_nil]
  obtain ⟨db', settled', same'⟩ := same.settle rest settled
  have next : coarse.step client (.settle i verdict (choice i)) = some {
      db := db'
      connections := coarse.connections.set i
        { client := (client.resume (choice i) rest future).1
          attempt := { attempt with
            writes := attempt.writes ++ (client.resume (choice i) rest future).2 } } } := by
    simp only [step, here, pending, settled', Option.bind_eq_bind, Option.bind_some]
    rfl
  refine ⟨events ++ [.settle i verdict (choice i)], _, run_trans ran (run_step next), ?_, same', ?_⟩
  · simp [acts, Event.act, Statement.act]
  · rw [completed_set, connections]
    rfl

/-- A statement changes nothing of what its callback leads to; the answer that it got is
the one that the whole callback gets. -/
theorem World.Covered.run {world' : World R K V} (atomic : machine.Atomic client Left)
    (covered : world.Covered client Left base statements completion)
    (stepped : world.stepStatement machine (.run i j answered) = some world') :
    ∃ completion', world'.Covered client Left base (statements ++ [.run i j answered]) completion' := by
  simp only [stepStatement, Option.bind_eq_bind, Option.bind_eq_some_iff] at stepped
  obtain ⟨connection, found, ⟨state, sets⟩, went, made⟩ := stepped
  cases made
  obtain ⟨completion', goesOn, continues⟩ := atomic.run (covered.left i connection found) went
  refine ⟨Function.update completion i completion', left_set covered.left goesOn, fun choice => ?_⟩
  obtain ⟨answers', continues⟩ := continues (choice i)
  obtain ⟨events, coarse, ran, acts, same, connections⟩ := covered.runs (Function.update choice i answers')
  refine ⟨events, coarse, ran, ?_, same, ?_⟩
  · simp [acts, Statement.act]
  · rw [completed_set, connections]
    apply List.ext_getElem?
    intro k
    by_cases own : i = k
    · subst own
      simp [List.getElem?_set_self', found, Connection.completed, continues]
    · simp [List.getElem?_set_ne own, Function.update_of_ne (Ne.symm own)]

/-- One statement is covered: either the coarser world stays as it is, or it takes one step,
when the database settles an operation. -/
theorem World.Covered.step {world' : World R K V} {statement : Statement S}
    (atomic : machine.Atomic client Left)
    (covered : world.Covered client Left base statements completion)
    (stepped : world.stepStatement machine statement = some world') :
    ∃ completion', world'.Covered client Left base (statements ++ [statement]) completion' := by
  cases statement with
  | start parameters =>
    cases stepped
    exact ⟨_, covered.start atomic parameters⟩
  | settle i j verdict => exact covered.settle atomic stepped
  | run i j answered => exact covered.run atomic stepped

/-- Along a whole run of statements there is a run of whole callbacks with the same commits, in
the same order, that shows the same answers. -/
theorem World.Covered.runStatements {world' : World R K V} (atomic : machine.Atomic client Left)
    (covered : world.Covered client Left base statements completion) {more : List (Statement S)}
    (ran : world.runStatements machine more = some world') :
    ∃ completion', world'.Covered client Left base (statements ++ more) completion' := by
  induction more generalizing world statements completion with
  | nil =>
    cases ran
    exact ⟨completion, by rwa [List.append_nil]⟩
  | cons statement rest ih =>
    obtain ⟨middle, stepped, ran⟩ := Option.bind_eq_some_iff.mp ran
    obtain ⟨_, covered⟩ := covered.step atomic stepped
    rw [List.append_cons]
    exact ih covered ran

/-- **Whole callbacks suffice.** Every run of single statements is one of whole callbacks
with the same requests and settlements, in the same order, and the same commits; each
connection is what its callbacks in progress will leave it as. -/
theorem StepClient.Atomic.covered [Nonempty L] {world : World R K V}
    (atomic : machine.Atomic client Left)
    (ran : (World.initial base).runStatements machine statements = some world) :
    ∃ completion, world.Covered client Left base statements completion :=
  (World.covered_initial fun _ _ => (Classical.arbitrary L, [])).runStatements atomic ran

end Cover

/-! ## Whole callbacks as statements -/

/-- The world of statements in which every connection stands where it does in the other. -/
structure World.Stands (machine : StepClient S R K V) (client : Client S L K V)
    (Left : R → Completion L K V → Prop) (sent : R → List ρ) (answer : L → Option ρ) (world : World R K V)
    (world' : World L K V) : Prop where
  commits : world'.db.SameCommits world.db
  connections : List.Forall₂ (fun connection connection' =>
    machine.Stands client Left sent answer connection.client connection'.client ∧
      connection.attempt = connection'.attempt) world.connections world'.connections

section Standing
variable {ρ : Type} {machine : StepClient S R K V} {client : Client S L K V}
  {Left : R → Completion L K V → Prop} {sent : R → List ρ} {answer : L → Option ρ}
  {world : World R K V} {world' next : World L K V} {base : Store K V}

private theorem World.runStatements_append (first second : List (Statement S)) (world : World R K V) :
    world.runStatements machine (first ++ second) =
      (world.runStatements machine first).bind (·.runStatements machine second) := by
  induction first generalizing world with
  | nil => rfl
  | cons statement rest ih =>
    simp only [List.cons_append, runStatements, Option.bind_eq_bind, Option.bind_assoc, ih]

/-- The world after some turns of one client. -/
def World.advance (world : World R K V) (i : Nat) (connection : Connection R K V) (state : R)
    (sets : List (K × V)) : World R K V where
  db := world.db
  connections := world.connections.set i
    { client := state, attempt := { connection.attempt with writes := connection.attempt.writes ++ sets } }

private theorem World.runStatements_turns {world : World R K V} {connection : Connection R K V}
    {turns : List (Nat × Answers)} {state : R} {sets : List (K × V)}
    (found : world.connections[i]? = some connection)
    (ran : machine.runs connection.client turns = some (state, sets)) :
    world.runStatements machine (turns.map fun turn => .run i turn.1 turn.2) =
      some (world.advance i connection state sets) := by
  induction turns generalizing world connection sets with
  | nil =>
    cases ran
    obtain ⟨inside, rfl⟩ := List.getElem?_eq_some_iff.mp found
    have kept := List.set_getElem_self inside
    simp only [advance, List.append_nil]
    exact congrArg (fun connections => some (World.mk world.db connections)) kept.symm
  | cons turn rest ih =>
    simp only [StepClient.runs, Option.bind_eq_bind, Option.bind_eq_some_iff] at ran
    obtain ⟨⟨next, added⟩, ran, ⟨last, more⟩, others, same⟩ := ran
    cases same
    obtain ⟨inside, _⟩ := List.getElem?_eq_some_iff.mp found
    have here : (world.advance i connection next added).connections[i]? = some {
        client := next
        attempt := { connection.attempt with writes := connection.attempt.writes ++ added } } :=
      List.getElem?_set_self inside
    have first : world.stepStatement machine (.run i turn.1 turn.2) =
        some (world.advance i connection next added) := by
      simp only [stepStatement, found, ran, Option.bind_eq_bind, Option.bind_some, Option.pure_def, advance]
    rw [List.map_cons, runStatements, first, Option.bind_eq_bind, Option.bind_some, ih here others]
    simp [advance]

private theorem forall₂_set {α β : Type} {related : α → β → Prop} {xs : List α} {ys : List β}
    {x : α} {y : β}
    (all : List.Forall₂ related xs ys) (here : related x y) (i : Nat) :
    List.Forall₂ related (xs.set i x) (ys.set i y) := by
  induction all generalizing i with
  | nil => exact .nil
  | cons first _ ih =>
    cases i with
    | zero => exact .cons here ‹_›
    | succ i => exact .cons first (ih i)

omit [Std.TransOrd K] [DecidableEq K] in
/-- Every connection of the coarser world has its own in the finer one, which stands where it
does. -/
theorem World.Stands.found {i : Nat} {connection' : Connection L K V}
    (stands : world.Stands machine client Left sent answer world')
    (found' : world'.connections[i]? = some connection') :
    ∃ connection, world.connections[i]? = some connection ∧
      machine.Stands client Left sent answer connection.client connection'.client ∧
      connection.attempt = connection'.attempt := by
  obtain ⟨inside', rfl⟩ := List.getElem?_eq_some_iff.mp found'
  have inside : i < world.connections.length := by rwa [stands.connections.length_eq]
  exact ⟨_, List.getElem?_eq_getElem inside, stands.connections.get inside inside'⟩

/-- A request of the coarser world is played by its start and the statements of its entry point
to the end. -/
theorem World.Stands.start (atomic : machine.Atomic client Left)
    (ends : machine.Ends client Left sent answer)
    (stands : world.Stands machine client Left sent answer world') (parameters : S) (answers : Answers) :
    ∃ statements after, world.runStatements machine statements = some after ∧
      statements.filterMap Statement.act = [.start parameters] ∧
      after.Stands machine client Left sent answer { world' with
        connections := world'.connections ++ [{ client := client.start parameters answers }] } := by
  obtain ⟨turns, state, ran, here⟩ := ends.ends (atomic.start parameters) answers
  obtain ⟨opened, same⟩ : ∃ opened : World R K V, opened = { world with
      connections := world.connections ++ [{ client := machine.start parameters }] } := ⟨_, rfl⟩
  have opens : world.stepStatement machine (.start parameters) = some opened := congrArg some same.symm
  have found : opened.connections[world.connections.length]? =
      some { client := machine.start parameters } := by simp [same]
  refine ⟨.start parameters :: turns.map (fun turn => .run world.connections.length turn.1 turn.2),
    opened.advance world.connections.length { client := machine.start parameters } state [],
    ?_, ?_, ?_, ?_⟩
  · rw [runStatements, opens]
    exact runStatements_turns found ran
  · simp [Statement.act, List.filterMap_map, Function.comp_def]
  · exact same ▸ stands.commits
  · rw [World.advance, same, List.set_append_right _ _ (Nat.le_refl _), Nat.sub_self]
    exact List.rel_append stands.connections (.cons ⟨here, rfl⟩ .nil)

/-- A settlement of the coarser world is played by the same settlement and the statements of the
callback to its end. -/
theorem World.Stands.settle (atomic : machine.Atomic client Left)
    (ends : machine.Ends client Left sent answer)
    (stands : world.Stands machine client Left sent answer world')
    (stepped : world'.step client (.settle i verdict answers) = some next) :
    ∃ statements after, world.runStatements machine statements = some after ∧
      statements.filterMap Statement.act = [.settle i verdict] ∧
      after.Stands machine client Left sent answer next := by
  simp only [step, Option.bind_eq_bind, Option.bind_eq_some_iff] at stepped
  obtain ⟨connection', found', operation, pending, ⟨db', attempt, future⟩, settled', made⟩ := stepped
  cases made
  obtain ⟨connection, found, here, attempts⟩ := stands.found found'
  obtain ⟨inside, _⟩ := List.getElem?_eq_some_iff.mp found
  obtain ⟨j, outstanding, fires⟩ := here.waits operation pending
  obtain ⟨state, fired⟩ := fires future
  obtain ⟨db, settled, commits⟩ := stands.commits.settle connection.client settled'
  rw [← attempts] at settled
  obtain ⟨settling, same⟩ : ∃ settling : World R K V, settling =
      { db, connections := world.connections.set i { client := state, attempt } } := ⟨_, rfl⟩
  have settles : world.stepStatement machine (.settle i j verdict) = some settling := by
    simp only [stepStatement, found, outstanding, settled, fired, same, Option.bind_eq_bind,
      Option.bind_some, Option.pure_def]
  obtain ⟨rest, finished, _, goesOn⟩ := atomic.fire here.left outstanding fired
  obtain rfl : connection'.client = rest := congrArg Prod.fst (finished answers)
  obtain ⟨turns, last, ran, stands'⟩ := ends.ends goesOn answers
  have opened : settling.connections[i]? = some { client := state, attempt } := by
    rw [same]
    exact List.getElem?_set_self inside
  refine ⟨.settle i j verdict :: turns.map (fun turn => .run i turn.1 turn.2),
    settling.advance i { client := state, attempt } last
      (client.resume answers connection'.client future).2, ?_, ?_, ?_, ?_⟩
  · rw [runStatements, settles]
    exact runStatements_turns opened ran
  · simp [Statement.act, List.filterMap_map, Function.comp_def]
  · exact same ▸ commits
  · rw [World.advance, same, List.set_set]
    exact forall₂_set stands.connections ⟨stands', rfl⟩ i

/-- One step of the coarser world can be played by statements: the settlement, and then the
callback to its end. -/
theorem World.Stands.step {event : Event S} (atomic : machine.Atomic client Left)
    (ends : machine.Ends client Left sent answer)
    (stands : world.Stands machine client Left sent answer world')
    (stepped : world'.step client event = some next) :
    ∃ statements after, world.runStatements machine statements = some after ∧
      statements.filterMap Statement.act = [event.act] ∧
      after.Stands machine client Left sent answer next := by
  cases event with
  | start parameters answers =>
    cases stepped
    exact stands.start atomic ends parameters answers
  | settle i verdict answers => exact stands.settle atomic ends stepped

theorem World.Stands.run {events : List (Event S)} (atomic : machine.Atomic client Left)
    (ends : machine.Ends client Left sent answer)
    (stands : world.Stands machine client Left sent answer world')
    (ran : world'.run client events = some next) :
    ∃ statements after, world.runStatements machine statements = some after ∧
      statements.filterMap Statement.act = events.map Event.act ∧
      after.Stands machine client Left sent answer next := by
  induction events generalizing world world' with
  | nil =>
    cases ran
    exact ⟨[], world, rfl, rfl, stands⟩
  | cons event rest ih =>
    obtain ⟨middle, stepped, ran⟩ := Option.bind_eq_some_iff.mp ran
    obtain ⟨first, reached, went, acts, stands⟩ := stands.step atomic ends stepped
    obtain ⟨others, after, goesOn, acts', stands⟩ := ih stands ran
    refine ⟨first ++ others, after, ?_, ?_, stands⟩
    · rw [runStatements_append, went, Option.bind_some, goesOn]
    · rw [List.filterMap_append, acts, acts', List.map_cons, List.singleton_append]

/-- **Whole callbacks are statements.** Every run of whole callbacks is one of single
statements with the same requests and settlements and the same commits, in which every
connection has come to stand where it does there. -/
theorem StepClient.Ends.reached {events : List (Event S)} (ends : machine.Ends client Left sent answer)
    (atomic : machine.Atomic client Left) (ran : (World.initial base).run client events = some world') :
    ∃ statements world, (World.initial base).runStatements machine statements = some world ∧
      statements.filterMap Statement.act = events.map Event.act ∧
      world.Stands machine client Left sent answer world' :=
  World.Stands.run atomic ends ⟨⟨rfl, rfl⟩, .nil⟩ ran

/-- What a run of single statements shows is explained by one of whole callbacks. -/
theorem StepClient.Ends.explained [Nonempty L] {statements : List (Statement S)}
    (ends : machine.Ends client Left sent answer) (atomic : machine.Atomic client Left)
    (ran : (World.initial base).runStatements machine statements = some world) :
    ∃ events world', (World.initial base).run client events = some world' ∧
      events.map Event.act = statements.filterMap Statement.act ∧ world.db.SameCommits world'.db ∧
      ∀ (i : Nat) connection, world.connections[i]? = some connection →
        ∃ connection', world'.connections[i]? = some connection' ∧
          ∀ response ∈ sent connection.client, answer connection'.client = some response := by
  obtain ⟨completion, covered⟩ := atomic.covered ran
  obtain ⟨events, world', ran', acts, same, connections⟩ := covered.runs fun _ => {}
  refine ⟨events, world', ran', acts, same, fun i connection found => ?_⟩
  refine ⟨connection.completed (completion i {}), ?_, fun response shown => ?_⟩
  · rw [connections, List.getElem?_mapIdx, found, Option.map_some]
  · exact ends.shown (covered.left i connection found) shown {}

end Standing

end H2oTpcc

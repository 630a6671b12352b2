import Mathlib.Data.List.Induction
import H2oTpcc.CallbackChain
import H2oTpcc.OptimisticStore

/-! Any number of clients working on one optimistic store, interleaved future by
future. A client is resumed when the operation it has outstanding is settled; the
database decides how, within what it promises. `serial_log` is the rule that turns
an invariant of one client's attempt into a fact about every commit of every run:
a committed buffer is what the transaction would have computed on the store just
before it. -/
namespace H2oTpcc

/-- A client of the store, over the parameters `S` it is started with. -/
structure Client (S L K V : Type) where
  start : S → Answers → L
  /-- The operation whose future is outstanding. -/
  pending : L → Option (Operation K)
  /-- Continues with a ready future; returns the sets buffered on the way. -/
  resume : Answers → L → Future K V → L × List (K × V)

def Chain.client (chain : Chain S σ κ K V ρ) : Client S (Session σ κ K V ρ) K V where
  start := chain.start
  pending session := session.pending.map Prod.fst
  resume answers session future :=
    (chain.resume answers session future, (chain.resume answers session future).sets)

/-- Clients of either kind. -/
def Client.sum (left : Client S L K V) (right : Client T M K V) : Client (S ⊕ T) (L ⊕ M) K V where
  start
    | .inl parameters, answers => .inl (left.start parameters answers)
    | .inr parameters, answers => .inr (right.start parameters answers)
  pending
    | .inl client => left.pending client
    | .inr client => right.pending client
  resume answers
    | .inl client, future =>
      (.inl (left.resume answers client future).1, (left.resume answers client future).2)
    | .inr client, future =>
      (.inr (right.resume answers client future).1, (right.resume answers client future).2)

/-- A client and the current attempt of its transaction. -/
structure Connection (L K V : Type) where
  client : L
  attempt : Attempt K V := {}

/-- The database and all connections ever opened. The author of a commit is the
connection's number with the client as it stood at the commit. -/
structure World (L K V : Type) [Ord K] where
  db : Database K V (Nat × L)
  connections : List (Connection L K V) := []

/-- How the database settles an outstanding operation. -/
inductive Verdict where
  /-- A read, from `version` if it is the attempt's first. -/
  | read (version : Nat)
  | committed
  /-- The commit's outcome is not reported; it may or may not have happened. -/
  | unknown (applied : Bool)
  | failed (code : Nat)
  /-- The error was retryable: the transaction is reset. -/
  | reset

inductive Event (S : Type) where
  | start (parameters : S) (answers : Answers)
  | settle (connection : Nat) (verdict : Verdict) (answers : Answers)

/-- `commit_unknown_result`. -/
def commitUnknownResult : Nat := 1021

variable {S L K V : Type} [Ord K] [Std.TransOrd K] [DecidableEq K]

/-- The attempt after a read of `key` at `version`. -/
def Attempt.readFrom (attempt : Attempt K V) (db : Database K V A) (version : Nat) (key : K) :
    Attempt K V :=
  { attempt with
    version := some version
    reads := attempt.reads ++ [(key, (db.asOf version)[key]?)] }

/-- The database after settling `operation`, the client's attempt and the ready
future; nothing when this verdict is not possible here. A get sees the attempt's
own sets first, and only a get from the store is checked for conflicts. -/
def settle (db : Database K V (Nat × L)) (author : Nat × L) (attempt : Attempt K V)
    (operation : Operation K) (verdict : Verdict) :
    Option (Database K V (Nat × L) × Attempt K V × Future K V) :=
  match operation, verdict with
  | .get key, .read version =>
    match lastWrite attempt.writes key with
    | some buffered => some (db, attempt, .value (some buffered))
    | none =>
      if attempt.version.getD version ≤ db.log.length then
        some (db, attempt.readFrom db (attempt.version.getD version) key,
          .value (db.asOf (attempt.version.getD version))[key]?)
      else none
  | .commit, .committed =>
    if attempt.Conflicts db then none
    else some (db.append ⟨author, attempt.writes⟩, attempt, .done)
  | .commit, .unknown true =>
    if attempt.Conflicts db then none
    else some (db.append ⟨author, attempt.writes⟩, attempt, .error commitUnknownResult)
  | .commit, .unknown false => some (db, attempt, .error commitUnknownResult)
  | .onError _, .reset => some (db, {}, .done)
  | _, .failed code => if code = 0 then none else some (db, attempt, .error code)
  | _, _ => none

namespace World

def initial (base : Store K V) : World L K V := { db := { base } }

def step (client : Client S L K V) (world : World L K V) : Event S → Option (World L K V)
  | .start parameters answers =>
    some { world with connections := world.connections ++ [{ client := client.start parameters answers }] }
  | .settle i verdict answers => do
    let connection ← world.connections[i]?
    let operation ← client.pending connection.client
    let (db, attempt, future) ←
      settle world.db (i, connection.client) connection.attempt operation verdict
    let (resumed, sets) := client.resume answers connection.client future
    return {
      db
      connections := world.connections.set i
        { client := resumed, attempt := { attempt with writes := attempt.writes ++ sets } } }

def run (client : Client S L K V) (world : World L K V) : List (Event S) → Option (World L K V)
  | [] => some world
  | event :: rest => do (← world.step client event).run client rest

/-- The worlds that runs from the store `base` lead to. -/
def Reachable (client : Client S L K V) (base : Store K V) (world : World L K V) : Prop :=
  ∃ events, (initial base).run client events = some world

end World

omit [DecidableEq K] in
theorem World.initial_store (base : Store K V) :
    (World.initial base : World L K V).db.store = base := rfl

/-! ## What a step can do -/

/-- The possible settlements of an operation. -/
inductive Settles (db : Database K V (Nat × L)) (author : Nat × L) (attempt : Attempt K V) :
    Operation K → Verdict → Database K V (Nat × L) → Attempt K V → Future K V → Prop where
  | buffered (own : lastWrite attempt.writes key = some value) :
      Settles db author attempt (.get key) (.read version) db attempt (.value (some value))
  | read (unset : lastWrite attempt.writes key = none)
      (same : ∀ earlier, attempt.version = some earlier → version = earlier)
      (within : version ≤ db.log.length) :
      Settles db author attempt (.get key) (.read asked) db (attempt.readFrom db version key)
        (.value (db.asOf version)[key]?)
  | committed (clear : ¬ attempt.Conflicts db) :
      Settles db author attempt .commit .committed (db.append ⟨author, attempt.writes⟩) attempt .done
  | applied (clear : ¬ attempt.Conflicts db) :
      Settles db author attempt .commit (.unknown true) (db.append ⟨author, attempt.writes⟩) attempt
        (.error commitUnknownResult)
  | lost : Settles db author attempt .commit (.unknown false) db attempt (.error commitUnknownResult)
  | reset : Settles db author attempt (.onError code) .reset db {} .done
  | failed (nonzero : code ≠ 0) :
      Settles db author attempt operation (.failed code) db attempt (.error code)

/-- Every verdict of the database and when it is allowed: reads see one version, a commit needs
to be free of conflicts, and any operation may fail. -/
theorem settle_cases {db db' : Database K V (Nat × L)}
    (settled : settle db author attempt operation verdict = some (db', attempt', future)) :
    Settles db author attempt operation verdict db' attempt' future := by
  unfold settle at settled
  split at settled
  · split at settled
    · cases settled
      exact .buffered ‹_›
    · split at settled
      · rename_i unset within
        cases settled
        exact .read unset (fun earlier chosen => by simp [chosen]) within
      · cases settled
  · split at settled
    · cases settled
    · cases settled
      exact .committed ‹_›
  · split at settled
    · cases settled
    · cases settled
      exact .applied ‹_›
  · cases settled
    exact .lost
  · cases settled
    exact .reset
  · split at settled
    · cases settled
    · cases settled
      exact .failed ‹_›
  · cases settled

/-- What an attempt has recorded as read stays what its version says, whatever is committed
meanwhile. -/
theorem Settles.faithful {db db' : Database K V (Nat × L)}
    (settles : Settles db author attempt operation verdict db' attempt' future)
    (faithful : attempt.Faithful db) : attempt'.Faithful db' := by
  cases settles with
  | buffered | lost | failed => exact faithful
  | committed | applied => exact faithful.append _
  | reset => exact Attempt.faithful_empty _
  | read unset same within =>
    constructor
    · intro version chosen
      cases chosen
      exact within
    · intro read member
      rcases List.mem_append.mp member with earlier | last
      · obtain ⟨version, chosen, value⟩ := faithful.reads_from read earlier
        exact ⟨version, by rw [← same version chosen]; rfl, value⟩
      · cases List.mem_singleton.mp last
        exact ⟨_, rfl, rfl⟩

/-- A settlement adds at most one commit, with the sets that the attempt has buffered and in the
name of its connection. -/
theorem Settles.log {db db' : Database K V (Nat × L)}
    (settles : Settles db author attempt operation verdict db' attempt' future) :
    db' = db ∨ operation = .commit ∧ ¬ attempt.Conflicts db ∧
      db' = db.append ⟨author, attempt.writes⟩ := by
  cases settles with
  | committed clear | applied clear => exact .inr ⟨rfl, clear, rfl⟩
  | _ => exact .inl rfl

/-- An acknowledged commit is the next one of the log, and the client is told so. -/
theorem Settles.of_committed {db db' : Database K V (Nat × L)}
    (settles : Settles db author attempt operation .committed db' attempt' future) :
    operation = .commit ∧ db' = db.append ⟨author, attempt.writes⟩ ∧ attempt' = attempt ∧
      future = .done := by
  cases settles
  exact ⟨rfl, rfl, rfl, rfl⟩

/-- A step opens a connection or settles what one connection has outstanding. -/
theorem World.step_cases {client : Client S L K V} {world world' : World L K V} {event : Event S}
    (stepped : world.step client event = some world') :
    (∃ parameters answers, event = .start parameters answers ∧ world' = { world with
        connections := world.connections ++ [{ client := client.start parameters answers }] }) ∨
    (∃ i verdict answers connection operation attempt future, event = .settle i verdict answers ∧
      world.connections[i]? = some connection ∧ client.pending connection.client = some operation ∧
      Settles world.db (i, connection.client) connection.attempt operation verdict world'.db attempt
        future ∧
      world'.connections = world.connections.set i
        { client := (client.resume answers connection.client future).1
          attempt := { attempt with
            writes := attempt.writes ++ (client.resume answers connection.client future).2 } }) := by
  cases event with
  | start parameters answers =>
    cases stepped
    exact .inl ⟨parameters, answers, rfl, rfl⟩
  | settle i verdict answers =>
    simp only [World.step, Option.bind_eq_bind, Option.bind_eq_some_iff] at stepped
    obtain ⟨connection, found, operation, pending, ⟨db, attempt, future⟩, settled, resumed⟩ := stepped
    cases resumed
    exact .inr ⟨i, verdict, answers, connection, operation, attempt, future, rfl, found, pending,
      settle_cases settled, rfl⟩

/-! ## Runs -/

namespace World

theorem run_append (client : Client S L K V) (world : World L K V) (first second : List (Event S)) :
    world.run client (first ++ second) = (world.run client first).bind (·.run client second) := by
  induction first generalizing world with
  | nil => rfl
  | cons event rest ih =>
    simp only [List.cons_append, run, Option.bind_eq_bind, Option.bind_assoc]
    exact congrArg _ (funext fun next => ih next)

theorem run_trans {client : Client S L K V} {world middle world' : World L K V}
    {first second : List (Event S)}
    (ran : world.run client first = some middle) (continued : middle.run client second = some world') :
    world.run client (first ++ second) = some world' := by
  rw [run_append, ran, Option.bind_some, continued]

theorem run_step {client : Client S L K V} {world world' : World L K V} {event : Event S}
    (stepped : world.step client event = some world') : world.run client [event] = some world' := by
  simp [run, stepped]

/-- The induction over a run: what holds initially and survives every step holds at
the end, whatever it says of the events so far. -/
theorem run_invariant {client : Client S L K V} {base : Store K V}
    {P : List (Event S) → World L K V → Prop}
    (start : P [] (initial base))
    (step : ∀ events world event world', Reachable client base world → P events world →
      world.step client event = some world' → P (events ++ [event]) world')
    (ran : (initial base).run client events = some world) : P events world := by
  induction events using List.reverseRecOn generalizing world with
  | nil => cases ran; exact start
  | append_singleton events event ih =>
    rw [run_append, Option.bind_eq_some_iff] at ran
    obtain ⟨middle, before, last⟩ := ran
    simp only [run, Option.bind_eq_bind, Option.bind_eq_some_iff] at last
    obtain ⟨next, stepped, same⟩ := last
    cases same
    exact step events middle event _ ⟨events, before⟩ (ih before) stepped

/-- The invariant rule: what holds initially and survives every step from a
reachable world holds in every reachable world. -/
theorem reachable_invariant {client : Client S L K V} {base : Store K V} {P : World L K V → Prop}
    (start : P (initial base))
    (step : ∀ world event world', Reachable client base world → P world →
      world.step client event = some world' → P world')
    (reachable : Reachable client base world) : P world := by
  obtain ⟨events, ran⟩ := reachable
  exact run_invariant (P := fun _ => P) start (fun _ => step) ran

/-- No step touches the store that a run started from; versions are counted from it. -/
theorem reachable_base {client : Client S L K V} {base : Store K V}
    (reachable : Reachable client base world) : world.db.base = base := by
  refine reachable_invariant (P := fun world => world.db.base = base) rfl ?_ reachable
  intro world event world' _ before stepped
  rcases step_cases stepped with ⟨_, _, _, rfl⟩ | ⟨_, _, _, _, _, _, _, _, _, _, settles, _⟩
  · exact before
  · rcases settles.log with same | ⟨_, _, grown⟩
    · rw [same, before]
    · rw [grown, Database.append_base, before]

end World

/-! ## One client's invariant, every commit's meaning -/

/-- What a settlement means to the client alone: how its attempt changes and
which future it sees. -/
inductive Delivers : Operation K → Attempt K V → Attempt K V → Future K V → Prop where
  | buffered (own : lastWrite attempt.writes key = some value) :
      Delivers (.get key) attempt attempt (.value (some value))
  | read (version : Nat) (found : Option V) (unset : lastWrite attempt.writes key = none) :
      Delivers (.get key) attempt
        { attempt with version := some version, reads := attempt.reads ++ [(key, found)] }
        (.value found)
  | committed : Delivers .commit attempt attempt .done
  | reset : Delivers (.onError code) attempt {} .done
  | failed (nonzero : code ≠ 0) : Delivers operation attempt attempt (.error code)

/-- All that a client can learn from a settlement is in its future and in its own attempt. -/
theorem Settles.delivers {db db' : Database K V (Nat × L)}
    (settles : Settles db author attempt operation verdict db' attempt' future) :
    Delivers operation attempt attempt' future := by
  cases settles with
  | buffered own => exact .buffered own
  | read unset _ _ => exact .read _ _ unset
  | committed => exact .committed
  | applied | lost => exact .failed (by decide)
  | reset => exact .reset
  | failed nonzero => exact .failed nonzero

/-- Every view that agrees with these reads satisfies the fact. -/
def Known (reads : List (K × Option V)) (fact : (K → Option V) → Prop) : Prop :=
  ∀ view, (∀ read ∈ reads, view read.1 = read.2) → fact view

omit [Ord K] [Std.TransOrd K] [DecidableEq K] in
theorem Known.mono {reads : List (K × Option V)} {fact fact' : (K → Option V) → Prop}
    (known : Known reads fact) (weaker : ∀ view, fact view → fact' view) : Known reads fact' :=
  fun view agrees => weaker view (known view agrees)

omit [Ord K] [Std.TransOrd K] [DecidableEq K] in
/-- A read adds the value found to what is known, and nothing known before is lost: all reads of
an attempt are of one version. -/
theorem Known.read {reads : List (K × Option V)} {fact : (K → Option V) → Prop}
    (known : Known reads fact) (key : K) (found : Option V) :
    Known (reads ++ [(key, found)]) (fun view => view key = found ∧ fact view) := by
  intro view agrees
  refine ⟨agrees (key, found) (by simp), known view ?_⟩
  intro read member
  exact agrees read (List.mem_append_left _ member)

omit [Ord K] [Std.TransOrd K] in
/-- A get of an attempt without sets fails or tells what the store holds. -/
theorem Delivers.get_cases {attempt attempt' : Attempt K V} {key : K}
    (delivers : Delivers (.get key) attempt attempt' future) (clean : attempt.writes = []) :
    (∃ code, code ≠ 0 ∧ future = .error code) ∨
    (∃ found, future = .value found ∧ attempt'.writes = [] ∧
      ∀ fact, Known attempt.reads fact →
        Known attempt'.reads (fun view => view key = found ∧ fact view)) := by
  cases delivers with
  | buffered own =>
    rw [clean] at own
    cases own
  | read version found unset => exact .inr ⟨found, rfl, clean, fun fact known => known.read key found⟩
  | failed nonzero => exact .inl ⟨_, nonzero, rfl⟩

/-- An invariant of a client and its attempt that every delivery keeps. -/
structure LocalInvariant (client : Client S L K V) (Inv : L → Attempt K V → Prop) : Prop where
  start : ∀ parameters answers, Inv (client.start parameters answers) {}
  resume : ∀ answers {state attempt attempt' operation future}, Inv state attempt →
    client.pending state = some operation → Delivers operation attempt attempt' future →
    Inv (client.resume answers state future).1
      { attempt' with writes := attempt'.writes ++ (client.resume answers state future).2 }

omit [Ord K] [Std.TransOrd K] in
/-- Clients of two kinds on one store keep the invariant of their own kind, as they share the
store only. -/
theorem LocalInvariant.sum {left : Client S L K V} {right : Client T M K V}
    {Inv : L → Attempt K V → Prop} {Inv' : M → Attempt K V → Prop}
    (first : LocalInvariant left Inv) (second : LocalInvariant right Inv') :
    LocalInvariant (left.sum right) (fun state attempt => Sum.elim (Inv · attempt) (Inv' · attempt) state)
    where
  start
    | .inl parameters, answers => first.start parameters answers
    | .inr parameters, answers => second.start parameters answers
  resume answers {state} {_} {_} {_} {_} holds pending delivers := by
    cases state with
    | inl state => exact first.resume answers holds pending delivers
    | inr state => exact second.resume answers holds pending delivers

/-- The invariant of a session, given for each callback a future may run. -/
def SessionInv (At : κ → Operation K → σ → Attempt K V → Prop) (session : Session σ κ K V ρ)
    (attempt : Attempt K V) : Prop :=
  ∀ operation callback, session.pending = some (operation, callback) →
    At callback operation session.ctx attempt

omit [Ord K] [Std.TransOrd K] [DecidableEq K] in
theorem SessionInv.of_idle {At : κ → Operation K → σ → Attempt K V → Prop}
    {session : Session σ κ K V ρ} (idle : session.pending = none) : SessionInv At session attempt := by
  intro operation callback pending
  rw [idle] at pending
  cases pending

omit [Ord K] [Std.TransOrd K] [DecidableEq K] in
/-- A session that submits owes what the callback relies on; if the submission is refused, the
callback never runs. -/
theorem SessionInv.of_submit {At : κ → Operation K → σ → Attempt K V → Prop}
    {session : Session σ κ K V ρ} {answers : Answers} {operation : Operation K} {callback : κ}
    (idle : session.pending = none) (holds : At callback operation session.ctx attempt) :
    SessionInv At (session.submit answers operation callback) attempt := by
  intro operation' callback' pending
  rw [Session.submit_pending, idle] at pending
  split at pending
  · cases pending
    rw [Session.submit_ctx]
    exact holds
  · cases pending

/-- Run from this session, the body leaves the invariant to the next callback. -/
def Prog.HandsOn (At : κ → Operation K → σ → Attempt K V → Prop) (answers : Answers)
    (attempt : Attempt K V) (session : Session σ κ K V ρ) (body : Prog σ κ K V ρ Unit) : Prop :=
  SessionInv At (body.run answers session).2
    { attempt with writes := attempt.writes ++ (body.run answers session).2.sets }

omit [Ord K] [Std.TransOrd K] [DecidableEq K] in
theorem Prog.HandsOn.of_idle {At : κ → Operation K → σ → Attempt K V → Prop} {answers : Answers}
    {session after : Session σ κ K V ρ} {body : Prog σ κ K V ρ Unit}
    (ran : body.run answers session = ((), after)) (idle : after.pending = none) :
    body.HandsOn At answers attempt session := by
  unfold HandsOn
  rw [ran]
  exact SessionInv.of_idle idle

omit [Ord K] [Std.TransOrd K] [DecidableEq K] in
theorem Prog.HandsOn.of_run {At : κ → Operation K → σ → Attempt K V → Prop} {answers : Answers}
    {session session' : Session σ κ K V ρ} {body body' : Prog σ κ K V ρ Unit}
    (ran : body.run answers session = body'.run answers session')
    (holds : body'.HandsOn At answers attempt session') : body.HandsOn At answers attempt session := by
  unfold HandsOn
  rwa [ran]

omit [Ord K] [Std.TransOrd K] [DecidableEq K] in
/-- A callback that submits has to establish what the next one relies on, with the sets it has
buffered added to the attempt. -/
theorem Prog.HandsOn.of_submit {At : κ → Operation K → σ → Attempt K V → Prop} {answers : Answers}
    {session before : Session σ κ K V ρ} {body : Prog σ κ K V ρ Unit} {operation : Operation K}
    {callback : κ} (ran : body.run answers session = ((), before.submit answers operation callback))
    (idle : before.pending = none)
    (holds : At callback operation before.ctx { attempt with writes := attempt.writes ++ before.sets }) :
    body.HandsOn At answers attempt session := by
  unfold HandsOn
  rw [ran, Session.submit_sets]
  exact SessionInv.of_submit idle holds

omit [Ord K] [Std.TransOrd K] [DecidableEq K] in
/-- A ready future runs the callback that was waiting for it, in the context that it was
registered with. -/
theorem SessionInv.resume (chain : Chain S σ κ K V ρ) {At At' : κ → Operation K → σ → Attempt K V → Prop}
    {session : Session σ κ K V ρ} {attempt attempt' : Attempt K V} {operation : Operation K}
    {future : Future K V} (answers : Answers) (holds : SessionInv At session attempt)
    (pending : chain.client.pending session = some operation)
    (body : ∀ callback, At callback operation session.ctx attempt →
      (chain.body callback future).HandsOn At' answers attempt'
        { session with pending := none, sets := [] }) :
    SessionInv At' (chain.client.resume answers session future).1
      { attempt' with writes := attempt'.writes ++ (chain.client.resume answers session future).2 } := by
  change session.pending.map Prod.fst = _ at pending
  obtain ⟨⟨operation, callback⟩, waiting, rfl⟩ := Option.map_eq_some_iff.mp pending
  have resumed : chain.resume answers session future = ((chain.body callback future).run answers
      { session with pending := none, sets := [] }).2 := by
    simp only [Chain.resume, waiting]
  change SessionInv At' (chain.resume answers session future) _
  simp only [Chain.client, resumed]
  exact body callback (holds operation callback waiting)

omit [Ord K] [Std.TransOrd K] in
/-- A chain keeps an invariant that its entry point sets up and each callback
hands on to the next. -/
theorem Chain.localInvariant (chain : Chain S σ κ K V ρ)
    {At : κ → Operation K → σ → Attempt K V → Prop}
    (start : ∀ parameters answers, SessionInv At (chain.start parameters answers) {})
    (body : ∀ answers callback operation attempt attempt' future (session : Session σ κ K V ρ),
      At callback operation session.ctx attempt → Delivers operation attempt attempt' future →
      session.pending = none → session.sets = [] →
      (chain.body callback future).HandsOn At answers attempt' session) :
    LocalInvariant chain.client (SessionInv At) where
  start := start
  resume answers {_} {_} {_} {_} {_} holds pending delivers :=
    holds.resume chain answers pending fun callback here =>
      body answers callback _ _ _ _ _ here delivers rfl rfl

namespace World

/-- In every reachable world every connection keeps the invariant and has read
only what its version held. -/
theorem reachable_connections {client : Client S L K V} {base : Store K V}
    {Inv : L → Attempt K V → Prop} (invariant : LocalInvariant client Inv)
    (reachable : Reachable client base world) :
    ∀ connection ∈ world.connections, Inv connection.client connection.attempt ∧
      connection.attempt.Faithful world.db := by
  refine reachable_invariant (P := fun world => ∀ connection ∈ world.connections,
    Inv connection.client connection.attempt ∧ connection.attempt.Faithful world.db)
    (fun _ member => (by cases member)) ?_ reachable
  intro world event world' _ before stepped
  rcases step_cases stepped with ⟨parameters, answers, _, rfl⟩ |
    ⟨i, verdict, answers, connection, operation, attempt, future, _, found, pending, settles, after⟩
  · intro other member
    rcases List.mem_append.mp member with old | new
    · exact before other old
    · cases List.mem_singleton.mp new
      exact ⟨invariant.start parameters answers, Attempt.faithful_empty _⟩
  · obtain ⟨holds, faithful⟩ := before connection (List.mem_of_getElem? found)
    have kept : ∀ other ∈ world.connections, other.attempt.Faithful world'.db := by
      intro other member
      rcases settles.log with same | ⟨_, _, grown⟩
      · rw [same]; exact (before other member).2
      · rw [grown]; exact (before other member).2.append _
    intro other member
    rw [after] at member
    rcases List.mem_or_eq_of_mem_set member with old | new
    · exact ⟨(before other old).1, kept other old⟩
    · cases new
      obtain ⟨version_le, reads_from⟩ := settles.faithful faithful
      exact ⟨invariant.resume answers holds pending settles.delivers, version_le, reads_from⟩

/-- **Serializability.** If a pending commit's buffer is what `Spec` asks for on
every view that agrees with the attempt's reads, then every commit of every run
is what `Spec` asks for on the store just before it. -/
theorem serial_log [Std.LawfulEqOrd K] {client : Client S L K V} {base : Store K V}
    {Inv : L → Attempt K V → Prop} (Spec : L → (K → Option V) → List (K × V) → Prop)
    (invariant : LocalInvariant client Inv)
    (meaning : ∀ state attempt, Inv state attempt → client.pending state = some .commit →
      Known attempt.reads (fun view => Spec state view attempt.writes))
    (reachable : Reachable client base world) :
    ∀ version commit, world.db.log[version]? = some commit →
      Spec commit.author.2 (fun key => (world.db.asOf version)[key]?) commit.writes := by
  refine reachable_invariant (P := fun world => ∀ version commit,
    world.db.log[version]? = some commit →
      Spec commit.author.2 (fun key => (world.db.asOf version)[key]?) commit.writes)
    (fun _ _ found => (by cases found)) ?_ reachable
  intro world event world' reached before stepped
  rcases step_cases stepped with ⟨_, _, _, rfl⟩ |
    ⟨i, verdict, answers, connection, operation, attempt, future, _, found, pending, settles, _⟩
  · exact before
  rcases settles.log with same | ⟨rfl, clear, grown⟩
  · rw [same]; exact before
  · obtain ⟨holds, faithful⟩ := reachable_connections invariant reached connection
      (List.mem_of_getElem? found)
    intro version commit logged
    rw [grown, Database.append_log] at logged
    rcases Nat.lt_or_ge version world.db.log.length with old | new
    · rw [List.getElem?_append_left old] at logged
      rw [grown, Database.asOf_append _ _ (Nat.le_of_lt old)]
      exact before version commit logged
    · obtain ⟨rfl, rfl⟩ : version = world.db.log.length ∧
          commit = ⟨(i, connection.client), connection.attempt.writes⟩ := by
        rw [List.getElem?_append_right new, List.getElem?_singleton] at logged
        split at logged
        · cases logged
          exact ⟨by omega, rfl⟩
        · cases logged
      rw [grown, Database.asOf_append _ _ (Nat.le_refl _)]
      exact meaning _ _ holds pending _ (Attempt.reads_current faithful clear)

end World

end H2oTpcc

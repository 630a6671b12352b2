import H2oTpcc.TransactionSystem

/-! What a client's answer says about the store. A client that reports success just
when its commit is acknowledged has been applied once for that, and once more for
every commit whose success the database did not report. -/
namespace H2oTpcc

variable {S L K V : Type}

/-- The number of commits by one connection. -/
def appliedBy (i : Nat) (log : List (Commit K V (Nat × L))) : Nat :=
  log.countP (·.author.1 = i)

/-- The connection's commit was applied and reported as unknown. -/
def Event.appliedUnknown (i : Nat) : Event S → Bool
  | .settle j (.unknown true) _ => j = i
  | _ => false

/-- The events counted are the commits of one connection that were applied without its being
told. -/
theorem Event.appliedUnknown_iff {event : Event S} :
    event.appliedUnknown i = true ↔ ∃ answers, event = .settle i (.unknown true) answers := by
  unfold appliedUnknown
  split <;> simp_all [eq_comm]

/-- The future says that a commit went through. -/
def acknowledged : Operation K → Future K V → Bool
  | .commit, .done => true
  | _, _ => false

private theorem appliedBy_append (i : Nat) (log : List (Commit K V (Nat × L))) (author : Nat × L)
    (writes : List (K × V)) :
    appliedBy i (log ++ [⟨author, writes⟩]) = appliedBy i log + if author.1 = i then 1 else 0 := by
  simp [appliedBy, List.countP_append, List.countP_singleton]

section Reports
variable [DecidableEq K]

/-- A client answers at most once, when it has nothing outstanding, and answers with
success just when the future that becomes ready is a `success`. -/
structure Client.Replies (client : Client S L K V) (Inv : L → Attempt K V → Prop)
    (reply : L → Option Bool) (success : L → Operation K → Future K V → Bool) : Prop where
  start : ∀ parameters answers, reply (client.start parameters answers) ≠ some true ∧
    (reply (client.start parameters answers) ≠ none →
      client.pending (client.start parameters answers) = none)
  resume : ∀ answers {state attempt attempt' operation future}, Inv state attempt →
    client.pending state = some operation → reply state = none →
    Delivers operation attempt attempt' future →
    (reply (client.resume answers state future).1 = some true ↔ success state operation future) ∧
    (reply (client.resume answers state future).1 ≠ none →
      client.pending (client.resume answers state future).1 = none)

/-- A client that answers with success just when its commit is acknowledged. -/
abbrev Client.Reports (client : Client S L K V) (Inv : L → Attempt K V → Prop)
    (reply : L → Option Bool) : Prop :=
  client.Replies Inv reply fun _ => acknowledged

/-- Clients of two kinds on one store answer as each of them does. -/
theorem Client.Replies.sum {left : Client S L K V} {right : Client T M K V}
    {Inv : L → Attempt K V → Prop} {Inv' : M → Attempt K V → Prop} {reply : L → Option Bool}
    {reply' : M → Option Bool} {success : L → Operation K → Future K V → Bool}
    {success' : M → Operation K → Future K V → Bool} (first : left.Replies Inv reply success)
    (second : right.Replies Inv' reply' success') :
    (left.sum right).Replies (fun state attempt => Sum.elim (Inv · attempt) (Inv' · attempt) state)
      (Sum.elim reply reply') (Sum.elim success success') where
  start
    | .inl parameters, answers => first.start parameters answers
    | .inr parameters, answers => second.start parameters answers
  resume answers {state} {_} {_} {_} {_} holds pending unanswered delivers := by
    cases state with
    | inl state => exact first.resume answers holds pending unanswered delivers
    | inr state => exact second.resume answers holds pending unanswered delivers

/-- Only what is told and when matters, not how the two are computed. -/
theorem Client.Replies.congr {client : Client S L K V} {Inv : L → Attempt K V → Prop}
    {reply reply' : L → Option Bool} {success success' : L → Operation K → Future K V → Bool}
    (replies : client.Replies Inv reply success) (told : ∀ state, reply' state = reply state)
    (ready : ∀ state, success' state = success state) : client.Replies Inv reply' success' := by
  rw [funext told, funext ready]
  exact replies

/-- Two kinds of clients that tell of success at an acknowledged commit only do so together. -/
theorem Client.Reports.sum {left : Client S L K V} {right : Client T M K V}
    {Inv : L → Attempt K V → Prop} {Inv' : M → Attempt K V → Prop} {reply : L → Option Bool}
    {reply' : M → Option Bool} (first : left.Reports Inv reply) (second : right.Reports Inv' reply') :
    (left.sum right).Reports (fun state attempt => Sum.elim (Inv · attempt) (Inv' · attempt) state)
      (Sum.elim reply reply') :=
  (Client.Replies.sum first second).congr (fun _ => rfl) fun state => by cases state <;> rfl

variable {σ κ ρ : Type}

/-- What a callback must leave behind, `success` being that its future is an
acknowledged commit. -/
def Session.Reports (ok : ρ → Bool) (success : Bool) (session : Session σ κ K V ρ) : Prop :=
  (session.reply.map ok = some true ↔ success) ∧ (session.reply ≠ none → session.pending = none)

omit [DecidableEq K] in
/-- A callback that goes on to another operation tells nothing yet. -/
theorem Session.Reports.of_submit {ok : ρ → Bool} {session : Session σ κ K V ρ}
    (unanswered : session.reply = none) (unfinished : success = false) :
    (session.submit answers operation callback).Reports ok success := by
  simp [Reports, unanswered, unfinished]

omit [DecidableEq K] in
/-- A callback that ends with an answer has to tell the truth, and to leave nothing outstanding. -/
theorem Session.Reports.of_reply {ok : ρ → Bool} {session : Session σ κ K V ρ}
    {answer : ρ} (answered : session.reply = some answer) (idle : session.pending = none)
    (truthful : ok answer = success) : session.Reports ok success := by
  simp [Reports, answered, idle, truthful]

omit [DecidableEq K] in
/-- What a body reports can be read off the session that it is known to leave. -/
theorem Session.Reports.of_run {ok : ρ → Bool} {session after : Session σ κ K V ρ}
    {body : Prog σ κ K V ρ Unit} (ran : body.run answers session = ((), after))
    (reports : after.Reports ok success) : (body.run answers session).2.Reports ok success := by
  rwa [ran]

/-- A chain replies as its entry point and each of its callbacks do. -/
theorem Chain.replies (chain : Chain S σ κ K V ρ) {At : κ → Operation K → σ → Attempt K V → Prop}
    {ok : ρ → Bool} {success : Operation K → Future K V → Bool}
    (start : ∀ parameters answers, (chain.start parameters answers).Reports ok false)
    (body : ∀ answers callback operation attempt attempt' future (session : Session σ κ K V ρ),
      At callback operation session.ctx attempt → Delivers operation attempt attempt' future →
      session.pending = none → session.reply = none →
      ((chain.body callback future).run answers session).2.Reports ok (success operation future)) :
    chain.client.Replies (SessionInv At) (fun session => session.reply.map ok) (fun _ => success) where
  start parameters answers := by
    obtain ⟨failure, idle⟩ := start parameters answers
    refine ⟨fun success => Bool.false_ne_true (failure.mp success), fun answered => ?_⟩
    simp only [ne_eq, Option.map_eq_none_iff] at answered
    simp [client, idle answered]
  resume answers {session} {_} {_} {_} {future} holds pending unanswered delivers := by
    change session.pending.map Prod.fst = _ at pending
    obtain ⟨⟨operation, callback⟩, waiting, rfl⟩ := Option.map_eq_some_iff.mp pending
    have resumed : chain.resume answers session future = ((chain.body callback future).run answers
        { session with pending := none, sets := [] }).2 := by
      simp only [Chain.resume, waiting]
    obtain ⟨success, idle⟩ := body answers callback operation _ _ future
      { session with pending := none, sets := [] } (holds operation callback waiting) delivers rfl
      (Option.map_eq_none_iff.mp unanswered)
    rw [← resumed] at success idle
    refine ⟨success, fun answered => ?_⟩
    simp only [client, ne_eq, Option.map_eq_none_iff] at answered ⊢
    exact idle answered

end Reports

/-! ## Whole runs -/

namespace World
variable [Ord K] [Std.TransOrd K] [DecidableEq K] {client : Client S L K V} {base : Store K V}

/-- 1 if the connection has answered with success. -/
def successes (reply : L → Option Bool) (world : World L K V) (i : Nat) : Nat :=
  if world.connections[i]?.bind (fun connection => reply connection.client) = some true then 1 else 0

omit [Std.TransOrd K] [DecidableEq K] in
private theorem successes_start {reply : L → Option Bool} {world : World L K V} {opened : L}
    (failure : reply opened ≠ some true) (i : Nat) :
    successes reply { world with connections := world.connections ++ [{ client := opened }] } i =
      world.successes reply i := by
  unfold successes
  rcases Nat.lt_trichotomy i world.connections.length with old | rfl | beyond
  · rw [List.getElem?_append_left old]
  · simp [failure]
  · rw [List.getElem?_eq_none (by simp; omega), List.getElem?_eq_none (by omega)]

/-- A settlement counts for its own connection alone, and as an unreported commit or
as an acknowledged one. -/
theorem settles_counts {db db' : Database K V (Nat × L)} {attempt attempt' : Attempt K V} {i : Nat}
    (settles : Settles db (i, state) attempt operation verdict db' attempt' future)
    (answers : Answers) (j : Nat) :
    appliedBy j db'.log = appliedBy j db.log +
      (if (Event.settle i verdict answers : Event S).appliedUnknown j then 1 else 0) +
      if i = j ∧ acknowledged operation future then 1 else 0 := by
  cases settles with
  | committed | applied =>
    simp [Database.append_log, appliedBy_append, Event.appliedUnknown, acknowledged]
  | failed => cases operation <;> simp [Event.appliedUnknown, acknowledged]
  | _ => simp [Event.appliedUnknown, acknowledged]

/-- A connection has been applied once if it has answered with success, and once for each
commit that was applied and not reported; after its answer it asks for nothing more. -/
structure Accounted (client : Client S L K V) (reply : L → Option Bool) (events : List (Event S))
    (world : World L K V) : Prop where
  applied : ∀ i, appliedBy i world.db.log =
    events.countP (Event.appliedUnknown i) + world.successes reply i
  idle : ∀ connection ∈ world.connections, reply connection.client ≠ none →
    client.pending connection.client = none

section Steps
variable {Inv : L → Attempt K V → Prop} {reply : L → Option Bool} {events : List (Event S)}
  {world world' : World L K V} {i : Nat}

omit [Std.TransOrd K] in
/-- A new request has neither committed nor answered, so its books start at zero. -/
theorem Accounted.start (accounted : world.Accounted client reply events)
    (reports : client.Reports Inv reply) (parameters : S) (answers : Answers) :
    Accounted client reply (events ++ [.start parameters answers]) { world with
      connections := world.connections ++ [{ client := client.start parameters answers }] } := by
  obtain ⟨failure, idle⟩ := reports.start parameters answers
  constructor
  · intro i
    rw [successes_start failure, List.countP_append]
    simpa [Event.appliedUnknown] using accounted.applied i
  · intro other member
    rcases List.mem_append.mp member with old | new
    · exact accounted.idle other old
    · cases List.mem_singleton.mp new
      exact idle

/-- One settlement adds to the commits of its own connection, to its unknown ones or to its
successes, and in each case the books stay balanced. -/
theorem Accounted.settle {connection after : Connection L K V} {attempt : Attempt K V}
    {future : Future K V} (accounted : world.Accounted client reply events)
    (reports : client.Reports Inv reply) (answers : Answers)
    (found : world.connections[i]? = some connection)
    (holds : Inv connection.client connection.attempt)
    (pending : client.pending connection.client = some operation)
    (settles : Settles world.db (i, connection.client) connection.attempt operation verdict world'.db
      attempt future)
    (moved : world'.connections = world.connections.set i after)
    (resumed : after.client = (client.resume answers connection.client future).1) :
    Accounted client reply (events ++ [.settle i verdict answers]) world' := by
  have unanswered : reply connection.client = none := by
    by_contra answered
    rw [accounted.idle connection (List.mem_of_getElem? found) answered] at pending
    cases pending
  obtain ⟨success, idle⟩ := reports.resume answers holds pending unanswered settles.delivers
  rw [← resumed] at success idle
  constructor
  · intro j
    rw [settles_counts (S := S) settles answers, accounted.applied, List.countP_append,
      List.countP_singleton]
    by_cases own : i = j
    · subst own
      obtain ⟨inside, _⟩ := List.getElem?_eq_some_iff.mp found
      have before : world.successes reply i = 0 := by
        simp only [successes, found, Option.bind_some, unanswered]
        rfl
      have later : world'.successes reply i = if acknowledged operation future then 1 else 0 := by
        simp [successes, moved, inside, success]
      simp only [before, later, true_and]
      omega
    · have same : world'.successes reply j = world.successes reply j := by
        simp [successes, moved, own]
      simp only [same, own, false_and, if_false]
      omega
  · intro other member
    rw [moved] at member
    rcases List.mem_or_eq_of_mem_set member with old | rfl
    · exact accounted.idle other old
    · exact idle

end Steps

/-- Every run accounts for its commits: those of a connection are its success, if it has told of
one, and the commits that were applied without its knowing. -/
theorem accounted {Inv : L → Attempt K V → Prop} {reply : L → Option Bool}
    (invariant : LocalInvariant client Inv) (reports : client.Reports Inv reply)
    (ran : (initial base).run client events = some world) : world.Accounted client reply events := by
  refine run_invariant (P := fun events world => world.Accounted client reply events)
    ⟨fun i => ?_, fun _ member => ?_⟩ ?_ ran
  · simp [initial, appliedBy, successes]
  · cases member
  intro events world event world' reached accounted stepped
  rcases step_cases stepped with ⟨parameters, answers, rfl, rfl⟩ |
    ⟨i, verdict, answers, connection, operation, attempt, future, rfl, found, pending, settles, moved⟩
  · exact accounted.start reports parameters answers
  · have holds := (reachable_connections invariant reached connection (List.mem_of_getElem? found)).1
    exact accounted.settle reports answers found holds pending settles moved rfl

end World

end H2oTpcc

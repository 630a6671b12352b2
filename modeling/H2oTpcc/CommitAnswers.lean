import H2oTpcc.ExactlyOnce
import H2oTpcc.ReadTxns
import H2oTpcc.UpdateProofs

/-! What a success answer says about the store, for every handler that commits.
NewOrder and Payment look at the commit's future before they answer; OrderStatus,
Delivery and `/updates` answer as soon as the future is ready, whatever it holds. -/
namespace H2oTpcc

/-! ## Steps that answer a client -/

namespace World
variable {S L K V ρ : Type} [Ord K] [Std.TransOrd K] [DecidableEq K] {client : Client S L K V}
  {base : Store K V} {Inv : L → Attempt K V → Prop} {reply : L → Option Bool}
  {success : L → Operation K → Future K V → Bool} {world world' : World L K V} {event : Event S}

/-- What a connection's client has been told. -/
def told (answer : L → Option ρ) (world : World L K V) (i : Nat) : Option ρ :=
  world.connections[i]?.bind fun connection => answer connection.client

omit [Std.TransOrd K] [DecidableEq K] in
private theorem told_map (answer : L → Option ρ) (f : ρ → τ) (world : World L K V) (i : Nat) :
    told (fun state => (answer state).map f) world i = (told answer world i).map f := by
  simp [told, Option.map_bind]

/-- Whoever has answered asks for nothing more, so that an answer is the last thing that a
request does. -/
theorem answered_idle (invariant : LocalInvariant client Inv)
    (replies : client.Replies Inv reply success)
    (reachable : Reachable client base world) :
    ∀ connection ∈ world.connections, reply connection.client ≠ none →
      client.pending connection.client = none := by
  refine reachable_invariant (P := fun world => ∀ connection ∈ world.connections,
    reply connection.client ≠ none → client.pending connection.client = none)
    (fun _ member => (by cases member)) ?_ reachable
  intro world event world' reached idle stepped
  rcases step_cases stepped with ⟨parameters, answers, rfl, rfl⟩ |
    ⟨i, verdict, answers, connection, operation, attempt, future, rfl, found, pending, settles, moved⟩
  · intro other member
    rcases List.mem_append.mp member with old | new
    · exact idle other old
    · cases List.mem_singleton.mp new
      exact (replies.start parameters answers).2
  · have member := List.mem_of_getElem? found
    have unanswered : reply connection.client = none := by
      by_contra answered
      rw [idle connection member answered] at pending
      cases pending
    have holds := (reachable_connections invariant reached connection member).1
    intro other member'
    rw [moved] at member'
    rcases List.mem_or_eq_of_mem_set member' with old | rfl
    · exact idle other old
    · exact (replies.resume answers holds pending unanswered settles.delivers).2

/-- A client that waits for an operation has not been told anything, and is told of success
just when the ready future is one. -/
theorem settle_answers {connection : Connection L K V} {attempt : Attempt K V} {future : Future K V}
    (invariant : LocalInvariant client Inv) (replies : client.Replies Inv reply success)
    (reachable : Reachable client base world) (found : world.connections[i]? = some connection)
    (pending : client.pending connection.client = some operation)
    (settles : Settles world.db (i, connection.client) connection.attempt operation verdict world'.db
      attempt future)
    (moved : world'.connections = world.connections.set i
      { client := (client.resume answers connection.client future).1
        attempt := { attempt with
          writes := attempt.writes ++ (client.resume answers connection.client future).2 } }) :
    told reply world i = none ∧
      (told reply world' i = some true ↔ success connection.client operation future = true) := by
  have member := List.mem_of_getElem? found
  obtain ⟨inside, _⟩ := List.getElem?_eq_some_iff.mp found
  have unanswered : reply connection.client = none := by
    by_contra answered
    rw [answered_idle invariant replies reachable connection member answered] at pending
    cases pending
  have holds := (reachable_connections invariant reachable connection member).1
  unfold told
  rw [found, moved, List.getElem?_set_self inside]
  exact ⟨unanswered, (replies.resume answers holds pending unanswered settles.delivers).1⟩

/-- Only a client whose operation is settled is told of success. -/
private theorem told_success (replies : client.Replies Inv reply success)
    (stepped : world.step client event = some world') (before : told reply world i = none)
    (after : told reply world' i = some true) : ∃ verdict answers, event = .settle i verdict answers := by
  unfold told at before after
  rcases step_cases stepped with ⟨parameters, answers, rfl, rfl⟩ |
    ⟨j, verdict, answers, connection, operation, attempt, future, rfl, found, pending, settles, moved⟩
  · rcases Nat.lt_trichotomy i world.connections.length with old | rfl | beyond
    · rw [List.getElem?_append_left old, before] at after
      cases after
    · rw [List.getElem?_append_right (Nat.le_refl _), Nat.sub_self] at after
      exact absurd after (replies.start parameters answers).1
    · rw [List.getElem?_eq_none (by simp; omega)] at after
      cases after
  · by_cases own : j = i
    · exact ⟨verdict, answers, by rw [own]⟩
    · rw [moved, List.getElem?_set_ne own, before] at after
      cases after

/-- Only the verdict "committed" acknowledges a commit; a commit with an unknown result looks
like a failed one. -/
theorem committed_of_acknowledged {db db' : Database K V (Nat × L)} {attempt attempt' : Attempt K V}
    (settles : Settles db author attempt .commit verdict db' attempt' future)
    (known : acknowledged (.commit : Operation K) future = true) : verdict = .committed := by
  cases settles with
  | committed => rfl
  | applied | lost | failed => cases known

end World

/-! ## Handlers that commit nothing -/

/-- The operation is a commit. -/
def Operation.isCommit : Operation K → Bool
  | .commit => true
  | _ => false

/-- A handler that submits an empty commit and answers whatever becomes of it. -/
structure Chain.CommitsNothing (chain : Chain S σ κ Bytes Bytes Response) (answer : σ → Response) :
    Prop where
  start : ∀ parameters answers, (∃ ctx callback, chain.start parameters answers =
      Session.submit answers .commit callback { ctx }) ∨
    ∃ ctx text, chain.start parameters answers = { ctx, reply := some (serviceUnavailable text) }
  body : ∀ callback future answers session, (chain.body callback future).run answers session =
    ((), { session with reply := some (answer session.ctx) })

section Nothing
variable {S σ κ : Type} {chain : Chain S σ κ Bytes Bytes Response} {answer : σ → Response}

/-- Nothing but the commit is ever outstanding, and it has nothing to write. -/
def WaitsEmpty (_ : κ) (operation : Operation Bytes) (_ : σ) (attempt : Attempt Bytes Bytes) : Prop :=
  operation = .commit ∧ attempt.writes = []

/-- Such a chain keeps its write buffer empty while it waits, whatever the database answers. -/
theorem Chain.CommitsNothing.localInvariant (nothing : chain.CommitsNothing answer) :
    LocalInvariant chain.client (SessionInv WaitsEmpty) := by
  apply Chain.localInvariant
  · intro parameters answers
    rcases nothing.start parameters answers with ⟨ctx, callback, started⟩ | ⟨ctx, text, started⟩
    · rw [started]
      exact .of_submit rfl ⟨rfl, rfl⟩
    · rw [started]
      exact .of_idle rfl
  · intro answers callback operation attempt attempt' future session _ _ idle _
    exact .of_idle (nothing.body callback future answers session) idle

/-- It tells of success as soon as its commit is ready, and at no other time: the outcome of the
commit is not looked at. -/
theorem Chain.CommitsNothing.replies (nothing : chain.CommitsNothing answer)
    (ok : ∀ ctx, (answer ctx).ok = true) :
    chain.client.Replies (SessionInv WaitsEmpty) (fun session => session.reply.map Response.ok)
      (fun _ operation _ => operation.isCommit) := by
  apply Chain.replies
  · intro parameters answers
    rcases nothing.start parameters answers with ⟨ctx, callback, started⟩ | ⟨ctx, text, started⟩
    · rw [started]
      exact .of_submit rfl rfl
    · rw [started]
      exact .of_reply rfl rfl rfl
  · rintro answers callback operation attempt attempt' future session ⟨rfl, _⟩ _ idle _
    exact .of_run (nothing.body callback future answers session) (.of_reply rfl idle (ok _))

variable {session : Session σ κ Bytes Bytes Response}

/-- Its one callback answers from the context alone, whether the commit has succeeded or not. -/
theorem Chain.CommitsNothing.resume (nothing : chain.CommitsNothing answer) (answers : Answers)
    (future : Future Bytes Bytes) (pending : chain.client.pending session = some operation) :
    (chain.resume answers session future).reply = some (answer session.ctx) := by
  change session.pending.map Prod.fst = _ at pending
  obtain ⟨⟨_, callback⟩, waiting, _⟩ := Option.map_eq_some_iff.mp pending
  simp only [Chain.resume, waiting, nothing.body]

/-- While an operation is outstanding, the attempt has buffered nothing. -/
theorem WaitsEmpty.writes (chain : Chain S σ κ Bytes Bytes Response) {attempt : Attempt Bytes Bytes}
    (holds : SessionInv WaitsEmpty session attempt)
    (pending : chain.client.pending session = some operation) : attempt.writes = [] := by
  change session.pending.map Prod.fst = _ at pending
  obtain ⟨⟨operation, callback⟩, waiting, _⟩ := Option.map_eq_some_iff.mp pending
  exact (holds operation callback waiting).2

end Nothing

/-- An entry point that fills the context and submits the commit. -/
private theorem openRequest_commit {chain : Chain S σ κ Bytes Bytes Response} {parameters : S}
    {callback : κ}
    {fill : σ → σ}
    (entry : chain.entry parameters =
      openRequest "oom" "fdb failed" (Stmt.store fill) (fdbAsyncCommit callback)) (answers : Answers) :
    (∃ ctx callback, chain.start parameters answers = Session.submit answers .commit callback { ctx }) ∨
      ∃ ctx text, chain.start parameters answers = { ctx, reply := some (serviceUnavailable text) } := by
  simp only [Chain.start, entry, run_openRequest, Prog.run_store, run_fdbAsyncCommit]
  split
  · split
    · exact .inl ⟨_, _, rfl⟩
    · exact .inr ⟨_, _, rfl⟩
  · exact .inr ⟨_, _, rfl⟩

/-- What `os_on_commit` sends. -/
def OrderStatus.answer (_ : OrderStatusCtx) : Response := .json (.map [("status", .str "ok")])

/-- What `dl_on_commit` sends. -/
def Delivery.answer (ctx : DeliveryCtx) : Response :=
  .json (.map [("status", .str "ok"), ("carrier", .int ctx.carrierId.toInt)])

/-- Order-Status reads nothing and sets nothing: it commits an empty transaction and answers
that all is well. -/
theorem OrderStatus.commitsNothing (P : Platform) :
    (orderStatusChain P).CommitsNothing OrderStatus.answer where
  start _ := openRequest_commit rfl
  body
    | .osOnCommit, _, answers, session => run_finish answers _ session

/-- Delivery delivers nothing: it commits an empty transaction and answers with the carrier that
it has drawn. -/
theorem Delivery.commitsNothing (P : Platform) : (deliveryChain P).CommitsNothing Delivery.answer where
  start _ := openRequest_commit rfl
  body
    | .dlOnCommit, _, answers, session => by
      simp [deliveryChain, Delivery.dlOnCommit, Delivery.answer]

/-- `/updates` answers with its rows when its commit is ready, and with errors before. -/
theorem Update.replies (P : Platform) : (updatesChain P).client.Replies (SessionInv (KnownAt P))
    (fun session => session.reply.map Response.ok) (fun _ operation _ => operation.isCommit) := by
  apply Chain.replies
  · intro parameter answers
    rw [run_start]
    split
    · split
      · exact .of_submit rfl rfl
      · exact .of_reply rfl rfl rfl
    · exact .of_reply rfl rfl rfl
  · intro answers callback operation attempt attempt' future session holds delivers idle unanswered
    cases callback with
    | updateOnRead =>
      obtain ⟨clean, _, rfl⟩ := holds
      rcases delivers.get_cases clean with ⟨code, nonzero, rfl⟩ | ⟨value, rfl, _⟩
      · exact .of_run (run_updateOnRead_error P answers session nonzero) (.of_reply rfl idle rfl)
      · have ran := run_updateOnRead_value P answers session value
        dsimp only at ran
        split at ran
        · exact .of_run ran (.of_submit unanswered rfl)
        · rw [run_updateDoWrites] at ran
          exact .of_run ran (.of_submit unanswered rfl)
    | updateOnCommit =>
      obtain ⟨rfl, _⟩ := holds
      exact .of_run (run_updateOnCommit answers session future) (.of_reply rfl idle rfl)

/-! ## All handlers that commit -/

/-- Sessions that look at the outcome of their commit, and sessions that do not. -/
abbrev ServerState := TpccState ⊕ (Session OrderStatusCtx OrderStatusCallback Bytes Bytes Response ⊕
  (Session DeliveryCtx DeliveryCallback Bytes Bytes Response ⊕
    Session UpdateCtx UpdateCallback Bytes Bytes Response))

abbrev ServerRequest := (NewOrderRequest ⊕ PaymentParams) ⊕ (UInt32 ⊕ (UInt32 ⊕ Option Int32))

/-- Any number of NewOrder, Payment, OrderStatus, Delivery and `/updates` requests. -/
def serverClient (P : Platform) : Client ServerRequest ServerState Bytes Bytes :=
  (tpccClient P).sum ((orderStatusChain P).client.sum
    ((deliveryChain P).client.sum (updatesChain P).client))

/-- The answer that a request has been sent. -/
def answerOf : ServerState → Option Response
  | .inl state => replyOf state
  | .inr (.inl session) => session.reply
  | .inr (.inr (.inl session)) => session.reply
  | .inr (.inr (.inr session)) => session.reply

/-- The success answer to a request. -/
def successAnswer : ServerState → Response
  | .inl (.inl session) => .json (.map [("status", .str "ok"), ("o_id", .int session.ctx.dNextOId.toInt)])
  | .inl (.inr session) => .json (.map [("status", .str "ok"), ("amount", .int session.ctx.hAmount.toInt)])
  | .inr (.inl session) => OrderStatus.answer session.ctx
  | .inr (.inr (.inl session)) => Delivery.answer session.ctx
  | .inr (.inr (.inr session)) => Update.rowsJson session.ctx

/-- What a request's commit must write, on the view it is made on. -/
def ServerCommits (P : Platform) : ServerState → (Bytes → Option Bytes) → List (Bytes × Bytes) → Prop
  | .inl state, view, writes => CommitSpec P state view writes
  | .inr (.inl _), _, writes => writes = []
  | .inr (.inr (.inl _)), _, writes => writes = []
  | .inr (.inr (.inr session)), _, writes => writes = Update.sets P session.ctx

/-- The step sends this answer. -/
def Sends (world world' : World ServerState Bytes Bytes) (i : Nat) (response : Response) : Prop :=
  world.told answerOf i = none ∧ world'.told answerOf i = some response

/-- The answer is to a commit that is acknowledged in this step, and what it reports is
now in the store. -/
def Backed (P : Platform) (world : World ServerState Bytes Bytes) (event : Event ServerRequest)
    (world' : World ServerState Bytes Bytes) (i : Nat) (response : Response) : Prop :=
  ∃ answers state writes, event = .settle i .committed answers ∧
    world.connections[i]?.map (·.client) = some state ∧
    world'.db = world.db.append ⟨(i, state), writes⟩ ∧
    ServerCommits P state (fun key => world.db.store[key]?) writes ∧ response = successAnswer state

/-- The request waits for its commit and will not look at the outcome: it is an
OrderStatus, a Delivery or an `/updates`. -/
def IgnoresOutcome (P : Platform) (world : World ServerState Bytes Bytes) (i : Nat) : Prop :=
  ∃ state, world.connections[i]?.map (·.client) = some (.inr state) ∧
    (serverClient P).pending (.inr state) = some .commit

section Server
variable (P : Platform)

/-- The invariants of the five chains. -/
def ServerInv (state : ServerState) (attempt : Attempt Bytes Bytes) : Prop :=
  Sum.elim (Sum.elim (SessionInv (NewOrder.KnownAt P) · attempt) (SessionInv (Payment.KnownAt P) · attempt))
    (Sum.elim (SessionInv WaitsEmpty · attempt)
      (Sum.elim (SessionInv WaitsEmpty · attempt) (SessionInv (Update.KnownAt P) · attempt))) state

/-- The ready futures on which a request answers with success. -/
def answersSuccess : ServerState → Operation Bytes → Future Bytes Bytes → Bool
  | .inl _, operation, future => acknowledged operation future
  | .inr _, operation, _ => operation.isCommit

/-- Every request of the server, of any of the kinds, knows at its callbacks what its chain
knows. -/
theorem server_invariant : LocalInvariant (serverClient P) (ServerInv P) :=
  ((NewOrder.localInvariant P).sum (Payment.localInvariant P)).sum
    ((OrderStatus.commitsNothing P).localInvariant.sum
      ((Delivery.commitsNothing P).localInvariant.sum (Update.localInvariant P)))

/-- Every kind of request answers at most once, and with success exactly where `answersSuccess`
says: an acknowledged commit for those that look at the outcome, any ready commit for those that
do not. -/
theorem server_replies : (serverClient P).Replies (ServerInv P)
    (fun state => (answerOf state).map Response.ok) answersSuccess := by
  refine ((Client.Replies.sum (NewOrder.reports P) (Payment.reports P)).sum
    (((OrderStatus.commitsNothing P).replies fun _ => rfl).sum
      (((Delivery.commitsNothing P).replies fun _ => rfl).sum (Update.replies P)))).congr ?_ ?_
  · rintro ((_ | _) | _ | _ | _) <;> rfl
  · rintro ((_ | _) | _ | _ | _) <;> rfl

variable {P} {state : ServerState} {attempt : Attempt Bytes Bytes}

/-- Success is told at the end of a commit only, never after a read or a failed reset. -/
theorem commit_of_answersSuccess (success : answersSuccess state operation future = true) :
    operation = .commit := by
  cases state <;> cases operation
  all_goals first | rfl | cases success

/-- What is sent when a commit is ready that the request does not look at, or that was
acknowledged. -/
theorem answer_at_commit (answers : Answers) (holds : ServerInv P state attempt)
    (pending : (serverClient P).pending state = some .commit) {future : Future Bytes Bytes}
    (success : answersSuccess state .commit future = true) :
    answerOf ((serverClient P).resume answers state future).1 = some (successAnswer state) := by
  rcases state with (session | session) | session | session | session
  · cases future with
    | done => exact NewOrder.resume_committed P answers session (NewOrder.pending_commit P holds pending)
    | error | value | rows => cases success
  · cases future with
    | done => exact Payment.resume_committed P answers session (Payment.pending_commit P holds pending)
    | error | value | rows => cases success
  · exact (OrderStatus.commitsNothing P).resume answers future pending
  · exact (Delivery.commitsNothing P).resume answers future pending
  · exact Update.resume_commit P answers future (Update.commit_sets P holds pending).1

/-- What a pending commit writes, on every view that agrees with the attempt's reads. -/
theorem server_commits (holds : ServerInv P state attempt)
    (pending : (serverClient P).pending state = some .commit) :
    Known attempt.reads fun view => ServerCommits P state view attempt.writes := by
  rcases state with (session | session) | session | session | session
  · exact NewOrder.commit_meaning P session attempt holds pending
  · exact Payment.commit_meaning P session attempt holds pending
  · exact fun _ _ => WaitsEmpty.writes (orderStatusChain P) holds pending
  · exact fun _ _ => WaitsEmpty.writes (deliveryChain P) holds pending
  · exact fun _ _ => (Update.commit_sets P holds pending).2

/-! ## Steps of the server -/

section Steps
variable {base : Store Bytes Bytes} {world world' : World ServerState Bytes Bytes} {answers : Answers}

/-- What a settlement finds and does: an unanswered request, which is answered with
success just when its ready future says so. -/
theorem server_settled (reachable : World.Reachable (serverClient P) base world)
    (stepped : world.step (serverClient P) (.settle i verdict answers) = some world') :
    ∃ connection operation attempt future, world.connections[i]? = some connection ∧
      (serverClient P).pending connection.client = some operation ∧
      Settles world.db (i, connection.client) connection.attempt operation verdict world'.db attempt
        future ∧
      world'.told answerOf i = answerOf ((serverClient P).resume answers connection.client future).1 ∧
      world.told answerOf i = none ∧
      ((world'.told answerOf i).map Response.ok = some true ↔
        answersSuccess connection.client operation future = true) := by
  rcases World.step_cases stepped with ⟨_, _, impossible, _⟩ |
    ⟨_, _, _, connection, operation, attempt, future, same, found, pending, settles, moved⟩
  · cases impossible
  cases same
  obtain ⟨inside, _⟩ := List.getElem?_eq_some_iff.mp found
  obtain ⟨before, after⟩ := World.settle_answers (server_invariant P) (server_replies P) reachable found
    pending settles moved
  rw [World.told_map, Option.map_eq_none_iff] at before
  rw [World.told_map] at after
  refine ⟨connection, operation, attempt, future, found, pending, settles, ?_, before, after⟩
  rw [World.told, moved, List.getElem?_set_self inside, Option.bind_some]

/-- A request that does not look at the outcome answers with success, whatever it is. -/
theorem ignored_outcome_answered (reachable : World.Reachable (serverClient P) base world)
    (stepped : world.step (serverClient P) (.settle i verdict answers) = some world')
    (ignores : IgnoresOutcome P world i) :
    ∃ response, Sends world world' i response ∧ response.ok = true := by
  obtain ⟨state, here, waits⟩ := ignores
  obtain ⟨connection, operation, attempt, future, found, pending, _, _, before, after⟩ :=
    server_settled reachable stepped
  rw [found, Option.map_some, Option.some_inj] at here
  rw [here] at pending after
  cases waits.symm.trans pending
  obtain ⟨response, sent, ok⟩ := Option.map_eq_some_iff.mp (after.mpr rfl)
  exact ⟨response, ⟨before, sent⟩, ok⟩

/-- A success answer belongs to a commit, and to an acknowledged one unless the request
does not look. -/
theorem success_settles (reachable : World.Reachable (serverClient P) base world)
    (stepped : world.step (serverClient P) (.settle i verdict answers) = some world')
    (sends : Sends world world' i response) (ok : response.ok = true) :
    verdict = .committed ∨ IgnoresOutcome P world i := by
  obtain ⟨connection, operation, attempt, future, found, pending, settles, _, _, after⟩ :=
    server_settled reachable stepped
  have success := after.mp (by rw [sends.2, Option.map_some, ok])
  obtain rfl := commit_of_answersSuccess success
  cases here : connection.client with
  | inl state =>
    rw [here] at success
    exact .inl (World.committed_of_acknowledged settles success)
  | inr state => exact .inr ⟨state, by rw [found, Option.map_some, here], here ▸ pending⟩

/-- What an acknowledged commit reports is in the store. -/
private theorem acknowledged_backed (reachable : World.Reachable (serverClient P) base world)
    (stepped : world.step (serverClient P) (.settle i .committed answers) = some world')
    (sends : Sends world world' i response) (ok : response.ok = true) :
    Backed P world (.settle i .committed answers) world' i response := by
  obtain ⟨connection, operation, attempt, future, found, pending, settles, told, _, after⟩ :=
    server_settled reachable stepped
  have success := after.mp (by rw [sends.2, Option.map_some, ok])
  obtain rfl := commit_of_answersSuccess success
  obtain ⟨holds, faithful⟩ := World.reachable_connections (server_invariant P) reachable connection
    (List.mem_of_getElem? found)
  have sent := sends.2
  rw [told, answer_at_commit answers holds pending success] at sent
  obtain ⟨db, grown⟩ : ∃ db, world'.db = db := ⟨_, rfl⟩
  rw [grown] at settles
  cases settles with
  | committed clear =>
    exact ⟨answers, connection.client, connection.attempt.writes, rfl, by rw [found]; rfl, grown,
      server_commits holds pending _ (Attempt.reads_current faithful clear), (Option.some.inj sent).symm⟩

end Steps

end Server

/-- **Success means committed**, in every step that does not settle the commit of an
OrderStatus, a Delivery or an `/updates` other than by acknowledging it; and in none that
does. -/
theorem success_committed_iff {P : Platform} {base : Store Bytes Bytes}
    {world world' : World ServerState Bytes Bytes} {event : Event ServerRequest}
    (reachable : World.Reachable (serverClient P) base world)
    (stepped : world.step (serverClient P) event = some world') :
    (∀ i response, Sends world world' i response → response.ok = true →
      Backed P world event world' i response) ↔
    ∀ i verdict answers, event = .settle i verdict answers → IgnoresOutcome P world i →
      verdict = .committed := by
  constructor
  · intro backed i verdict answers happened ignores
    subst happened
    obtain ⟨response, sends, ok⟩ := ignored_outcome_answered reachable stepped ignores
    obtain ⟨_, _, _, acknowledged, _⟩ := backed i response sends ok
    cases acknowledged
    rfl
  · intro only i response sends ok
    have told : world'.told (fun state => (answerOf state).map Response.ok) i = some true := by
      rw [World.told_map, sends.2, Option.map_some, ok]
    obtain ⟨verdict, answers, rfl⟩ := World.told_success (server_replies P) stepped
      (by rw [World.told_map, sends.1]; rfl) told
    obtain rfl : verdict = .committed :=
      (success_settles reachable stepped sends ok).elim id (only i verdict answers rfl)
    exact acknowledged_backed reachable stepped sends ok

/-- One `/updates` request for one row, up to its commit, on an empty store. -/
def oneUpdate : List (Event ServerRequest) :=
  [.start (.inr (.inr (.inr none))) {}, .settle 0 (.read 0) {}]

/-- The commit is refused with a conflict; the client is told of an updated row, and
nothing has been written. -/
theorem update_reported_not_committed : ∃ world world' response,
    (World.initial ∅).run (serverClient plainPlatform) oneUpdate = some world ∧
    world.step (serverClient plainPlatform) (.settle 0 (.failed 1020) {}) = some world' ∧
    Sends world world' 0 response ∧ response = .json (.array [worldJson 2 2]) ∧ world'.db.log = [] :=
  ⟨_, _, _, rfl, rfl, ⟨rfl, rfl⟩, rfl, rfl⟩

/-- The same request of `/updates` when its commit is acknowledged: what it tells is true. -/
theorem success_committed_iff_update : ∃ world world' response,
    (World.initial ∅).run (serverClient plainPlatform) oneUpdate = some world ∧
    world.step (serverClient plainPlatform) (.settle 0 .committed {}) = some world' ∧
    Sends world world' 0 response ∧ response.ok = true ∧
    Backed plainPlatform world (.settle 0 .committed {}) world' 0 response := by
  have steps : ∃ world world' response,
      (World.initial ∅).run (serverClient plainPlatform) oneUpdate = some world ∧
      world.step (serverClient plainPlatform) (.settle 0 .committed {}) = some world' ∧
      Sends world world' 0 response ∧ response.ok = true :=
    ⟨_, _, _, rfl, rfl, ⟨rfl, rfl⟩, rfl⟩
  obtain ⟨world, world', response, ran, stepped, sends, ok⟩ := steps
  refine ⟨world, world', response, ran, stepped, sends, ok, ?_⟩
  refine (success_committed_iff ⟨_, ran⟩ stepped).mpr ?_ 0 response sends ok
  intro i verdict answers happened _
  cases happened
  rfl

end H2oTpcc

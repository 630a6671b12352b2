import H2oTpcc.CommitCounts
import H2oTpcc.Ledger

/-! What a client may conclude from the answer to its request. Success is reported
just when a commit is acknowledged; but a commit whose outcome is unknown is retried
like any other error, so a request can be applied and then applied again, or applied
and then answered with an error. -/
namespace H2oTpcc

namespace NewOrder
variable (P : Platform) (answers : Answers)
  (session : Session NewOrderCtx NewOrderCallback Bytes Bytes Response)

private theorem startStockReads_reports (unanswered : session.reply = none) :
    ((startStockReads P).run answers session).2.Reports Response.ok false := by
  rw [run_startStockReads]
  split
  · exact .of_submit unanswered rfl
  · exact .of_submit unanswered rfl

/-- An order tells of success exactly when its commit was acknowledged, and answers at most
once. -/
theorem reports : (newOrderChain P).client.Reports (SessionInv (KnownAt P))
    (fun session => session.reply.map Response.ok) := by
  apply Chain.replies
  · intro request answers
    rw [run_start]
    split
    · split
      · exact .of_submit rfl rfl
      · exact .of_reply rfl rfl rfl
    · exact .of_reply rfl rfl rfl
  · intro answers callback operation attempt attempt' future session holds delivers idle unanswered
    have answered (text : String) :
        ((finishNewOrder 500 text).run answers session).2.Reports Response.ok false :=
      .of_run (run_finishNewOrder answers session 500 text) (.of_reply rfl idle rfl)
    cases callback with
    | onDistrictRead =>
      obtain ⟨_, clean, rfl⟩ := holds
      refine onRowRead_reports clean delivers unanswered (answered _) fun dv => ?_
      exact .of_run (run_onDistrict answers session dv) (.of_submit unanswered rfl)
    | onCustomerRead =>
      obtain ⟨_, clean, rfl, _⟩ := holds
      refine onRowRead_reports clean delivers unanswered (answered _) fun cv => ?_
      rw [run_onCustomer]
      exact startStockReads_reports P answers _ unanswered
    | onStockRead =>
      obtain ⟨_, clean, rfl, _⟩ := holds
      refine onRowRead_reports clean delivers unanswered (answered _) fun sv => ?_
      rw [run_onStock]
      exact startStockReads_reports P answers _ unanswered
    | onCommit =>
      obtain ⟨_, rfl, _⟩ := holds
      cases delivers with
      | committed => exact .of_run (run_onCommit answers session) (.of_reply rfl idle rfl)
      | failed nonzero =>
        exact .of_run (run_orRetry_error answers session _ _ nonzero) (.of_submit unanswered rfl)
    | onErrorRetry =>
      obtain ⟨_, code, rfl⟩ := holds
      cases delivers with
      | reset => exact .of_run (run_onErrorRetry_done answers session) (.of_submit unanswered rfl)
      | failed nonzero =>
        exact .of_run (run_onErrorRetry_error answers session nonzero) (.of_reply rfl idle rfl)

end NewOrder

/-- A payment tells of success exactly when its commit was acknowledged, and answers at most
once. -/
theorem Payment.reports (P : Platform) : (paymentChain P).client.Reports (SessionInv (KnownAt P))
    (fun session => session.reply.map Response.ok) := by
  apply Chain.replies
  · intro params answers
    rw [run_start]
    split
    · split
      · exact .of_submit rfl rfl
      · exact .of_reply rfl rfl rfl
    · exact .of_reply rfl rfl rfl
  · intro answers callback operation attempt attempt' future session holds delivers idle unanswered
    have answered (text : String) :
        ((finishPayment 500 text).run answers session).2.Reports Response.ok false :=
      .of_run (run_finishPayment answers session 500 text) (.of_reply rfl idle rfl)
    cases callback with
    | onWarehouseRead =>
      obtain ⟨clean, rfl⟩ := holds
      refine onRowRead_reports clean delivers unanswered (answered _) fun wv => ?_
      exact .of_run (run_onWarehouse answers session wv) (.of_submit unanswered rfl)
    | onDistrictRead =>
      obtain ⟨clean, rfl, _⟩ := holds
      refine onRowRead_reports clean delivers unanswered (answered _) fun dv => ?_
      exact .of_run (run_onDistrict P answers session dv) (.of_submit unanswered rfl)
    | onCustomerRead =>
      obtain ⟨clean, rfl, _⟩ := holds
      refine onRowRead_reports clean delivers unanswered (answered _) fun cv => ?_
      exact .of_run (run_onCustomer P answers session cv) (.of_submit unanswered rfl)
    | onCommit =>
      obtain ⟨rfl, _⟩ := holds
      cases delivers with
      | committed => exact .of_run (run_onCommit answers session) (.of_reply rfl idle rfl)
      | failed nonzero =>
        exact .of_run (run_orRetry_error answers session _ _ nonzero) (.of_submit unanswered rfl)
    | onErrorRetry =>
      obtain ⟨code, rfl⟩ := holds
      cases delivers with
      | reset => exact .of_run (run_onErrorRetry_done answers session) (.of_submit unanswered rfl)
      | failed nonzero =>
        exact .of_run (run_onErrorRetry_error answers session nonzero) (.of_reply rfl idle rfl)

/-! ## Attempts of a payment -/

namespace Payment
variable {P : Platform} {ctx : PaymentCtx}

/-- The rows that a payment needs are still there after any transaction. -/
theorem Supplied.step {before after : Key → Option Bytes} (supplied : Supplied P ctx wv dv cv before)
    (serial : Serial P commit before after) : ∃ wv' dv' cv', Supplied P ctx wv' dv' cv' after := by
  have stays {ρ : Type} {row row' : Option ρ} {f g : ρ → Int64} (moved : row'.map f = row.map g)
      (present : row.isSome) : ∃ r, row' = some r := by
    have same := congrArg Option.isSome moved
    rw [Option.isSome_map, Option.isSome_map, present] at same
    exact Option.isSome_iff_exists.mp same
  obtain ⟨warehouse, district, customer⟩ := supplied
  obtain ⟨wv', warehouse'⟩ := stays (serial.warehouse_ytd ctx.wId) (by rw [warehouseRow, warehouse]; rfl)
  obtain ⟨dv', district'⟩ := stays (serial.district_ytd ctx.cWId ctx.cDId)
    (by rw [districtRow, district]; rfl)
  obtain ⟨cv', customer'⟩ := stays (serial.customer_money ctx.cWId ctx.cDId (chooseCustomer P ctx).cId).1
    (by rw [customerRow, customer]; rfl)
  exact ⟨wv', dv', cv', warehouse', district', customer'⟩

/-- A payment by customer number needs the same rows when it is retried. -/
theorem Supplied.retry {tables : Key → Option Bytes} (numbered : ctx.byName = false)
    (supplied : Supplied P ctx wv dv cv tables) (wv' : WarehouseVal) (dv' : DistrictVal)
    (cv' : CustomerVal) :
    Supplied P (withCustomer cv' (withDistrict P dv' (withWarehouse wv' ctx))) wv dv cv tables := by
  obtain ⟨warehouse, district, customer⟩ := supplied
  rw [chooseCustomer, numbered] at customer
  constructor <;> simpa [withCustomer, withDistrict, withWarehouse, chooseCustomer, numbered]

variable (P) (answers : Answers) (session : Session PaymentCtx PaymentCallback Bytes Bytes Response)

private theorem resume_unknown (accepted : answers.accept = true)
    (waiting : session.pending = some (.commit, .onCommit)) :
    (paymentChain P).resume answers session (.error commitUnknownResult) = { session with
      pending := some (.onError commitUnknownResult, .onErrorRetry)
      sets := [] } := by
  simp only [Chain.resume, waiting]
  change ((onCommit (.error commitUnknownResult)).run answers _).2 = _
  rw [onCommit, run_orRetry_error _ _ _ _ (by decide)]
  simp [Session.submit, accepted]

private theorem resume_reset (accepted : answers.accept = true)
    (waiting : session.pending = some (.onError code, .onErrorRetry)) :
    (paymentChain P).resume answers session .done = { session with
      pending := some (.get (kvWarehouseKey session.ctx.wId), .onWarehouseRead)
      sets := [] } := by
  simp only [Chain.resume, waiting]
  change ((onErrorRetry .done).run answers _).2 = _
  rw [run_onErrorRetry_done]
  simp [Session.submit, accepted]

end Payment

section Attempts
variable {P : Platform} {world : TpccWorld} {i : Nat}
  {session : Session PaymentCtx PaymentCallback Bytes Bytes Response}

/-- An undisturbed attempt of a payment, up to its commit and whatever the client is
told of it. -/
theorem payment_attempt {wv : WarehouseVal} {dv : DistrictVal} {cv : CustomerVal}
    (found : world.connections[i]? = some ⟨.inr session, {}⟩)
    (waiting : session.pending = some (.get (kvWarehouseKey session.ctx.wId), .onWarehouseRead))
    (supplied : Payment.Supplied P session.ctx wv dv cv (tables P.host world.db.store))
    (verdict : Verdict) (future : Future Bytes Bytes)
    (applies : (verdict, future) ∈ [(.committed, .done), (.unknown true, .error commitUnknownResult)]) :
    ∃ events world' session' attempt' writes,
      world.run (tpccClient P) (events ++ [.settle i verdict {}]) = some world' ∧
      (∀ event ∈ events, ∃ version, event = .settle i (.read version) {}) ∧
      world'.db = world.db.append ⟨(i, .inr session'), writes⟩ ∧
      world'.connections[i]? = some ⟨.inr ((paymentChain P).resume {} session' future), attempt'⟩ ∧
      session'.pending = some (.commit, .onCommit) ∧
      session'.ctx = Payment.withCustomer cv (Payment.withDistrict P dv
        (Payment.withWarehouse wv session.ctx)) := by
  obtain ⟨session', quiet, pending, _, ctx⟩ :=
    Payment.quiet_payment P {} (fun key => world.db.store[key]?) rfl session supplied waiting
  have asks : (tpccClient P).pending (.inr session') = some .commit := by
    simp [tpccClient, Client.sum, Chain.client, pending]
  obtain ⟨events, world', attempt', ran, reads, grown, last⟩ :=
    World.quiet_commit (quiet.inr (newOrderChain P).client) found rfl (fun _ chosen => by cases chosen)
      asks verdict future applies
  exact ⟨events, world', session', attempt', _, ran, reads, grown, last, pending, ctx⟩

/-- A commit whose outcome is unknown is like any other error: `on_error` finds it
retryable, and the payment starts over. -/
theorem payment_retries {attempt : Attempt Bytes Bytes}
    (found : world.connections[i]? =
      some ⟨.inr ((paymentChain P).resume {} session (.error commitUnknownResult)), attempt⟩)
    (waiting : session.pending = some (.commit, .onCommit)) :
    ∃ world', world.run (tpccClient P) [.settle i .reset {}] = some world' ∧ world'.db = world.db ∧
      world'.connections[i]? = some ⟨.inr { session with
        pending := some (.get (kvWarehouseKey session.ctx.wId), .onWarehouseRead)
        sets := [] }, {}⟩ := by
  rw [Payment.resume_unknown P {} session rfl waiting] at found
  generalize paused : ({ session with
    pending := some (.onError commitUnknownResult, .onErrorRetry)
    sets := [] } : Session PaymentCtx PaymentCallback Bytes Bytes Response) = failed at found
  have asks : (tpccClient P).pending (.inr failed) = some (.onError commitUnknownResult) := by
    rw [← paused]
    rfl
  have settled : settle world.db (i, .inr failed) attempt (.onError commitUnknownResult) .reset =
      some (world.db, {}, .done) := rfl
  obtain ⟨world', stepped, same, here⟩ := World.step_settle {} found asks settled
  refine ⟨world', World.run_step stepped, same, here.trans ?_⟩
  have resumed := Payment.resume_reset P {} failed rfl (by rw [← paused])
  simp only [tpccClient, Client.sum, Chain.client, resumed]
  rw [← paused]
  rfl

end Attempts

/-- A payment on the small store has been started, as connection 0. -/
theorem small_payment_started : ∃ world session wv dv, 
    (World.initial smallLoaded).run (tpccClient plainPlatform) [.start (.inr (smallPayment 1)) {}] =
      some world ∧
    world.db = (World.initial smallLoaded : TpccWorld).db ∧
    world.connections[0]? = some ⟨.inr session, {}⟩ ∧ session.ctx = (smallPayment 1).ctx ∧
    session.pending = some (.get (kvWarehouseKey session.ctx.wId), .onWarehouseRead) ∧
    Payment.Supplied plainPlatform session.ctx wv dv PackedRow.zero (tables .little world.db.store) := by
  obtain ⟨wv, warehouse, _⟩ := smallLoaded_warehouse 1 (.inl rfl)
  obtain ⟨dv, district, _⟩ := smallLoaded_district 1 (.inl rfl)
  have supplied : Payment.Supplied plainPlatform (smallPayment 1).ctx wv dv PackedRow.zero
      (tables .little smallLoaded) := ⟨warehouse, district, smallLoaded_customer 1 (.inl rfl)⟩
  rw [← World.initial_store (L := TpccState) smallLoaded] at supplied
  exact ⟨_, _, wv, dv, rfl, rfl, rfl, rfl, rfl, supplied⟩

/-! ## Exactly once -/

/-- What the client of a request has been sent. -/
def replyOf : TpccState → Option Response
  | .inl session => session.reply
  | .inr session => session.reply

section Counts
variable {P : Platform} {base : Store Bytes Bytes} {world : TpccWorld}
  {events : List (Event (NewOrderRequest ⊕ PaymentParams))}
  (ran : (World.initial base).run (tpccClient P) events = some world)
include ran

/-- The answer to a request tells how often it was applied, but for its commits that were
applied and reported as unknown. -/
theorem answered_count {connection : Connection TpccState Bytes Bytes} {response : Response}
    (found : world.connections[i]? = some connection)
    (answered : replyOf connection.client = some response) :
    appliedBy i world.db.log =
      events.countP (Event.appliedUnknown i) + if response.ok then 1 else 0 := by
  have invariant := (NewOrder.localInvariant P).sum (Payment.localInvariant P)
  have counts := (World.accounted invariant ((NewOrder.reports P).sum (Payment.reports P)) ran).applied i
  have told : Sum.elim (fun session => session.reply.map Response.ok)
      (fun session => session.reply.map Response.ok) connection.client = some response.ok := by
    cases state : connection.client with
    | inl session | inr session =>
      rw [state] at answered
      exact congrArg (Option.map Response.ok) answered
  simpa only [World.successes, found, Option.bind_some, told, Option.some.injEq] using counts

/-- Every commit of the connection did to the store just before it what the request is for. -/
def Applies (P : Platform) (request : NewOrderRequest ⊕ PaymentParams) (i : Nat)
    (db : Database Bytes Bytes (Nat × TpccState)) : Prop :=
  ∀ version commit, db.log[version]? = some commit → commit.author.1 = i →
    ∃ now, Effect P now (tables P.host (db.asOf version)) (tables P.host (db.asOf (version + 1))) request

private theorem applies_asked (known : asked events i = some request) :
    Applies P request i world.db := by
  rintro version commit logged rfl
  obtain ⟨inputs, _, same, effect⟩ := commit_effect ran logged
  cases same.symm.trans known
  exact ⟨inputs.latest.now, effect⟩

end Counts

/-- **Exactly once.** In every run, each commit of a request has the effect that was asked for,
and the answer to the request tells how many there are exactly if none of them was applied and
reported as unknown. -/
theorem exactly_once_iff {P : Platform} {base : Store Bytes Bytes} {world : TpccWorld}
    {events : List (Event (NewOrderRequest ⊕ PaymentParams))}
    {connection : Connection TpccState Bytes Bytes} {response : Response}
    (ran : (World.initial base).run (tpccClient P) events = some world)
    (found : world.connections[i]? = some connection)
    (answered : replyOf connection.client = some response) :
    ∃ request, asked events i = some request ∧ Applies P request i world.db ∧
      (appliedBy i world.db.log = (if response.ok then 1 else 0) ↔
        ∀ answers, Event.settle i (.unknown true) answers ∉ events) := by
  obtain ⟨request, known⟩ := (tpcc_kept ran).asked found
  refine ⟨request, known, applies_asked ran known, ?_⟩
  rw [answered_count ran found answered, Nat.add_eq_right, List.countP_eq_zero]
  constructor
  · intro none answers member
    exact none _ member (Event.appliedUnknown_iff.mpr ⟨answers, rfl⟩)
  · intro never event member unknown
    obtain ⟨answers, rfl⟩ := Event.appliedUnknown_iff.mp unknown
    exact never answers member

/-- The first commit of a payment is applied, reported as unknown and retried: the client is
told of one payment of 100 by customer 1, who has made two and paid 200. -/
theorem charged_twice : ∃ events world connection,
    (World.initial smallLoaded).run (tpccClient plainPlatform) events = some world ∧
    world.connections[0]? = some connection ∧ asked events 0 = some (.inr (smallPayment 1)) ∧
    replyOf connection.client = some (.json (.map [("status", .str "ok"), ("amount", .int 100)])) ∧
    appliedBy 0 world.db.log = 2 ∧
    (customerRow .little (tables .little smallLoaded) 1 1 1).map (·.cYtdPayment) = some 0 ∧
    (customerRow .little (tables .little world.db.store) 1 1 1).map (·.cYtdPayment) = some 200 := by
  obtain ⟨opened, session, wv, dv, started, unchanged, found, ctx, waiting, supplied⟩ :=
    small_payment_started
  obtain ⟨events, applied, first, attempt, writes, ran, _, grown, here, pending, firstCtx⟩ :=
    payment_attempt found waiting supplied (.unknown true) (.error commitUnknownResult) (by simp)
  obtain ⟨reset, stepped, same, again⟩ := payment_retries here pending
  have begun := World.run_trans started ran
  obtain ⟨wv', dv', cv', still⟩ := supplied.step (serial_last ⟨_, begun⟩ grown)
  have retried := still.retry (by rw [ctx]; rfl) wv dv PackedRow.zero
  rw [← firstCtx, ← congrArg Database.store same] at retried
  obtain ⟨events', final, second, _, writes', ran', _, grown', last, pending', _⟩ :=
    payment_attempt again rfl retried .committed .done (by simp)
  have whole := World.run_trans (World.run_trans begun stepped) ran'
  have known := asked_extend (events' ++ [.settle 0 .committed {}])
    (asked_extend [.settle 0 .reset {}] (asked_extend (events ++ [.settle 0 (.unknown true) {}])
      (show asked [.start (.inr (smallPayment 1)) {}] 0 = some (.inr (smallPayment 1)) from rfl)))
  have log : final.db.log = [⟨(0, .inr first), writes⟩, ⟨(0, .inr second), writes'⟩] := by
    rw [grown', same, grown, unchanged]
    rfl
  -- Both commits are payments that connection 0 was asked for.
  obtain ⟨params, asks, firstFixed⟩ := payment_asked whole (by rw [log]; exact List.mem_cons_self) rfl
  cases known.symm.trans asks
  obtain ⟨params, asks, secondFixed⟩ := payment_asked whole
    (by rw [log]; exact List.mem_cons_of_mem _ List.mem_cons_self) rfl
  cases known.symm.trans asks
  have base : (customerRow .little (tables .little smallLoaded) 1 1 1).map (·.cYtdPayment) = some 0 := by
    have row : customerRow .little (tables .little smallLoaded) 1 1 1 = some PackedRow.zero :=
      smallLoaded_customer 1 (.inl rfl)
    rw [row]
    rfl
  refine ⟨_, final, _, whole, last, known, ?_, by simp [log, appliedBy], base, ?_⟩
  · refine (Payment.resume_committed _ _ second pending').trans ?_
    rw [secondFixed.hAmount]
    rfl
  · have total := ytd_payment_total ⟨_, whole⟩ 1 1 1
    have twice : paid (fun ctx => ctx.cWId = 1 ∧ ctx.cDId = 1 ∧ ctx.cId = 1) final.db.log = 200 := by
      rw [log, paid_cons, paid_payment _ rfl, paid_payment _ rfl, firstFixed.cWId, firstFixed.cDId,
        firstFixed.cId rfl, firstFixed.hAmount, secondFixed.cWId, secondFixed.cDId, secondFixed.cId rfl,
        secondFixed.hAmount]
      rfl
    have start := congrArg (Option.map (· + (200 : Int64))) base
    rw [Option.map_map] at start
    rw [twice] at total
    exact total.trans start

/-- A payment whose commit is acknowledged has been made once, and with the effect that was
asked for. -/
theorem exactly_once_iff_acknowledged : ∃ events world connection response,
    (World.initial smallLoaded).run (tpccClient plainPlatform) events = some world ∧
    world.connections[0]? = some connection ∧ replyOf connection.client = some response ∧
    response.ok = true ∧ appliedBy 0 world.db.log = 1 ∧
    ∃ now, Effect plainPlatform now (tables .little (world.db.asOf 0)) (tables .little (world.db.asOf 1))
      (.inr (smallPayment 1)) := by
  obtain ⟨opened, session, wv, dv, started, unchanged, found, _, waiting, supplied⟩ :=
    small_payment_started
  obtain ⟨events, world, paid, attempt, writes, ran, reads, grown, last, pending, _⟩ :=
    payment_attempt found waiting supplied .committed .done (by simp)
  have whole := World.run_trans started ran
  have answered := Payment.resume_committed plainPlatform {} paid pending
  obtain ⟨request, known, applies, counts⟩ := exactly_once_iff whole last answered
  have mine : asked ([.start (.inr (smallPayment 1)) {}] ++ (events ++ [.settle 0 .committed {}])) 0 =
      some (.inr (smallPayment 1)) := asked_extend _ rfl
  cases known.symm.trans mine
  have log : world.db.log = [⟨(0, .inr paid), writes⟩] := by
    rw [grown, unchanged]
    rfl
  refine ⟨_, world, _, _, whole, last, answered, rfl, counts.mpr ?_, applies 0 _ (by rw [log]; rfl) rfl⟩
  intro answers member
  simp only [List.mem_append, List.mem_cons, List.not_mem_nil, or_false, reduceCtorEq, false_or,
    Event.settle.injEq, false_and, and_false] at member
  obtain ⟨version, read⟩ := reads _ member
  cases read

end H2oTpcc

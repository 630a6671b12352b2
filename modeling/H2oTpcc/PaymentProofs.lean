import H2oTpcc.Payment
import H2oTpcc.QuietRuns
import H2oTpcc.RowReads
import H2oTpcc.Tables

/-! What the Payment chain knows at each of its callbacks. The three rows it sets
are rows it has read in the same attempt, so a committed payment is one atomic
transaction on the store just before it; the customer of a payment by name may
change from attempt to attempt, but not within one. -/
namespace H2oTpcc.Payment
variable (P : Platform)

/-- The rows a payment sets, in the order of `on_customer_read`. -/
def rows (ctx : PaymentCtx) (cv : CustomerVal) (now : Int64) : List (Key × Bytes) :=
  [(.warehouse ctx.wId, encode P.host (warehouseVal ctx)),
    (.district ctx.cWId ctx.cDId, encode P.host (districtVal ctx)),
    (.customer ctx.cWId ctx.cDId ctx.cId, encode P.host (customerVal ctx cv)),
    (.history ctx.wId ctx.cWId ctx.cDId ctx.cId (stamp now), encode P.host (historyVal ctx now))]

def WarehouseRead (ctx : PaymentCtx) (tables : Key → Option Bytes) : Prop :=
  ∃ wv : WarehouseVal, asRow P.host (tables (.warehouse ctx.wId)) = some wv ∧ ctx.wYtd = wv.wYtd

def DistrictRead (ctx : PaymentCtx) (tables : Key → Option Bytes) : Prop :=
  ∃ dv : DistrictVal, asRow P.host (tables (.district ctx.cWId ctx.cDId)) = some dv ∧ ctx.dYtd = dv.dYtd

/-- The customer row is needed whole: `c_ytd_payment` is not kept in the context. -/
structure CustomerRead (ctx : PaymentCtx) (cv : CustomerVal) (tables : Key → Option Bytes) : Prop where
  row : asRow P.host (tables (.customer ctx.cWId ctx.cDId ctx.cId)) = some cv
  balance : ctx.cBalance = cv.cBalance
  count : ctx.cPaymentCnt = cv.cPaymentCnt

/-- A committed payment: `writes` is what Payment does to these tables. -/
def Commits (ctx : PaymentCtx) (tables : Key → Option Bytes) (writes : List (Bytes × Bytes)) : Prop :=
  WarehouseRead P ctx tables ∧ DistrictRead P ctx tables ∧
    ∃ cv now, CustomerRead P ctx cv tables ∧ writes = built P.host (rows P ctx cv now)

/-! ## Running the callbacks -/

section Run
variable (answers : Answers) (session : Session PaymentCtx PaymentCallback Bytes Bytes Response)

@[simp] theorem run_finishPayment (status : Nat) (body : String) :
    (finishPayment status body).run answers session = ((), { session with
      reply := some (if status = 200 then .inline body else .error status "Error" body) }) := by
  simp [finishPayment]

/-- The warehouse row gives the total to add to, and the payment goes on to the district of its
customer. -/
theorem run_onWarehouse (wv : WarehouseVal) :
    (onWarehouse wv).run answers session = ((), Session.submit answers
      (.get (kvDistrictKey session.ctx.cWId session.ctx.cDId)) .onDistrictRead
      { session with ctx := withWarehouse wv session.ctx }) := by
  simp [onWarehouse, withWarehouse]

/-- With the district row the customer is chosen, by number or by a draw, and the payment goes
on to it. -/
theorem run_onDistrict (dv : DistrictVal) :
    (onDistrict P dv).run answers session = ((), Session.submit answers
      (.get (kvCustomerKey (withDistrict P dv session.ctx).cWId (withDistrict P dv session.ctx).cDId
        (withDistrict P dv session.ctx).cId)) .onCustomerRead
      { session with ctx := withDistrict P dv session.ctx }) := by
  simp [onDistrict]

/-- The customer row completes what is needed: all four rows are set, and the commit is
submitted. -/
theorem run_onCustomer (cv : CustomerVal) :
    (onCustomer P cv).run answers session = ((), Session.submit answers .commit .onCommit
      { session with
        ctx := withCustomer cv session.ctx
        sets := session.sets ++ built P.host (rows P (withCustomer cv session.ctx) cv answers.now) }) := by
  simp [onCustomer, writePayment, rows, Key.build]

/-- An acknowledged commit is answered with the amount. -/
theorem run_onCommit :
    (onCommit .done).run answers session = ((), { session with
      reply := some (.json (.map [("status", .str "ok"),
        ("amount", .int session.ctx.hAmount.toInt)])) }) := by
  simp [onCommit]

/-- A retried payment starts again at its warehouse. Its context, the seed included, is left as
it is. -/
theorem run_onErrorRetry_done :
    (onErrorRetry .done).run answers session = ((), session.submit answers
      (.get (kvWarehouseKey session.ctx.wId)) .onWarehouseRead) := by
  simp [onErrorRetry]

theorem run_onErrorRetry_error (nonzero : code ≠ 0) :
    (onErrorRetry (.error code)).run answers session = ((), { session with
      reply := some (.error 503 "Error" "transaction retry exhausted") }) := by
  simp [onErrorRetry, nonzero]

end Run

/-- How a payment is opened: an answer for want of memory or of a transaction, or the read of
its warehouse. -/
theorem run_start (params : PaymentParams) (answers : Answers) :
    (paymentChain P).start params answers =
      if answers.alloc then
        let session : Session PaymentCtx PaymentCallback Bytes Bytes Response := { ctx := params.ctx }
        if answers.create then session.submit answers (.get (kvWarehouseKey params.wId)) .onWarehouseRead
        else { session with reply := some (serviceUnavailable "fdb transaction failed") }
      else { ctx := {}, reply := some (serviceUnavailable "out of memory") } := by
  simp only [Chain.start, paymentChain, start, run_openRequest, Prog.run_store, run_fdbAsyncGet]

/-- A payment that is opened waits for its warehouse. -/
theorem start_waits (params : PaymentParams) (now : Int64) :
    (paymentChain P).start params { now } =
      { ctx := params.ctx, pending := some (.get (kvWarehouseKey params.wId), .onWarehouseRead) } := by
  simp [run_start, Session.submit]

/-! ## What the chain knows -/

/-- What holds while the future that will run `callback` is outstanding. -/
def KnownAt : PaymentCallback → Operation Bytes → PaymentCtx → Attempt Bytes Bytes → Prop
  | .onWarehouseRead, operation, ctx, attempt =>
    attempt.writes = [] ∧ operation = .get (kvWarehouseKey ctx.wId)
  | .onDistrictRead, operation, ctx, attempt =>
    attempt.writes = [] ∧ operation = .get (kvDistrictKey ctx.cWId ctx.cDId) ∧
      Known attempt.reads fun view => WarehouseRead P ctx (tablesOf P.host view)
  | .onCustomerRead, operation, ctx, attempt =>
    attempt.writes = [] ∧ operation = .get (kvCustomerKey ctx.cWId ctx.cDId ctx.cId) ∧
      Known attempt.reads fun view =>
        WarehouseRead P ctx (tablesOf P.host view) ∧ DistrictRead P ctx (tablesOf P.host view)
  | .onCommit, operation, ctx, attempt =>
    operation = .commit ∧
      Known attempt.reads fun view => Commits P ctx (tablesOf P.host view) attempt.writes
  | .onErrorRetry, operation, _, _ => ∃ code, operation = .onError code

/-- Choosing a customer changes nothing of what was read before, nor the warehouse, the district
and the amount. -/
theorem withDistrict_frame (dv : DistrictVal) (ctx : PaymentCtx) :
    (withDistrict P dv ctx).wId = ctx.wId ∧ (withDistrict P dv ctx).cWId = ctx.cWId ∧
      (withDistrict P dv ctx).cDId = ctx.cDId ∧ (withDistrict P dv ctx).wYtd = ctx.wYtd ∧
      (withDistrict P dv ctx).dYtd = dv.dYtd ∧ (withDistrict P dv ctx).hAmount = ctx.hAmount := by
  unfold withDistrict chooseCustomer
  split <;> exact ⟨rfl, rfl, rfl, rfl, rfl, rfl⟩

section Callbacks
variable {attempt attempt' : Attempt Bytes Bytes} (answers : Answers)
  (session : Session PaymentCtx PaymentCallback Bytes Bytes Response)

private theorem onWarehouseRead_inv (idle : session.pending = none) (unset : session.sets = [])
    (holds : KnownAt P .onWarehouseRead operation session.ctx attempt)
    (delivers : Delivers operation attempt attempt' future) :
    (onWarehouseRead P future).HandsOn (KnownAt P) answers attempt' session := by
  obtain ⟨clean, rfl⟩ := holds
  refine onRowRead_handsOn clean delivers idle (fun code _ => ⟨code, rfl⟩)
    (.of_idle (run_finishPayment answers session ..) idle) fun wv clean' learns => ?_
  refine .of_submit (run_onWarehouse answers session wv) idle ⟨by simp [clean', unset], rfl, ?_⟩
  exact (learns (fun _ => True) (fun _ _ => trivial)).mono fun view seen => ⟨wv, seen.1, rfl⟩

/-- `on_district_read` keeps what was read of the warehouse, since choosing a customer does not
touch it. -/
theorem onDistrictRead_inv (idle : session.pending = none) (unset : session.sets = [])
    (holds : KnownAt P .onDistrictRead operation session.ctx attempt)
    (delivers : Delivers operation attempt attempt' future) :
    (onDistrictRead P future).HandsOn (KnownAt P) answers attempt' session := by
  obtain ⟨clean, rfl, known⟩ := holds
  refine onRowRead_handsOn clean delivers idle (fun code _ => ⟨code, rfl⟩)
    (.of_idle (run_finishPayment answers session ..) idle) fun dv clean' learns => ?_
  obtain ⟨warehouse, cw, cd, wYtd, dYtd, _⟩ := withDistrict_frame P dv session.ctx
  refine .of_submit (run_onDistrict P answers session dv) idle ⟨by simp [clean', unset], rfl, ?_⟩
  refine (learns _ known).mono fun view seen => ⟨?_, dv, ?_, dYtd⟩
  · unfold WarehouseRead
    rw [warehouse, wYtd]
    exact seen.2
  · rw [cw, cd]
    exact seen.1

/-- `on_customer_read` sets rows that follow from the three rows read in this attempt. -/
theorem onCustomerRead_inv (idle : session.pending = none) (unset : session.sets = [])
    (holds : KnownAt P .onCustomerRead operation session.ctx attempt)
    (delivers : Delivers operation attempt attempt' future) :
    (onCustomerRead P future).HandsOn (KnownAt P) answers attempt' session := by
  obtain ⟨clean, rfl, known⟩ := holds
  refine onRowRead_handsOn clean delivers idle (fun code _ => ⟨code, rfl⟩)
    (.of_idle (run_finishPayment answers session ..) idle) fun cv clean' learns => ?_
  refine .of_submit (run_onCustomer P answers session cv) idle ⟨rfl, ?_⟩
  refine (learns _ known).mono fun view seen => ⟨seen.2.1, seen.2.2, cv, answers.now, ?_, ?_⟩
  · exact ⟨seen.1, rfl, rfl⟩
  · simp [clean', unset]

theorem onCommit_inv (idle : session.pending = none)
    (holds : KnownAt P .onCommit operation session.ctx attempt)
    (delivers : Delivers operation attempt attempt' future) :
    (onCommit future).HandsOn (KnownAt P) answers attempt' session := by
  obtain ⟨rfl, _⟩ := holds
  cases delivers with
  | committed => exact .of_idle (run_onCommit answers session) idle
  | failed nonzero =>
    exact .of_submit (run_orRetry_error answers session _ _ nonzero) idle ⟨_, rfl⟩

/-- `on_error_retry` starts over with an empty attempt, so that nothing read before is relied
on. -/
theorem onErrorRetry_inv (idle : session.pending = none) (unset : session.sets = [])
    (holds : KnownAt P .onErrorRetry operation session.ctx attempt)
    (delivers : Delivers operation attempt attempt' future) :
    (onErrorRetry future).HandsOn (KnownAt P) answers attempt' session := by
  obtain ⟨code, rfl⟩ := holds
  cases delivers with
  | reset =>
    refine .of_submit (run_onErrorRetry_done answers session) idle ⟨?_, rfl⟩
    simp [unset]
  | failed nonzero => exact .of_idle (run_onErrorRetry_error answers session nonzero) idle

end Callbacks

/-- Along every run a payment knows at each callback what `KnownAt` says. -/
theorem localInvariant : LocalInvariant (paymentChain P).client (SessionInv (KnownAt P)) := by
  apply Chain.localInvariant
  · intro params answers
    rw [run_start]
    split
    · split
      · exact .of_submit rfl ⟨rfl, rfl⟩
      · exact .of_idle rfl
    · exact .of_idle rfl
  · intro answers callback operation attempt attempt' future session holds delivers idle unset
    cases callback with
    | onWarehouseRead => exact onWarehouseRead_inv P answers session idle unset holds delivers
    | onDistrictRead => exact onDistrictRead_inv P answers session idle unset holds delivers
    | onCustomerRead => exact onCustomerRead_inv P answers session idle unset holds delivers
    | onCommit => exact onCommit_inv P answers session idle holds delivers
    | onErrorRetry => exact onErrorRetry_inv P answers session idle unset holds delivers

/-- A commit is always outstanding for `on_commit`: no other callback of a payment is ever
registered for one. -/
theorem pending_commit {session : Session PaymentCtx PaymentCallback Bytes Bytes Response}
    {attempt : Attempt Bytes Bytes} (holds : SessionInv (KnownAt P) session attempt)
    (pending : (paymentChain P).client.pending session = some .commit) :
    session.pending = some (.commit, .onCommit) := by
  change session.pending.map Prod.fst = _ at pending
  obtain ⟨⟨operation, callback⟩, waiting, rfl⟩ := Option.map_eq_some_iff.mp pending
  have here := holds .commit callback waiting
  cases callback with
  | onCommit => exact waiting
  | onWarehouseRead => exact absurd here.2 (by simp)
  | onDistrictRead => exact absurd here.2.1 (by simp)
  | onCustomerRead => exact absurd here.2.1 (by simp)
  | onErrorRetry => obtain ⟨_, impossible⟩ := here; cases impossible

/-- A pending commit's buffer is what the payment does to any tables that agree
with what the attempt has read. -/
theorem commit_meaning (session : Session PaymentCtx PaymentCallback Bytes Bytes Response)
    (attempt : Attempt Bytes Bytes) (holds : SessionInv (KnownAt P) session attempt)
    (pending : (paymentChain P).client.pending session = some .commit) :
    Known attempt.reads fun view => Commits P session.ctx (tablesOf P.host view) attempt.writes :=
  (holds .commit .onCommit (pending_commit P holds pending)).2

/-- What the client is told of an acknowledged payment: that it went well, and the amount. -/
theorem resume_committed (answers : Answers)
    (session : Session PaymentCtx PaymentCallback Bytes Bytes Response)
    (waiting : session.pending = some (.commit, .onCommit)) :
    ((paymentChain P).resume answers session .done).reply =
      some (.json (.map [("status", .str "ok"), ("amount", .int session.ctx.hAmount.toInt)])) := by
  simp only [Chain.resume, waiting]
  change ((onCommit .done).run answers _).2.reply = _
  rw [run_onCommit]

/-! ## An undisturbed payment -/

/-- The tables hold every row that the payment reads. -/
structure Supplied (ctx : PaymentCtx) (wv : WarehouseVal) (dv : DistrictVal) (cv : CustomerVal)
    (tables : Key → Option Bytes) : Prop where
  warehouse : asRow P.host (tables (.warehouse ctx.wId)) = some wv
  district : asRow P.host (tables (.district ctx.cWId ctx.cDId)) = some dv
  customer : asRow P.host (tables (.customer ctx.cWId ctx.cDId (chooseCustomer P ctx).cId)) = some cv

/-- A payment waiting for its warehouse, first attempt or retry, gets to its
commit if every row it reads is there. -/
theorem quiet_payment (answers : Answers) (view : Bytes → Option Bytes)
    (accepted : answers.accept = true)
    (session : Session PaymentCtx PaymentCallback Bytes Bytes Response)
    {wv : WarehouseVal} {dv : DistrictVal} {cv : CustomerVal}
    (supplied : Supplied P session.ctx wv dv cv (tablesOf P.host view))
    (waiting : session.pending = some (.get (kvWarehouseKey session.ctx.wId), .onWarehouseRead)) :
    ∃ session', (paymentChain P).client.Quiet answers view session [] session'
        (built P.host (rows P session'.ctx cv answers.now)) ∧
      session'.pending = some (.commit, .onCommit) ∧ session'.reply = session.reply ∧
      session'.ctx = withCustomer cv (withDistrict P dv (withWarehouse wv session.ctx)) := by
  obtain ⟨warehouse, district, customer⟩ := supplied
  let ctx := withDistrict P dv (withWarehouse wv session.ctx)
  obtain ⟨_, cw, cd, _⟩ := withDistrict_frame P dv (withWarehouse wv session.ctx)
  have chosen : (chooseCustomer P session.ctx).cId = ctx.cId := by
    cases byName : session.ctx.byName <;>
      simp [ctx, withDistrict, chooseCustomer, withWarehouse, byName]
  have row : asRow P.host (view (kvCustomerKey ctx.cWId ctx.cDId ctx.cId)) = some cv := by
    simp only [ctx, cw, cd] at chosen ⊢
    rw [← chosen]
    exact customer
  refine ⟨{ session with
    ctx := withCustomer cv ctx
    pending := some (.commit, .onCommit)
    sets := built P.host (rows P (withCustomer cv ctx) cv answers.now) }, ?_, rfl, rfl, rfl⟩
  apply (paymentChain P).quiet_row waiting rfl warehouse (run_onWarehouse answers _ wv)
  simp only [Session.submit, accepted, if_true]
  apply (paymentChain P).quiet_row rfl rfl district (run_onDistrict P answers _ dv)
  simp only [Session.submit, accepted, if_true]
  apply (paymentChain P).quiet_row rfl rfl row (run_onCustomer P answers _ cv)
  simp only [Session.submit, accepted, if_true, List.nil_append]
  exact .refl

end H2oTpcc.Payment

import H2oTpcc.RequestHistory
import H2oTpcc.Serial

/-! What a request is for. An order or a payment that was asked for has one effect on the store:
the rows it read are those it sets anew, with its own parameters and the time of its commit. Every
commit of a run has the effect of the request that its connection was asked for, however often the
request was retried before. -/
namespace H2oTpcc

/-- The parameters, which no callback changes. -/
def NewOrderCtx.params (ctx : NewOrderCtx) : NewOrderParams where
  seed := ctx.seed
  wId := ctx.wId
  dId := ctx.dId
  cId := ctx.cId
  olCnt := ctx.olCnt
  olSupplyW := ctx.olSupplyW
  olIId := ctx.olIId
  olQuantity := ctx.olQuantity
  allLocal := ctx.allLocal

/-- The fields of a payment's context that no callback changes are those of its request. The
customer is among them unless it goes by name: then `on_district_read` draws one at every attempt. -/
structure PaymentParams.Fixes (params : PaymentParams) (ctx : PaymentCtx) : Prop where
  wId : ctx.wId = params.wId
  cWId : ctx.cWId = params.cWId
  cDId : ctx.cDId = params.cDId
  byName : ctx.byName = params.byName
  cId : params.byName = false → ctx.cId = params.cId
  hAmount : ctx.hAmount = params.hAmount

/-- What a request does to the tables when it is committed at the time `now`. -/
inductive Effect (P : Platform) (now : Int64) (before after : Key → Option Bytes) :
    NewOrderRequest ⊕ PaymentParams → Prop where
  | order {request : NewOrderRequest} (ctx : NewOrderCtx) (own : ctx.params = request.val)
      (reads : NewOrder.ReadFrom P ctx ctx.olCnt.toNat before)
      (becomes : after = overwrite before (NewOrder.rows P ctx now)) :
      Effect P now before after (.inl request)
  | payment {params : PaymentParams} (ctx : PaymentCtx) (cv : CustomerVal) (fixed : params.Fixes ctx)
      (warehouse : Payment.WarehouseRead P ctx before) (district : Payment.DistrictRead P ctx before)
      (customer : Payment.CustomerRead P ctx cv before)
      (becomes : after = overwrite before (Payment.rows P ctx cv now)) :
      Effect P now before after (.inr params)

/-! ## An order and its request -/

namespace NewOrder
variable (P : Platform)

/-- What holds of an order and its inputs while the future that will run `callback` is
outstanding: the sets wait for a commit only, and carry the time of the callback that made them. -/
def Serving (inputs : Inputs NewOrderRequest) :
    NewOrderCallback → Operation Bytes → NewOrderCtx → Attempt Bytes Bytes → Prop
  | .onCommit, operation, ctx, attempt => ctx.params = inputs.parameters.val ∧ operation = .commit ∧
    attempt.writes = built P.host (rows P ctx inputs.latest.now)
  | .onErrorRetry, operation, ctx, _ => ctx.params = inputs.parameters.val ∧
    ∃ code, operation = .onError code
  | _, operation, ctx, attempt => ctx.params = inputs.parameters.val ∧ attempt.writes = [] ∧
    ∃ key, operation = .get key

variable {P} {inputs : Inputs NewOrderRequest} {attempt : Attempt Bytes Bytes} {answers : Answers}
  {session : Session NewOrderCtx NewOrderCallback Bytes Bytes Response}

private theorem startStockReads_serving (idle : session.pending = none) (unset : session.sets = [])
    (clean : attempt.writes = []) (own : session.ctx.params = inputs.parameters.val) :
    (startStockReads P).HandsOn (Serving P (inputs.hear answers)) answers attempt session := by
  have ran := run_startStockReads P answers session
  split at ran
  · exact .of_submit ran idle ⟨own, rfl, by simp [clean, unset]⟩
  · exact .of_submit ran idle ⟨own, by simp [clean, unset], _, rfl⟩

/-- Every callback of an order keeps to the request that the connection was opened with, and what it
has set carries the time that the callback has read. -/
theorem requestInvariant : RequestInvariant (newOrderChain P).client
    (fun inputs => SessionInv (Serving P inputs)) := by
  apply Chain.requestInvariant
  · intro request answers
    rw [run_start]
    split
    · split
      · exact .of_submit rfl ⟨rfl, rfl, _, rfl⟩
      · exact .of_idle rfl
    · exact .of_idle rfl
  · intro inputs answers callback operation attempt attempt' future session holds delivers idle unset
    cases callback with
    | onDistrictRead =>
      obtain ⟨own, clean, key, rfl⟩ := holds
      refine onRowRead_handsOn clean delivers idle (fun code _ => ⟨own, code, rfl⟩)
        (.of_idle (run_finishNewOrder answers session ..) idle) fun dv clean' _ => ?_
      exact .of_submit (run_onDistrict answers session dv) idle ⟨own, by simp [clean', unset], _, rfl⟩
    | onCustomerRead =>
      obtain ⟨own, clean, key, rfl⟩ := holds
      refine onRowRead_handsOn clean delivers idle (fun code _ => ⟨own, code, rfl⟩)
        (.of_idle (run_finishNewOrder answers session ..) idle) fun cv clean' _ => ?_
      exact .of_run (run_onCustomer P answers session cv) (startStockReads_serving idle unset clean' own)
    | onStockRead =>
      obtain ⟨own, clean, key, rfl⟩ := holds
      refine onRowRead_handsOn clean delivers idle (fun code _ => ⟨own, code, rfl⟩)
        (.of_idle (run_finishNewOrder answers session ..) idle) fun sv clean' _ => ?_
      exact .of_run (run_onStock P answers session sv) (startStockReads_serving idle unset clean' own)
    | onCommit =>
      obtain ⟨own, rfl, _⟩ := holds
      cases delivers with
      | committed => exact .of_idle (run_onCommit answers session) idle
      | failed nonzero =>
        exact .of_submit (run_orRetry_error answers session _ _ nonzero) idle ⟨own, _, rfl⟩
    | onErrorRetry =>
      obtain ⟨own, code, rfl⟩ := holds
      cases delivers with
      | reset =>
        exact .of_submit (run_onErrorRetry_done answers session) idle ⟨own, by simp [unset], _, rfl⟩
      | failed nonzero => exact .of_idle (run_onErrorRetry_error answers session nonzero) idle

/-- At its commit an order has buffered the rows of its request. -/
theorem Serving.commit (serving : SessionInv (Serving P inputs) session attempt)
    (asks : (newOrderChain P).client.pending session = some .commit) :
    session.pending = some (.commit, .onCommit) ∧ session.ctx.params = inputs.parameters.val ∧
      attempt.writes = built P.host (rows P session.ctx inputs.latest.now) := by
  change session.pending.map Prod.fst = _ at asks
  obtain ⟨⟨operation, callback⟩, waiting, rfl⟩ := Option.map_eq_some_iff.mp asks
  have here := serving .commit callback waiting
  cases callback with
  | onCommit => exact ⟨waiting, here.1, here.2.2⟩
  | onDistrictRead | onCustomerRead | onStockRead => obtain ⟨_, _, _, impossible⟩ := here; cases impossible
  | onErrorRetry => obtain ⟨_, _, impossible⟩ := here; cases impossible

end NewOrder

/-! ## A payment and its request -/

namespace Payment
variable (P : Platform)

/-- What holds of a payment and its inputs while the future that will run `callback` is
outstanding. The customer's row is known from the read that the sets are made of. -/
def Serving (inputs : Inputs PaymentParams) :
    PaymentCallback → Operation Bytes → PaymentCtx → Attempt Bytes Bytes → Prop
  | .onCommit, operation, ctx, attempt => inputs.parameters.Fixes ctx ∧ operation = .commit ∧
    ∃ cv, Known attempt.reads (fun view => CustomerRead P ctx cv (tablesOf P.host view)) ∧
      attempt.writes = built P.host (rows P ctx cv inputs.latest.now)
  | .onCustomerRead, operation, ctx, attempt => inputs.parameters.Fixes ctx ∧ attempt.writes = [] ∧
    operation = .get (kvCustomerKey ctx.cWId ctx.cDId ctx.cId)
  | .onErrorRetry, operation, ctx, _ => inputs.parameters.Fixes ctx ∧ ∃ code, operation = .onError code
  | _, operation, ctx, attempt => inputs.parameters.Fixes ctx ∧ attempt.writes = [] ∧
    ∃ key, operation = .get key

variable {P} {params : PaymentParams} {inputs : Inputs PaymentParams} {attempt : Attempt Bytes Bytes}
  {session : Session PaymentCtx PaymentCallback Bytes Bytes Response}

private theorem fixes_start (params : PaymentParams) : params.Fixes params.ctx :=
  ⟨rfl, rfl, rfl, rfl, fun _ => rfl, rfl⟩

/-- A customer is chosen only for a payment by name. -/
private theorem fixes_withDistrict {ctx : PaymentCtx} (fixed : params.Fixes ctx) (dv : DistrictVal) :
    params.Fixes (withDistrict P dv ctx) := by
  obtain ⟨w, cw, cd, byName, c, amount⟩ := fixed
  unfold withDistrict chooseCustomer
  split
  · rename_i named
    exact ⟨w, cw, cd, byName, fun numbered => absurd (byName.symm.trans named) (by simp [numbered]), amount⟩
  · exact ⟨w, cw, cd, byName, c, amount⟩

/-- Every callback of a payment keeps to its request. Only the customer of a payment by name may
change, from one attempt to the next. -/
theorem requestInvariant : RequestInvariant (paymentChain P).client
    (fun inputs => SessionInv (Serving P inputs)) := by
  apply Chain.requestInvariant
  · intro params answers
    rw [run_start]
    split
    · split
      · exact .of_submit rfl ⟨fixes_start params, rfl, _, rfl⟩
      · exact .of_idle rfl
    · exact .of_idle rfl
  · intro inputs answers callback operation attempt attempt' future session holds delivers idle unset
    cases callback with
    | onWarehouseRead =>
      obtain ⟨fixed, clean, key, rfl⟩ := holds
      refine onRowRead_handsOn clean delivers idle (fun code _ => ⟨fixed, code, rfl⟩)
        (.of_idle (run_finishPayment answers session ..) idle) fun wv clean' _ => ?_
      exact .of_submit (run_onWarehouse answers session wv) idle
        ⟨{ fixed with }, by simp [clean', unset], _, rfl⟩
    | onDistrictRead =>
      obtain ⟨fixed, clean, key, rfl⟩ := holds
      refine onRowRead_handsOn clean delivers idle (fun code _ => ⟨fixed, code, rfl⟩)
        (.of_idle (run_finishPayment answers session ..) idle) fun dv clean' _ => ?_
      exact .of_submit (run_onDistrict P answers session dv) idle
        ⟨fixes_withDistrict fixed dv, by simp [clean', unset], rfl⟩
    | onCustomerRead =>
      obtain ⟨fixed, clean, rfl⟩ := holds
      refine onRowRead_handsOn clean delivers idle (fun code _ => ⟨fixed, code, rfl⟩)
        (.of_idle (run_finishPayment answers session ..) idle) fun cv clean' learns => ?_
      refine .of_submit (run_onCustomer P answers session cv) idle
        ⟨{ fixed with }, rfl, cv, ?_, by simp [clean', unset]⟩
      exact (learns (fun _ => True) fun _ _ => trivial).mono fun view seen => ⟨seen.1, rfl, rfl⟩
    | onCommit =>
      obtain ⟨fixed, rfl, _⟩ := holds
      cases delivers with
      | committed => exact .of_idle (run_onCommit answers session) idle
      | failed nonzero =>
        exact .of_submit (run_orRetry_error answers session _ _ nonzero) idle ⟨fixed, _, rfl⟩
    | onErrorRetry =>
      obtain ⟨fixed, code, rfl⟩ := holds
      cases delivers with
      | reset =>
        exact .of_submit (run_onErrorRetry_done answers session) idle ⟨fixed, by simp [unset], _, rfl⟩
      | failed nonzero => exact .of_idle (run_onErrorRetry_error answers session nonzero) idle

/-- At its commit a payment has buffered the rows of its request, computed from a customer row that it
has read in the same attempt. -/
theorem Serving.commit (serving : SessionInv (Serving P inputs) session attempt)
    (asks : (paymentChain P).client.pending session = some .commit) :
    inputs.parameters.Fixes session.ctx ∧
      ∃ cv, Known attempt.reads (fun view => CustomerRead P session.ctx cv (tablesOf P.host view)) ∧
        attempt.writes = built P.host (rows P session.ctx cv inputs.latest.now) := by
  change session.pending.map Prod.fst = _ at asks
  obtain ⟨⟨operation, callback⟩, waiting, rfl⟩ := Option.map_eq_some_iff.mp asks
  have here := serving .commit callback waiting
  cases callback with
  | onCommit => exact ⟨here.1, here.2.2⟩
  | onWarehouseRead | onDistrictRead => obtain ⟨_, _, _, impossible⟩ := here; cases impossible
  | onCustomerRead => obtain ⟨_, _, impossible⟩ := here; cases impossible
  | onErrorRetry => obtain ⟨_, _, impossible⟩ := here; cases impossible

end Payment

/-! ## Commits and their requests -/

section Runs
variable {P : Platform} {base : Store Bytes Bytes} {world : TpccWorld}
  {events : List (Event (NewOrderRequest ⊕ PaymentParams))} {version : Nat}
  (ran : (World.initial base).run (tpccClient P) events = some world)
include ran

/-- In every run of orders and payments each connection serves the request that it was opened
with. -/
theorem tpcc_kept : world.Kept (tpccClient P)
    (Inputs.Either (fun inputs => SessionInv (NewOrder.Serving P inputs))
      fun inputs => SessionInv (Payment.Serving P inputs)) events :=
  World.run_kept (NewOrder.requestInvariant.sum Payment.requestInvariant) ran

/-- A committed order is the one that its connection was asked for. -/
theorem order_request (logged : world.db.log[version]? = some commit)
    (placed : orderOf commit = some ctx) :
    ∃ inputs request, (history events).committed[version]? = some inputs ∧
      inputs.parameters = .inl request ∧ asked events commit.author.1 = some (.inl request) ∧
      ctx.params = request.val ∧ commit.writes = built P.host (NewOrder.rows P ctx inputs.latest.now) := by
  obtain ⟨inputs, attempt, noted, known, writes, asks, _, holds⟩ :=
    (tpcc_kept ran).author version commit logged
  cases state : commit.author.2 with
  | inr session => simp [orderOf, state] at placed
  | inl session =>
    obtain rfl : session.ctx = ctx := by simpa [orderOf, state] using placed
    rw [state] at asks holds
    obtain ⟨request, parameters, serving⟩ := holds.of_inl
    obtain ⟨_, own, rows⟩ := NewOrder.Serving.commit serving asks
    exact ⟨inputs, request, noted, parameters, parameters ▸ known, own, writes ▸ rows⟩

/-- A committed payment is the one that its connection was asked for. -/
theorem payment_request (logged : world.db.log[version]? = some commit)
    (made : paymentOf commit = some ctx) :
    ∃ inputs params cv, (history events).committed[version]? = some inputs ∧
      inputs.parameters = .inr params ∧ asked events commit.author.1 = some (.inr params) ∧
      params.Fixes ctx ∧ Payment.CustomerRead P ctx cv (tables P.host (world.db.asOf version)) ∧
      commit.writes = built P.host (Payment.rows P ctx cv inputs.latest.now) := by
  obtain ⟨inputs, attempt, noted, known, writes, asks, reads, holds⟩ :=
    (tpcc_kept ran).author version commit logged
  cases state : commit.author.2 with
  | inl session => simp [paymentOf, state] at made
  | inr session =>
    obtain rfl : session.ctx = ctx := by simpa [paymentOf, state] using made
    rw [state] at asks holds
    obtain ⟨params, parameters, serving⟩ := holds.of_inr
    obtain ⟨fixed, cv, customer, rows⟩ := Payment.Serving.commit serving asks
    exact ⟨inputs, params, cv, noted, parameters, parameters ▸ known, fixed,
      customer (fun key => (world.db.asOf version)[key]?) reads, writes ▸ rows⟩

/-- In particular it is for the warehouse, the customer's district and the amount asked for. -/
theorem payment_asked (member : commit ∈ world.db.log) (made : paymentOf commit = some ctx) :
    ∃ params, asked events commit.author.1 = some (.inr params) ∧ params.Fixes ctx := by
  obtain ⟨version, logged⟩ := List.getElem?_of_mem member
  obtain ⟨_, params, _, _, _, known, fixed, _⟩ := payment_request ran logged made
  exact ⟨params, known, fixed⟩

/-- **Every commit has the effect of its request** on the store that the commits before it left,
at the time that the callback which asked for it has read. -/
theorem commit_effect (logged : world.db.log[version]? = some commit) :
    ∃ inputs, (history events).committed[version]? = some inputs ∧
      asked events commit.author.1 = some inputs.parameters ∧
      Effect P inputs.latest.now (tables P.host (world.db.asOf version))
        (tables P.host (world.db.asOf (version + 1))) inputs.parameters := by
  cases serial_step ⟨events, ran⟩ logged with
  | order ctx _ placed _ _ reads =>
    obtain ⟨inputs, request, noted, parameters, known, own, writes⟩ := order_request ran logged placed
    refine ⟨inputs, noted, parameters ▸ known, ?_⟩
    rw [parameters]
    exact .order ctx own reads (tables_asOf_succ logged writes)
  | payment ctx _ _ made _ warehouse district =>
    obtain ⟨inputs, params, cv, noted, parameters, known, fixed, customer, writes⟩ :=
      payment_request ran logged made
    refine ⟨inputs, noted, parameters ▸ known, ?_⟩
    rw [parameters]
    exact .payment ctx cv fixed warehouse district customer (tables_asOf_succ logged writes)

end Runs

end H2oTpcc

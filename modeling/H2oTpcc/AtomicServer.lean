import H2oTpcc.AtomicCallbacks
import H2oTpcc.CommitAnswers
import H2oTpcc.Lifecycle

/-! The server's requests, statement by statement. Their callbacks keep the discipline and
ask for each thing once, so runs of the server in which the statements of any number of
callbacks interleave freely are runs of whole callbacks, and what is proved of those holds
of them. -/
namespace H2oTpcc
open Stmt

/-! ## What callbacks ask for -/

section Calls
variable {σ κ ρ : Type} [Nonempty σ] {asked : List Question}

@[simp] theorem asks_fdbAsyncGet {post : Unit → List Question → Prop} (key : Bytes) (callback : κ) :
    (fdbAsyncGet key callback : Prog σ κ Bytes Bytes ρ Unit).Asks asked post ↔
      .accept ∉ asked ∧ post () (.accept :: asked) := by
  simp [fdbAsyncGet]

@[simp] theorem asks_fdbAsyncCommit {post : Unit → List Question → Prop} (callback : κ) :
    (fdbAsyncCommit callback : Prog σ κ Bytes Bytes ρ Unit).Asks asked post ↔
      .accept ∉ asked ∧ post () (.accept :: asked) := by
  simp [fdbAsyncCommit]

@[simp] theorem asks_fdbHandleError {post : Unit → List Question → Prop} (code : Nat) (callback : κ) :
    (fdbHandleError code callback : Prog σ κ Bytes Bytes ρ Unit).Asks asked post ↔
      .accept ∉ asked ∧ post () (.accept :: asked) := by
  simp [fdbHandleError]

@[simp] theorem asks_fdbSyncSet {post : Unit → List Question → Prop} (key value : Bytes) :
    (fdbSyncSet key value : Prog σ κ Bytes Bytes ρ Unit).Asks asked post ↔ post () asked := by
  simp [fdbSyncSet]

@[simp] theorem asks_finish {post : Unit → List Question → Prop} (response : Response) :
    (finish response : Prog σ κ Bytes Bytes Response Unit).Asks asked post ↔ post () asked := by
  simp [finish]

omit [Nonempty σ] in
/-- An entry point asks for its context and its transaction, and for what is left of that to
fill the context and submit the first operation. -/
theorem asks_openRequest {outOfMemory failed : String}
    {fill submitFirst : Prog σ κ Bytes Bytes Response Unit}
    (first : fill.Asks [.alloc] fun _ asked => .create ∉ asked ∧
      submitFirst.Asks (.create :: asked) fun _ _ => True) :
    (openRequest outOfMemory failed fill submitFirst).Asks [] fun _ _ => True := by
  simp only [openRequest, asks_bind, asks_alloc]
  refine ⟨List.not_mem_nil, fun ok => ?_⟩
  cases ok with
  | false => simp
  | true =>
    simp only [if_true, asks_bind, asks_create]
    refine first.mono fun _ asked submits => ⟨submits.1, fun created => ?_⟩
    cases created with
    | false => simp
    | true => exact submits.2

private theorem asks_orRetry {retry : κ} {future : Future Bytes Bytes}
    {rest : Prog σ κ Bytes Bytes ρ Unit}
    (goesOn : rest.Asks [] fun _ _ => True) : (orRetry retry future rest).Asks [] fun _ _ => True := by
  unfold orRetry
  split
  · simp
  · exact goesOn

private theorem asks_onRowRead [PackedRow ν] {host : Endian} {retry : κ}
    {missing : Prog σ κ Bytes Bytes ρ Unit}
    {found : ν → Prog σ κ Bytes Bytes ρ Unit} {future : Future Bytes Bytes}
    (givesUp : missing.Asks [] fun _ _ => True) (goesOn : ∀ row, (found row).Asks [] fun _ _ => True) :
    (onRowRead host retry missing found future).Asks [] fun _ _ => True := by
  apply asks_orRetry
  split
  · exact givesUp
  · exact goesOn _

end Calls

/-! ## The five kinds of request -/

namespace NewOrder
variable (P : Platform)

instance : Nonempty NewOrderCtx := ⟨{}⟩

private theorem asks_startStockReads : (startStockReads P).Asks [] fun _ _ => True := by
  simp only [startStockReads, asks_bind, asks_load]
  intro ctx
  split
  · simp only [writeOrder, asks_bind, asks_time, asks_fdbSyncSet]
    refine ⟨List.not_mem_nil, fun now => asks_forRange (fun i => by simp [olIndex]) ?_⟩
    exact asks_forRange (fun i => by simp [olIndex]) (by simp)
  · simp [olIndex]

private theorem asksOnce : (newOrderChain P).AsksOnce (fun request => Fit request.val.olCnt)
    (fun request => Bound request.val.olCnt) where
  disciplined := disciplined P
  entry request := by
    apply asks_openRequest
    simp only [asks_bind, asks_store, asks_load]
    exact fun ctx => asks_forRange (fun i => by simp [olIndex]) (by simp)
  body callback future := by
    cases callback with
    | onDistrictRead => exact asks_onRowRead (by simp [finishNewOrder]) fun dv => by simp [onDistrict]
    | onCustomerRead =>
      exact asks_onRowRead (by simp [finishNewOrder]) fun cv => by simp [onCustomer, asks_startStockReads]
    | onStockRead =>
      exact asks_onRowRead (by simp [finishNewOrder])
        fun sv => by simp [onStock, olIndex, asks_startStockReads]
    | onCommit => exact asks_orRetry (by simp)
    | onErrorRetry =>
      change (onErrorRetry future).Asks _ _
      unfold onErrorRetry
      split <;> simp [finishNewOrder]
  unset request answers := by
    rw [run_start]
    split
    · dsimp only
      split <;> simp
    · rfl

end NewOrder

namespace Payment
variable (P : Platform)

instance : Nonempty PaymentCtx := ⟨{}⟩

private theorem asksOnce : (paymentChain P).AsksOnce (fun _ _ _ => True) (fun _ _ => False) where
  disciplined := disciplined P
  entry params := by
    apply asks_openRequest
    simp
  body callback future := by
    cases callback with
    | onWarehouseRead => exact asks_onRowRead (by simp [finishPayment]) fun wv => by simp [onWarehouse]
    | onDistrictRead => exact asks_onRowRead (by simp [finishPayment]) fun dv => by simp [onDistrict]
    | onCustomerRead =>
      exact asks_onRowRead (by simp [finishPayment]) fun cv => by simp [onCustomer, writePayment]
    | onCommit => exact asks_orRetry (by simp)
    | onErrorRetry =>
      change (onErrorRetry future).Asks _ _
      unfold onErrorRetry
      split <;> simp [finishPayment]
  unset params answers := by
    rw [run_start]
    split
    · dsimp only
      split <;> simp
    · rfl

end Payment

/-- A chain that commits nothing starts without buffered sets. -/
theorem Chain.CommitsNothing.unset {S σ κ : Type} {chain : Chain S σ κ Bytes Bytes Response}
    {answer : σ → Response} (nothing : chain.CommitsNothing answer) (parameters : S) (answers : Answers) :
    (chain.start parameters answers).sets = [] := by
  rcases nothing.start parameters answers with ⟨ctx, callback, same⟩ | ⟨ctx, text, same⟩
  · rw [same, Session.submit_sets]
  · rw [same]

namespace OrderStatus
variable (P : Platform)

instance : Nonempty OrderStatusCtx := ⟨{}⟩

private theorem asksOnce : (orderStatusChain P).AsksOnce (fun _ _ _ => True) (fun _ _ => False) where
  disciplined := disciplined P
  entry seed := by
    apply asks_openRequest
    simp
  body callback future := by
    cases callback
    simp [orderStatusChain, osOnCommit]
  unset := (commitsNothing P).unset

end OrderStatus

namespace Delivery
variable (P : Platform)

instance : Nonempty DeliveryCtx := ⟨{}⟩

private theorem asksOnce : (deliveryChain P).AsksOnce (fun _ _ _ => True) (fun _ _ => False) where
  disciplined := disciplined P
  entry seed := by
    apply asks_openRequest
    simp
  body callback future := by
    cases callback
    simp [deliveryChain, dlOnCommit]
  unset := (commitsNothing P).unset

end Delivery

namespace Update
variable (P : Platform)

instance : Nonempty UpdateCtx := ⟨{}⟩

private theorem asksOnce : (updatesChain P).AsksOnce (fun parameter => Fit (getQueryNumber parameter))
    (fun parameter => (· = getQueryNumber parameter)) where
  disciplined := disciplined P
  entry parameter := by
    apply asks_openRequest
    simp only [asks_bind, asks_draw, asks_store]
    refine ⟨by simp, fun seed => asks_forRange (fun i => by simp) (by simp)⟩
  body callback future := by
    cases callback with
    | updateOnRead =>
      change (updateOnRead P future).Asks _ _
      unfold updateOnRead
      split
      · simp
      · simp only [asks_bind, asks_draw, asks_load, asks_index, asks_store]
        refine ⟨List.not_mem_nil, fun seed _ ctx => ?_⟩
        split
        · simp
        · simp only [updateDoWrites, asks_bind, asks_store, asks_load]
          exact fun ctx => asks_forRange (fun i => by simp) (by simp)
    | updateOnCommit =>
      simp only [updatesChain, updateOnCommit, asks_bind, asks_load]
      exact fun ctx => asks_forRange (fun i => by simp) (by simp)
  unset parameter answers := by
    rw [run_start]
    split
    · dsimp only
      split <;> simp
    · rfl

end Update

/-! ## The server -/

abbrev TpccRun := Request NewOrderCtx NewOrderCallback Bytes Bytes Response ⊕
  Request PaymentCtx PaymentCallback Bytes Bytes Response

abbrev ServerRun := TpccRun ⊕ (Request OrderStatusCtx OrderStatusCallback Bytes Bytes Response ⊕
  (Request DeliveryCtx DeliveryCallback Bytes Bytes Response ⊕
    Request UpdateCtx UpdateCallback Bytes Bytes Response))

/-- NewOrder and Payment requests, statement by statement. -/
def tpccMachine (P : Platform) : StepClient (NewOrderRequest ⊕ PaymentParams) TpccRun Bytes Bytes :=
  (newOrderChain P).machine.sum (paymentChain P).machine

/-- The requests of `serverClient`, statement by statement. -/
def serverMachine (P : Platform) : StepClient ServerRequest ServerRun Bytes Bytes :=
  (tpccMachine P).sum ((orderStatusChain P).machine.sum
    ((deliveryChain P).machine.sum (updatesChain P).machine))

/-- The answers that a request has sent. -/
def sentBy : ServerRun → List Response
  | .inl (.inl request) => request.sent
  | .inl (.inr request) => request.sent
  | .inr (.inl request) => request.sent
  | .inr (.inr (.inl request)) => request.sent
  | .inr (.inr (.inr request)) => request.sent

/-- What is left of a NewOrder or a Payment. -/
def TpccLeft (P : Platform) : TpccRun → Completion TpccState Bytes Bytes → Prop :=
  leftOf
    ((newOrderChain P).Leaves (fun request => NewOrder.Fit request.val.olCnt)
      fun request => NewOrder.Bound request.val.olCnt)
    ((paymentChain P).Leaves (fun _ _ _ => True) fun _ _ => False)

/-- What is left of a request. -/
def ServerLeft (P : Platform) : ServerRun → Completion ServerState Bytes Bytes → Prop :=
  leftOf (TpccLeft P) (leftOf ((orderStatusChain P).Leaves (fun _ _ _ => True) fun _ _ => False)
    (leftOf ((deliveryChain P).Leaves (fun _ _ _ => True) fun _ _ => False)
      ((updatesChain P).Leaves (fun parameter => Update.Fit (getQueryNumber parameter))
        fun parameter => (· = getQueryNumber parameter))))

section Server
variable (P : Platform)

private theorem tpcc_atomic : (tpccMachine P).Atomic (tpccClient P) (TpccLeft P) :=
  (NewOrder.asksOnce P).atomic.sum (Payment.asksOnce P).atomic

private theorem server_atomic : (serverMachine P).Atomic (serverClient P) (ServerLeft P) :=
  (tpcc_atomic P).sum
    ((OrderStatus.asksOnce P).atomic.sum ((Delivery.asksOnce P).atomic.sum (Update.asksOnce P).atomic))

private theorem tpcc_ends :
    (tpccMachine P).Ends (tpccClient P) (TpccLeft P) (fun state => sentBy (.inl state))
    replyOf := by
  have sent : (fun state : TpccRun => sentBy (.inl state)) = Sum.elim Request.sent Request.sent := by
    funext state
    cases state <;> rfl
  have answer : replyOf = Sum.elim Session.reply Session.reply := by
    funext state
    cases state <;> rfl
  rw [sent, answer]
  exact (newOrderChain P).ends.sum (paymentChain P).ends

private theorem server_ends :
    (serverMachine P).Ends (serverClient P) (ServerLeft P) sentBy answerOf := by
  have sent : sentBy = Sum.elim (fun state => sentBy (.inl state))
      (Sum.elim Request.sent (Sum.elim Request.sent Request.sent)) := by
    funext state
    rcases state with _ | _ | _ | _ <;> rfl
  have answer : answerOf =
      Sum.elim replyOf (Sum.elim Session.reply (Sum.elim Session.reply Session.reply)) := by
    funext state
    rcases state with _ | _ | _ | _ <;> rfl
  rw [sent, answer]
  exact (tpcc_ends P).sum
    ((orderStatusChain P).ends.sum ((deliveryChain P).ends.sum (updatesChain P).ends))

end Server

section Runs
variable {P : Platform} {base : Store Bytes Bytes}

instance : Nonempty TpccState := ⟨.inl { ctx := {} }⟩

instance : Nonempty ServerState := ⟨.inl (.inl { ctx := {} })⟩

/-- **Callbacks are atomic.** The server whose callbacks interleave statement by statement
shows what the server of whole callbacks shows, and nothing else: the same requests and
settlements lead to the same commits, and the same answers are sent. -/
theorem callbacks_are_atomic (P : Platform) (base : Store Bytes Bytes) :
    (∀ statements world, (World.initial base).runStatements (serverMachine P) statements = some world →
      ∃ events world', (World.initial base).run (serverClient P) events = some world' ∧
        events.map Event.act = statements.filterMap Statement.act ∧ world.db.SameCommits world'.db ∧
        ∀ (i : Nat) connection, world.connections[i]? = some connection →
          ∃ connection', world'.connections[i]? = some connection' ∧
            ∀ response ∈ sentBy connection.client, answerOf connection'.client = some response) ∧
    ∀ events world', (World.initial base).run (serverClient P) events = some world' →
      ∃ statements world, (World.initial base).runStatements (serverMachine P) statements = some world ∧
        statements.filterMap Statement.act = events.map Event.act ∧ world'.db.SameCommits world.db ∧
        ∀ (i : Nat) connection', world'.connections[i]? = some connection' →
          ∃ connection, world.connections[i]? = some connection ∧
            sentBy connection.client = (answerOf connection'.client).toList ∧
            connection.attempt = connection'.attempt := by
  refine ⟨fun statements world ran => (server_ends P).explained (server_atomic P) ran, ?_⟩
  intro events world' ran
  obtain ⟨statements, world, went, acts, stands⟩ := (server_ends P).reached (server_atomic P) ran
  refine ⟨statements, world, went, acts, stands.commits, fun i connection' found' => ?_⟩
  obtain ⟨connection, found, here, attempts⟩ := stands.found found'
  exact ⟨connection, found, here.sent, attempts⟩

end Runs

/-! ## Exactly once, statement by statement -/

/-- The connection's commit was applied and reported as unknown. -/
def Act.appliedUnknown (i : Nat) : Act S → Bool
  | .settle j (.unknown true) => j = i
  | _ => false

private theorem Event.act_appliedUnknown (i : Nat) (event : Event S) :
    event.act.appliedUnknown i = event.appliedUnknown i := by
  cases event with
  | start => rfl
  | settle j verdict answers =>
    cases verdict with
    | unknown applied => cases applied <;> rfl
    | _ => rfl

/-- The same number of commits by each connection. -/
theorem Database.SameCommits.applied {R L K V : Type} [Ord K] {db : Database K V (Nat × R)}
    {db' : Database K V (Nat × L)} (same : db.SameCommits db') (i : Nat) :
    appliedBy i db.log = appliedBy i db'.log := by
  have counts := congrArg (List.countP fun commit : Nat × List (K × V) => commit.1 = i) same.log
  rwa [List.countP_map, List.countP_map] at counts

/-- **Exactly once, statement by statement.** However the statements of all requests
interleave, from the moment that an order or a payment is answered it has been applied once
if the answer is a success and not at all if it is not, and once more for each of its commits
that was applied and reported as unknown. -/
theorem answered_requests_applied {P : Platform} {base : Store Bytes Bytes}
    {statements : List (Statement (NewOrderRequest ⊕ PaymentParams))} {world : World TpccRun Bytes Bytes}
    {connection : Connection TpccRun Bytes Bytes} {response : Response}
    (ran : (World.initial base).runStatements (tpccMachine P) statements = some world)
    (found : world.connections[i]? = some connection)
    (sent : response ∈ sentBy (.inl connection.client)) :
    appliedBy i world.db.log =
      (statements.filterMap Statement.act).countP (Act.appliedUnknown i) +
        if response.ok then 1 else 0 := by
  obtain ⟨events, world', ran', acts, same, shown⟩ := (tpcc_ends P).explained (tpcc_atomic P) ran
  obtain ⟨connection', found', answered⟩ := shown i connection found
  rw [same.applied, answered_count ran' found' (answered response sent), ← acts, List.countP_map]
  simp only [Function.comp_def, Event.act_appliedUnknown]

/-- The statements of a payment on the small store, up to its answer. -/
theorem answered_requests_applied_payment : ∃ statements world connection response,
    (World.initial smallLoaded).runStatements (tpccMachine plainPlatform) statements = some world ∧
    world.connections[0]? = some connection ∧ response ∈ sentBy (.inl connection.client) ∧
    response.ok = true ∧ appliedBy 0 world.db.log = 1 := by
  obtain ⟨opened, session, wv, dv, started, _, found, _, waiting, supplied⟩ := small_payment_started
  obtain ⟨events, world', paid, attempt, _, ran, reads, _, last, pending, _⟩ :=
    payment_attempt found waiting supplied .committed .done (by simp)
  have answered := Payment.resume_committed plainPlatform {} paid pending
  obtain ⟨statements, world, went, acts, stands⟩ :=
    (tpcc_ends plainPlatform).reached (tpcc_atomic plainPlatform) (World.run_trans started ran)
  obtain ⟨connection, here, standing, _⟩ := stands.found last
  have sent : sentBy (.inl connection.client) = [_] :=
    standing.sent.trans (congrArg Option.toList answered)
  have shown : _ ∈ sentBy (.inl connection.client) := sent ▸ List.mem_singleton_self _
  refine ⟨statements, world, connection, _, went, here, shown, rfl, ?_⟩
  rw [answered_requests_applied went here shown, acts]
  have known : ∀ event ∈ [Event.start (.inr (smallPayment 1)) {}] ++ (events ++ [.settle 0 .committed {}]),
      event.act.appliedUnknown 0 = false := by
    simp only [List.mem_append, List.mem_singleton]
    rintro event (rfl | member | rfl)
    · rfl
    · obtain ⟨version, rfl⟩ := reads event member
      rfl
    · rfl
  have none : List.countP (Act.appliedUnknown 0) (List.map Event.act
      ([Event.start (.inr (smallPayment 1)) {}] ++ (events ++ [.settle 0 .committed {}]))) = 0 := by
    rw [List.countP_map, List.countP_eq_zero]
    exact fun event member => Bool.eq_false_iff.mp (known event member)
  rw [none]
  rfl

end H2oTpcc

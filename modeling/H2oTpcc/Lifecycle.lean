import H2oTpcc.Ledger
import H2oTpcc.ReadTxns
import H2oTpcc.RequestMachine
import H2oTpcc.TfbHandlers

/-! The seven kinds of request that go through the database keep the discipline of
callbacks: whatever becomes of their futures, and whenever their callbacks run, a
request has one answer and nothing is used after it was released. -/
namespace H2oTpcc
open Stmt

/-! ## The calls of the adapter -/

section Calls
variable {σ κ ρ : Type} {zero : σ} {At : κ → σ → Prop} {Bound : Nat → Prop} {ctx : σ}
  {post : Unit → Own σ → Prop}

@[simp] theorem safe_fdbAsyncGet (key : Bytes) (callback : κ) :
    (fdbAsyncGet key callback : Prog σ κ Bytes Bytes ρ Unit).Safe zero At Bound (.held ctx) post ↔
      At callback ctx ∧ post () .gone ∧ post () (.held ctx) := by
  simp [fdbAsyncGet]

@[simp] theorem safe_fdbAsyncGetRange (first last : Bytes) (callback : κ) :
    (fdbAsyncGetRange first last callback : Prog σ κ Bytes Bytes ρ Unit).Safe zero At Bound (.held ctx)
      post ↔ At callback ctx ∧ post () .gone ∧ post () (.held ctx) := by
  simp [fdbAsyncGetRange]

@[simp] theorem safe_fdbAsyncCommit (callback : κ) :
    (fdbAsyncCommit callback : Prog σ κ Bytes Bytes ρ Unit).Safe zero At Bound (.held ctx) post ↔
      At callback ctx ∧ post () .gone ∧ post () (.held ctx) := by
  simp [fdbAsyncCommit]

@[simp] theorem safe_fdbHandleError (code : Nat) (callback : κ) :
    (fdbHandleError code callback : Prog σ κ Bytes Bytes ρ Unit).Safe zero At Bound (.held ctx) post ↔
      At callback ctx ∧ post () .gone ∧ post () (.held ctx) := by
  simp [fdbHandleError]

@[simp] theorem safe_fdbSyncSet (key value : Bytes) :
    (fdbSyncSet key value : Prog σ κ Bytes Bytes ρ Unit).Safe zero At Bound (.held ctx) post ↔
      post () (.held ctx) := by
  simp [fdbSyncSet]

@[simp] theorem safe_finish (response : Response) :
    (finish response : Prog σ κ Bytes Bytes Response Unit).Safe zero At Bound (.held ctx) post ↔
      post () .gone := by
  simp [finish]

/-- The context that an entry point has filled in, before its transaction exists. -/
def filled (ctx : σ) : Own σ where
  memory := .live ctx

/-- An entry point is safe if what it fills in is fit for its first operation. -/
theorem safe_openRequest {outOfMemory failed : String}
    {fill submitFirst : Prog σ κ Bytes Bytes Response Unit}
    (first : fill.Safe zero At Bound (filled zero) fun _ own => ∃ ctx, own = filled ctx ∧
      submitFirst.Safe zero At Bound (.held ctx) fun _ _ => True) :
    (openRequest outOfMemory failed fill submitFirst).Safe zero At Bound {} fun _ _ => True := by
  unfold openRequest
  simp only [safe_bind, safe_alloc, true_and]
  refine ⟨?_, by simp⟩
  simp only [if_true, safe_bind]
  refine first.mono fun _ own found => ?_
  obtain ⟨ctx, rfl, safe⟩ := found
  simp only [safe_create]
  exact ⟨rfl, safe, by simp [filled]⟩

private theorem safe_orRetry {retry : κ} {future : Future Bytes Bytes}
    {rest : Prog σ κ Bytes Bytes ρ Unit}
    (restart : At retry ctx) (goesOn : rest.Safe zero At Bound (.held ctx) fun _ _ => True) :
    (orRetry retry future rest).Safe zero At Bound (.held ctx) fun _ _ => True := by
  unfold orRetry
  split
  · simp [restart]
  · exact goesOn

private theorem safe_onRowRead [PackedRow ν] {host : Endian} {retry : κ}
    {missing : Prog σ κ Bytes Bytes ρ Unit} {found : ν → Prog σ κ Bytes Bytes ρ Unit}
    {future : Future Bytes Bytes} (restart : At retry ctx)
    (givesUp : missing.Safe zero At Bound (.held ctx) fun _ _ => True)
    (goesOn : ∀ row, (found row).Safe zero At Bound (.held ctx) fun _ _ => True) :
    (onRowRead host retry missing found future).Safe zero At Bound (.held ctx) fun _ _ => True := by
  apply safe_orRetry restart
  split
  · exact givesUp
  · exact goesOn _

end Calls

/-! ## NewOrder -/

namespace NewOrder
variable (P : Platform)

/-- Where a callback of an order with `olCnt` lines may run: a stock row is awaited only
for a line the order has. -/
def Fit (olCnt : UInt8) : NewOrderCallback → NewOrderCtx → Prop
  | .onStockRead, ctx => ctx.olCnt = olCnt ∧ ctx.currentOl < olCnt
  | _, ctx => ctx.olCnt = olCnt

/-- The lines of an order, which the arrays have room for. -/
def Bound (olCnt : UInt8) (bound : Nat) : Prop := bound = olCnt.toNat ∧ bound ≤ maxOrderLines

section Bodies
variable {P} {olCnt : UInt8} (fits : olCnt.toNat ≤ maxOrderLines) {ctx : NewOrderCtx}
include fits

private theorem safe_olIndex {own : Own NewOrderCtx} {post : Unit → Own NewOrderCtx → Prop}
    (same : ctx.olCnt = olCnt) (inside : i < olCnt.toNat) (after : post () own) :
    (olIndex ctx i).Safe {} (Fit olCnt) (Bound olCnt) own post := by
  rw [olIndex, safe_index, same]
  exact ⟨⟨inside, rfl, fits⟩, after⟩

private theorem safe_writeOrder (same : ctx.olCnt = olCnt) :
    (writeOrder P ctx).Safe {} (Fit olCnt) (Bound olCnt) (.held ctx) fun _ _ => True := by
  have lines : ∀ set : Nat → NewOrderProg Unit,
      (∀ i, (set i).Safe {} (Fit olCnt) (Bound olCnt) (.held ctx) fun _ own => own = .held ctx) →
      ∀ i < ctx.olCnt.toNat, (do olIndex ctx i; set i : NewOrderProg Unit).Safe {} (Fit olCnt)
        (Bound olCnt) (.held ctx) fun _ own => own = .held ctx := by
    intro set keeps i inside
    rw [safe_bind]
    exact safe_olIndex fits same (same ▸ inside) (keeps i)
  simp only [writeOrder, safe_bind, safe_time, safe_fdbSyncSet]
  intro now
  refine safe_forRange (lines _ fun i => by simp) ?_
  simp only [safe_fdbSyncSet]
  refine safe_forRange (lines _ fun i => by simp) ?_
  simpa [Fit] using same

private theorem safe_startStockReads (same : ctx.olCnt = olCnt) :
    (startStockReads P).Safe {} (Fit olCnt) (Bound olCnt) (.held ctx) fun _ _ => True := by
  simp only [startStockReads, safe_bind, safe_load, Own.held_memory, Memory.live.injEq, exists_eq_left']
  split
  · exact safe_writeOrder fits same
  · rename_i remaining
    have below : ctx.currentOl < olCnt := by
      rw [← same]
      exact UInt8.not_le.mp remaining
    rw [safe_bind]
    apply safe_olIndex fits same (UInt8.lt_iff_toNat_lt.mp below)
    simp [Fit, same, below]

end Bodies

/-- An order keeps the discipline of the context: no callback touches it after it is freed, and
the indices of the lines stay below their number. -/
theorem disciplined (request : NewOrderRequest) :
    (newOrderChain P).Disciplined request (Fit request.val.olCnt) (Bound request.val.olCnt) where
  entry := by
    apply safe_openRequest
    simp only [filled, safe_bind, safe_store, safe_load]
    refine ⟨_, rfl, _, rfl, safe_forRange (fun i inside => ?_) ?_⟩
    · exact safe_olIndex request.property rfl inside rfl
    · exact ⟨request.val.ctx, rfl, by simp [Fit, NewOrderParams.ctx]⟩
  body callback future ctx fit := by
    have fits := request.property
    cases callback with
    | onDistrictRead =>
      refine safe_onRowRead fit (by simp [finishNewOrder]) fun dv => ?_
      simpa [onDistrict, Fit, withDistrict] using fit
    | onCustomerRead =>
      refine safe_onRowRead fit (by simp [finishNewOrder]) fun cv => ?_
      simp only [onCustomer, safe_bind, safe_store, Own.held_memory, Memory.live.injEq, exists_eq_left']
      exact safe_startStockReads fits fit
    | onStockRead =>
      obtain ⟨same, below⟩ := fit
      refine safe_onRowRead same (by simp [finishNewOrder]) fun sv => ?_
      simp only [onStock, safe_bind, safe_load, Own.held_memory, Memory.live.injEq, exists_eq_left']
      apply safe_olIndex fits same (UInt8.lt_iff_toNat_lt.mp below)
      simp only [safe_store, Own.held_memory, Memory.live.injEq, exists_eq_left']
      exact safe_startStockReads fits same
    | onCommit => exact safe_orRetry fit (by simp)
    | onErrorRetry =>
      change (onErrorRetry future).Safe _ _ _ _ _
      unfold onErrorRetry
      split
      · simp [finishNewOrder]
      · simpa [Fit] using fit

end NewOrder

/-! ## Payment -/

theorem Payment.disciplined (P : Platform) (params : PaymentParams) :
    (paymentChain P).Disciplined params (fun _ _ => True) fun _ => False where
  entry := by
    apply safe_openRequest
    simp [filled]
  body callback future ctx _ := by
    cases callback with
    | onWarehouseRead =>
      exact safe_onRowRead trivial (by simp [finishPayment]) fun wv => by simp [onWarehouse]
    | onDistrictRead =>
      exact safe_onRowRead trivial (by simp [finishPayment]) fun dv => by simp [onDistrict]
    | onCustomerRead =>
      exact safe_onRowRead trivial (by simp [finishPayment]) fun cv => by simp [onCustomer, writePayment]
    | onCommit => exact safe_orRetry trivial (by simp)
    | onErrorRetry =>
      change (onErrorRetry future).Safe _ _ _ _ _
      unfold onErrorRetry
      split <;> simp [finishPayment]

/-! ## OrderStatus, Delivery, StockLevel and /db -/

section Reads
variable (P : Platform)

theorem OrderStatus.disciplined (seed : UInt32) :
    (orderStatusChain P).Disciplined seed (fun _ _ => True) fun _ => False where
  entry := by
    apply safe_openRequest
    simp [filled]
  body callback future ctx _ := by
    cases callback
    simp [orderStatusChain, osOnCommit]

theorem Delivery.disciplined (seed : UInt32) :
    (deliveryChain P).Disciplined seed (fun _ _ => True) fun _ => False where
  entry := by
    apply safe_openRequest
    simp [filled]
  body callback future ctx _ := by
    cases callback
    simp [deliveryChain, dlOnCommit]

theorem StockLevel.disciplined (seed : UInt32) :
    (stockLevelChain P).Disciplined seed (fun _ _ => True) fun _ => False where
  entry := by
    apply safe_openRequest
    simp [filled]
  body callback future ctx _ := by
    cases callback
    change (slOnRangeRead P future).Safe _ _ _ _ _
    unfold slOnRangeRead
    split <;> simp

theorem SingleQuery.disciplined :
    (dbChain P).Disciplined () (fun _ _ => True) fun _ => False where
  entry := by
    apply safe_openRequest
    simp [filled]
  body callback future ctx _ := by
    cases callback
    change (onSingleQueryResult P future).Safe _ _ _ _ _
    unfold onSingleQueryResult
    split
    · simp
    · split <;> simp

end Reads

/-! ## /updates -/

namespace Update
variable (P : Platform)

/-- Where a callback of a request for `n` rows may run: a row is awaited only if it is one
of them. -/
def Fit (n : Nat) : UpdateCallback → UpdateCtx → Prop
  | .updateOnRead, ctx => ctx.numQuery = n ∧ ctx.numResult < n
  | .updateOnCommit, ctx => ctx.numQuery = n ∧ ctx.numResult ≤ n

private theorem safe_updateDoWrites {ctx : UpdateCtx} (same : ctx.numQuery = n)
    (inside : ctx.numResult ≤ n) :
    (updateDoWrites P).Safe {} (Fit n) (· = n) (.held ctx) fun _ _ => True := by
  simp only [updateDoWrites, safe_bind, safe_store, safe_load, Own.held_memory, Memory.live.injEq,
    exists_eq_left']
  refine safe_forRange (fun i below => ?_) ?_
  · simp only [safe_bind, safe_index]
    exact ⟨⟨by omega, same⟩, by simp⟩
  · simp [Fit, same, inside]

/-- After the row read, the next one or the writes. -/
private theorem safe_updateOnRead {ctx : UpdateCtx} (future : Future Bytes Bytes)
    (same : ctx.numQuery = n)
    (inside : ctx.numResult < n) :
    (updateOnRead P future).Safe {} (Fit n) (· = n) (.held ctx) fun _ _ => True := by
  unfold updateOnRead
  split
  · simp
  · simp only [safe_bind, safe_draw, safe_load, safe_index, safe_store, Own.held_memory,
      Memory.live.injEq, exists_eq_left']
    refine fun seed => ⟨⟨by omega, same⟩, ?_⟩
    obtain ⟨queries, results, _⟩ :=
      withRow_frame P ctx { seed } (worldNumber P.host future.getValue).isSome
    generalize (withRow P (worldNumber P.host future.getValue).isSome ctx).value { seed } = after
      at queries results
    by_cases more : after.numResult < after.numQuery
    · simp only [Own.held_transaction, Own.held_sent, Own.mk_held, if_pos more, safe_bind, safe_index,
        safe_fdbAsyncGet]
      exact ⟨⟨more, by omega⟩, ⟨by omega, by omega⟩, trivial, trivial⟩
    · rw [if_neg more]
      exact safe_updateDoWrites P (by omega) (by omega)

private theorem safe_updateOnCommit {ctx : UpdateCtx} (future : Future Bytes Bytes)
    (same : ctx.numQuery = n)
    (inside : ctx.numResult ≤ n) :
    (updateOnCommit future).Safe {} (Fit n) (· = n) (.held ctx) fun _ _ => True := by
  simp only [updateOnCommit, safe_bind, safe_load, Own.held_memory, Memory.live.injEq, exists_eq_left']
  refine safe_forRange (fun i below => ?_) (by simp)
  simp only [safe_index]
  exact ⟨⟨by omega, same⟩, trivial⟩

/-- The indices of `/updates` stay below the number of rows asked for. -/
theorem disciplined (parameter : Option Int32) :
    (updatesChain P).Disciplined parameter (Fit (getQueryNumber parameter))
      (· = getQueryNumber parameter) where
  entry := by
    apply safe_openRequest
    have positive := getQueryNumber_pos parameter
    generalize getQueryNumber parameter = n at positive
    simp only [filled, safe_bind, safe_draw, safe_store]
    refine fun seed => ⟨_, rfl, safe_forRange (fun i inside => ?_) ⟨_, rfl, ?_⟩⟩
    · simpa using inside
    · simp [Fit, updatesChain, positive]
  body callback future ctx fit := by
    cases callback with
    | updateOnRead => exact safe_updateOnRead P future fit.1 fit.2
    | updateOnCommit => exact safe_updateOnCommit future fit.1 fit.2

end Update

/-! ## Every request -/

/-- One request, one answer, and nothing is used after it was released, in every state
that a request of any of the seven kinds can get into. The lines of an order are reached
below `ol_cnt`, which the arrays have room for, and the rows of an update below
`num_query`; the others have no arrays. -/
theorem one_answer_per_request (P : Platform) :
    (∀ request state, Request.Reachable (newOrderChain P) request state →
      state.WellBehaved fun bound => bound = request.val.olCnt.toNat ∧ bound ≤ maxOrderLines) ∧
    (∀ params state, Request.Reachable (paymentChain P) params state →
      state.WellBehaved fun _ => False) ∧
    (∀ seed state, Request.Reachable (orderStatusChain P) seed state →
      state.WellBehaved fun _ => False) ∧
    (∀ seed state, Request.Reachable (deliveryChain P) seed state →
      state.WellBehaved fun _ => False) ∧
    (∀ seed state, Request.Reachable (stockLevelChain P) seed state →
      state.WellBehaved fun _ => False) ∧
    (∀ state, Request.Reachable (dbChain P) () state → state.WellBehaved fun _ => False) ∧
    (∀ parameter state, Request.Reachable (updatesChain P) parameter state →
      state.WellBehaved fun bound => bound = getQueryNumber parameter) :=
  ⟨fun request _ reachable => (NewOrder.disciplined P request).wellBehaved reachable,
    fun params _ reachable => (Payment.disciplined P params).wellBehaved reachable,
    fun seed _ reachable => (OrderStatus.disciplined P seed).wellBehaved reachable,
    fun seed _ reachable => (Delivery.disciplined P seed).wellBehaved reachable,
    fun seed _ reachable => (StockLevel.disciplined P seed).wellBehaved reachable,
    fun _ reachable => (SingleQuery.disciplined P).wellBehaved reachable,
    fun parameter _ reachable => (Update.disciplined P parameter).wellBehaved reachable⟩

/-- How many answers were sent, transactions destroyed and contexts freed. -/
def Request.tally (request : Request σ κ K V ρ) : Nat × Nat × Nat :=
  (request.sent.length, request.destroyed, request.freed)

/-- Each callback runs to its end before the next future becomes ready. -/
def served (futures : List (Future Bytes Bytes)) : List (Request.Move Bytes Bytes) :=
  List.replicate 20 (.run 0 {}) ++
    (futures.zipIdx 1).flatMap fun (future, i) => .fire 0 future :: List.replicate 20 (.run i {})

private theorem reachable_served (chain : Chain S σ κ Bytes Bytes ρ) (parameters : S)
    (futures : List (Future Bytes Bytes))
    (played : (Request.play chain { frames := [chain.entry parameters] } (served futures)).map
      Request.tally = some (1, 1, 1)) :
    ∃ state, Request.Reachable chain parameters state ∧ state.tally = (1, 1, 1) := by
  obtain ⟨state, played, counted⟩ := Option.map_eq_some_iff.mp played
  exact ⟨state, .play .refl _ played, counted⟩

/-- Requests of each kind run to their end: an order and a payment that fail, are retried
and then do not find their row, the two that only commit, and the three that read. -/
theorem one_answer_per_request_served :
    (∃ state, Request.Reachable (newOrderChain plainPlatform) (smallOrder 1 (by decide)) state ∧
      state.tally = (1, 1, 1) ∧ state.WellBehaved fun bound => bound = 1 ∧ bound ≤ maxOrderLines) ∧
    (∃ state, Request.Reachable (paymentChain plainPlatform) (smallPayment 1) state ∧
      state.tally = (1, 1, 1) ∧ state.WellBehaved fun _ => False) ∧
    (∃ state, Request.Reachable (orderStatusChain plainPlatform) 7 state ∧
      state.tally = (1, 1, 1) ∧ state.WellBehaved fun _ => False) ∧
    (∃ state, Request.Reachable (deliveryChain plainPlatform) 7 state ∧
      state.tally = (1, 1, 1) ∧ state.WellBehaved fun _ => False) ∧
    (∃ state, Request.Reachable (stockLevelChain plainPlatform) 7 state ∧
      state.tally = (1, 1, 1) ∧ state.WellBehaved fun _ => False) ∧
    (∃ state, Request.Reachable (dbChain plainPlatform) () state ∧
      state.tally = (1, 1, 1) ∧ state.WellBehaved fun _ => False) ∧
    (∃ state, Request.Reachable (updatesChain plainPlatform) (some 1) state ∧
      state.tally = (1, 1, 1) ∧ state.WellBehaved fun bound => bound = 1) := by
  obtain ⟨order, payment, orderStatus, delivery, stockLevel, db, updates⟩ :=
    one_answer_per_request plainPlatform
  refine ⟨?_, ?_, ?_, ?_, ?_, ?_, ?_⟩
  · obtain ⟨state, reached, answered⟩ := reachable_served (newOrderChain plainPlatform)
      (smallOrder 1 (by decide)) [.error 1020, .done, .value none] (by decide +kernel)
    exact ⟨state, reached, answered, order _ state reached⟩
  · obtain ⟨state, reached, answered⟩ := reachable_served (paymentChain plainPlatform)
      (smallPayment 1) [.error 1020, .done, .value none] (by decide +kernel)
    exact ⟨state, reached, answered, payment _ state reached⟩
  · obtain ⟨state, reached, answered⟩ := reachable_served (orderStatusChain plainPlatform)
      7 [.error 1020] (by decide +kernel)
    exact ⟨state, reached, answered, orderStatus 7 state reached⟩
  · obtain ⟨state, reached, answered⟩ := reachable_served (deliveryChain plainPlatform)
      7 [.done] (by decide +kernel)
    exact ⟨state, reached, answered, delivery 7 state reached⟩
  · obtain ⟨state, reached, answered⟩ := reachable_served (stockLevelChain plainPlatform)
      7 [.rows [] false] (by decide +kernel)
    exact ⟨state, reached, answered, stockLevel 7 state reached⟩
  · obtain ⟨state, reached, answered⟩ := reachable_served (dbChain plainPlatform)
      () [.value (some [0, 0, 0, 7])] (by decide +kernel)
    exact ⟨state, reached, answered, db state reached⟩
  · obtain ⟨state, reached, answered⟩ := reachable_served (updatesChain plainPlatform)
      (some 1) [.value none, .done] (by decide +kernel)
    exact ⟨state, reached, answered, updates _ state reached⟩

end H2oTpcc

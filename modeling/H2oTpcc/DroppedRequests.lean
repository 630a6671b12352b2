import H2oTpcc.Lifecycle
import H2oTpcc.Quiescence

/-! No handler looks at what the adapter returns, so a submission that fails, at any step
and on any retry, leaves the client without an answer and the transaction and the context
allocated. Without such a failure every request comes to its end. -/
namespace H2oTpcc
open Stmt

/-! ## The calls of the adapter -/

section Calls
variable {σ κ ρ : Type} {zero : σ} {own : Own σ} {ctx : σ} {post : Unit → Own σ → Prop}

@[simp] theorem concludes_fdbAsyncGet (key : Bytes) (callback : κ) :
    (fdbAsyncGet key callback : Prog σ κ Bytes Bytes ρ Unit).Concludes zero own post :=
  fun _ _ => rfl

@[simp] theorem concludes_fdbAsyncGetRange (first last : Bytes) (callback : κ) :
    (fdbAsyncGetRange first last callback : Prog σ κ Bytes Bytes ρ Unit).Concludes zero own post :=
  fun _ _ => rfl

@[simp] theorem concludes_fdbAsyncCommit (callback : κ) :
    (fdbAsyncCommit callback : Prog σ κ Bytes Bytes ρ Unit).Concludes zero own post :=
  fun _ _ => rfl

@[simp] theorem concludes_fdbHandleError (code : Nat) (callback : κ) :
    (fdbHandleError code callback : Prog σ κ Bytes Bytes ρ Unit).Concludes zero own post :=
  fun _ _ => rfl

@[simp] theorem concludes_fdbSyncSet (key value : Bytes) :
    (fdbSyncSet key value : Prog σ κ Bytes Bytes ρ Unit).Concludes zero (.held ctx) post ↔
      post () (.held ctx) := by
  simp [fdbSyncSet]

@[simp] theorem concludes_fdbSyncSet_bind (key value : Bytes) (rest : Unit → Prog σ κ Bytes Bytes ρ Unit) :
    (fdbSyncSet key value >>= rest).Concludes zero (.held ctx) post ↔
      (rest ()).Concludes zero (.held ctx) post := by
  change (∀ found, Memory.live ctx = .live found → (rest ()).Concludes zero (.held ctx) post) ↔ _
  simp

private theorem closed_gone : (Own.gone : Own σ).Closed := ⟨rfl, by simp, by simp⟩

@[simp] theorem concludes_finish (response : Response) :
    (finish response : Prog σ κ Bytes Bytes Response Unit).Concludes zero (.held ctx)
      fun _ own => own.Closed := by
  simp [finish, closed_gone]

/-- An entry point that gets no context or no transaction answers by itself. -/
theorem concludes_openRequest {outOfMemory failed : String}
    {fill submitFirst : Prog σ κ Bytes Bytes Response Unit}
    (fills : fill.Concludes zero (filled zero) fun _ own => ∃ ctx, own = filled ctx)
    (submits : ∀ ctx, submitFirst.Concludes zero (.held ctx) fun _ own => own.Closed) :
    (openRequest outOfMemory failed fill submitFirst).Concludes zero {} fun _ own => own.Closed := by
  have refused : Own.Closed (Own.mk .absent .absent true : Own σ) := ⟨rfl, by simp, by simp⟩
  have released : Own.Closed (Own.mk .freed .absent true : Own σ) := ⟨rfl, by simp, by simp⟩
  refine ⟨?_, refused⟩
  change (fill >>= _).Concludes zero (filled zero) _
  refine .bind (fills.mono fun _ own found => ?_)
  obtain ⟨ctx, rfl⟩ := found
  exact ⟨submits ctx, released⟩

private theorem concludes_orRetry {retry : κ} {future : Future Bytes Bytes}
    {rest : Prog σ κ Bytes Bytes ρ Unit}
    (goesOn : rest.Concludes zero own post) : (orRetry retry future rest).Concludes zero own post := by
  unfold orRetry
  split
  · simp
  · exact goesOn

private theorem concludes_onRowRead [PackedRow ν] {host : Endian} {retry : κ}
    {missing : Prog σ κ Bytes Bytes ρ Unit} {found : ν → Prog σ κ Bytes Bytes ρ Unit}
    {future : Future Bytes Bytes} (givesUp : missing.Concludes zero own post)
    (goesOn : ∀ row, (found row).Concludes zero own post) :
    (onRowRead host retry missing found future).Concludes zero own post := by
  apply concludes_orRetry
  split
  · exact givesUp
  · exact goesOn _

end Calls

/-! ## The chains -/

namespace NewOrder
variable {P : Platform} {zero ctx : NewOrderCtx} {post : Unit → Own NewOrderCtx → Prop}

private theorem concludes_writeOrder : (writeOrder P ctx).Concludes zero (.held ctx) post := by
  simp only [writeOrder, concludes_time_bind, concludes_fdbSyncSet_bind]
  intro now
  refine .bind (concludes_forRange (fun i => by simp [olIndex]) ?_)
  rw [concludes_fdbSyncSet_bind]
  exact .bind (concludes_forRange (fun i => by simp [olIndex]) (by simp))

private theorem concludes_startStockReads : (startStockReads P).Concludes zero (.held ctx) post := by
  simp only [startStockReads, concludes_load_bind, Own.held_memory, Memory.live.injEq, forall_eq']
  split
  · exact concludes_writeOrder
  · simp [olIndex]

/-- Every callback of an order submits its next operation or answers; the lines of the order
bound how often it reads. -/
theorem concluding (P : Platform) (request : NewOrderRequest) :
    (newOrderChain P).Concluding request (Fit request.val.olCnt) where
  entry := by
    refine concludes_openRequest ?_ (by simp)
    simp only [filled, concludes_store_bind, concludes_load_bind]
    intro _ _ ctx _
    exact concludes_forRange (fun i => by simp [olIndex]) ⟨_, rfl⟩
  body callback future ctx _ := by
    cases callback with
    | onDistrictRead =>
      exact concludes_onRowRead (by simp [finishNewOrder]) fun dv => by simp [onDistrict]
    | onCustomerRead =>
      refine concludes_onRowRead (by simp [finishNewOrder]) fun cv => ?_
      simpa [onCustomer] using concludes_startStockReads
    | onStockRead =>
      refine concludes_onRowRead (by simp [finishNewOrder]) fun sv => ?_
      simpa [onStock, olIndex] using concludes_startStockReads
    | onCommit => exact concludes_orRetry (by simp)
    | onErrorRetry =>
      change (onErrorRetry future).Concludes _ _ _
      unfold onErrorRetry
      split <;> simp [finishNewOrder]

end NewOrder

/-- Every callback of a payment submits its next operation or answers. -/
theorem Payment.concluding (P : Platform) (params : PaymentParams) :
    (paymentChain P).Concluding params fun _ _ => True where
  entry := concludes_openRequest (by simp [filled]) (by simp)
  body callback future ctx _ := by
    cases callback with
    | onWarehouseRead =>
      exact concludes_onRowRead (by simp [finishPayment]) fun wv => by simp [onWarehouse]
    | onDistrictRead =>
      exact concludes_onRowRead (by simp [finishPayment]) fun dv => by simp [onDistrict]
    | onCustomerRead =>
      exact concludes_onRowRead (by simp [finishPayment]) fun cv => by simp [onCustomer, writePayment]
    | onCommit => exact concludes_orRetry (by simp)
    | onErrorRetry =>
      change (onErrorRetry future).Concludes _ _ _
      unfold onErrorRetry
      split <;> simp [finishPayment]

/-- Every callback of Stock-Level submits its next operation or answers. -/
theorem StockLevel.concluding (P : Platform) (seed : UInt32) :
    (stockLevelChain P).Concluding seed fun _ _ => True where
  entry := concludes_openRequest (by simp [filled]) (by simp)
  body callback future ctx _ := by
    cases callback
    change (slOnRangeRead P future).Concludes _ _ _
    unfold slOnRangeRead
    split <;> simp

/-- The callback of `/db` answers. -/
theorem SingleQuery.concluding (P : Platform) : (dbChain P).Concluding () fun _ _ => True where
  entry := concludes_openRequest (by simp [filled]) (by simp)
  body callback future ctx _ := by
    cases callback
    change (onSingleQueryResult P future).Concludes _ _ _
    unfold onSingleQueryResult
    split
    · simp
    · split <;> simp

namespace Update
variable {P : Platform} {zero ctx : UpdateCtx}

private theorem concludes_updateDoWrites {post : Unit → Own UpdateCtx → Prop} :
    (updateDoWrites P).Concludes zero (.held ctx) post := by
  simp only [updateDoWrites, concludes_store_bind, concludes_load_bind, Own.held_memory,
    Memory.live.injEq, forall_eq', Own.held_transaction, Own.held_sent, Own.mk_held]
  exact .bind (concludes_forRange (fun i => by simp) (by simp))

/-- Every callback of `/updates` submits its next operation or answers; the rows asked for bound
how often it reads. -/
theorem concluding (P : Platform) (parameter : Option Int32) :
    (updatesChain P).Concluding parameter (Fit (getQueryNumber parameter)) where
  entry := by
    refine concludes_openRequest ?_ (by simp)
    generalize getQueryNumber parameter = n
    simp only [filled, concludes_draw_bind, concludes_store_bind]
    intro seed ctx _
    exact concludes_forRange (fun i => by simp) ⟨_, rfl⟩
  body callback future ctx _ := by
    cases callback with
    | updateOnRead =>
      change (updateOnRead P future).Concludes _ _ _
      unfold updateOnRead
      split
      · simp
      · simp only [concludes_draw_bind, concludes_load_bind, concludes_index_bind, concludes_store_bind,
          Own.held_memory, Memory.live.injEq, forall_eq', Own.held_transaction, Own.held_sent, Own.mk_held]
        intro seed
        split
        · simp
        · exact concludes_updateDoWrites
    | updateOnCommit =>
      change (updateOnCommit future).Concludes _ _ _
      simp only [updateOnCommit, concludes_load_bind, Own.held_memory, Memory.live.injEq, forall_eq']
      exact .bind (concludes_forRange (fun i => by simp) (by simp))

end Update

/-! ## Every request -/

/-- When all its callbacks have returned and nothing is outstanding, a request has its
answer and has released everything exactly if every `fdb_async_get`,
`fdb_async_get_range`, `fdb_async_commit` and `fdb_handle_error` on the way succeeded. -/
theorem request_settled_iff (P : Platform) :
    (∀ request, (newOrderChain P).SettlesUnlessRefused request) ∧
    (∀ params, (paymentChain P).SettlesUnlessRefused params) ∧
    (∀ seed, (stockLevelChain P).SettlesUnlessRefused seed) ∧
    (dbChain P).SettlesUnlessRefused () ∧
    (∀ parameter, (updatesChain P).SettlesUnlessRefused parameter) :=
  ⟨fun request => (NewOrder.disciplined P request).settles (NewOrder.concluding P request),
    fun params => (Payment.disciplined P params).settles (Payment.concluding P params),
    fun seed => (StockLevel.disciplined P seed).settles (StockLevel.concluding P seed),
    (SingleQuery.disciplined P).settles (SingleQuery.concluding P),
    fun parameter => (Update.disciplined P parameter).settles (Update.concluding P parameter)⟩

/-- What a run of a request comes to, as far as it can be decided. -/
theorem exists_played {chain : Chain S σ κ Bytes Bytes ρ} {request : Request σ κ Bytes Bytes ρ}
    {moves : List (Request.Move Bytes Bytes)} {Outcome : Request σ κ Bytes Bytes ρ → Prop}
    [DecidablePred Outcome]
    (played : (Request.play chain request moves).map (fun state => decide (Outcome state)) = some true) :
    ∃ state, Request.play chain request moves = some state ∧ Outcome state := by
  obtain ⟨state, played, outcome⟩ := Option.map_eq_some_iff.mp played
  exact ⟨state, played, of_decide_eq_true outcome⟩

/-- The first read of a payment cannot be submitted: the handler returns, nothing will
ever happen again, and nothing was sent, destroyed or freed. -/
theorem payment_dropped :
    ∃ state, Request.play (paymentChain plainPlatform)
        { frames := [(paymentChain plainPlatform).entry (smallPayment 1)] }
        (List.replicate 20 (.run 0 { accept := false })) = some state ∧
      (state.AtRest ∧ state.tally = (0, 0, 0) ∧ state.transaction = .live) ∧ ¬ state.Settled := by
  have outcome : ∃ state, Request.play (paymentChain plainPlatform)
        { frames := [(paymentChain plainPlatform).entry (smallPayment 1)] }
        (List.replicate 20 (.run 0 { accept := false })) = some state ∧
      (state.AtRest ∧ state.tally = (0, 0, 0) ∧ state.transaction = .live) :=
    exists_played (by decide +kernel)
  obtain ⟨state, played, rest, counted, live⟩ := outcome
  exact ⟨state, played, ⟨rest, counted, live⟩, fun settled => settled.destroyed live⟩

private theorem settled_of_played {chain : Chain S σ κ Bytes Bytes ρ} {parameters : S}
    (settles : chain.SettlesUnlessRefused parameters) {moves : List (Request.Move Bytes Bytes)}
    (rests : (Request.play chain { frames := [chain.entry parameters] } moves).map
      (fun state => decide state.AtRest) = some true)
    (accepted : Request.refused chain { frames := [chain.entry parameters] } moves = false) :
    ∃ state, Request.play chain { frames := [chain.entry parameters] } moves = some state ∧
      state.AtRest ∧ state.Settled := by
  obtain ⟨state, played, rest⟩ := exists_played rests
  exact ⟨state, played, rest, (settles moves state played rest).mpr accepted⟩

/-- A request of each kind that is served to its end: all submissions are accepted, and it is
answered and released. -/
theorem request_settled_iff_served :
    (∃ state, Request.play (newOrderChain plainPlatform)
        { frames := [(newOrderChain plainPlatform).entry (smallOrder 1 (by decide))] }
        (served [.error 1020, .done, .value none]) = some state ∧ state.AtRest ∧ state.Settled) ∧
    (∃ state, Request.play (paymentChain plainPlatform)
        { frames := [(paymentChain plainPlatform).entry (smallPayment 1)] }
        (served [.error 1020, .done, .value none]) = some state ∧ state.AtRest ∧ state.Settled) ∧
    (∃ state, Request.play (stockLevelChain plainPlatform)
        { frames := [(stockLevelChain plainPlatform).entry 7] }
        (served [.rows [] false]) = some state ∧ state.AtRest ∧ state.Settled) ∧
    (∃ state, Request.play (dbChain plainPlatform) { frames := [(dbChain plainPlatform).entry ()] }
        (served [.value (some [0, 0, 0, 7])]) = some state ∧ state.AtRest ∧ state.Settled) ∧
    (∃ state, Request.play (updatesChain plainPlatform)
        { frames := [(updatesChain plainPlatform).entry (some 1)] }
        (served [.value none, .done]) = some state ∧ state.AtRest ∧ state.Settled) := by
  obtain ⟨order, payment, stockLevel, db, updates⟩ := request_settled_iff plainPlatform
  exact ⟨settled_of_played (order _) (by decide +kernel) (by decide +kernel),
    settled_of_played (payment _) (by decide +kernel) (by decide +kernel),
    settled_of_played (stockLevel _) (by decide +kernel) (by decide +kernel),
    settled_of_played db (by decide +kernel) (by decide +kernel),
    settled_of_played (updates _) (by decide +kernel) (by decide +kernel)⟩

end H2oTpcc

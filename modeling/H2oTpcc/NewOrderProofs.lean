import H2oTpcc.NewOrder
import H2oTpcc.QuietRuns
import H2oTpcc.RowReads
import H2oTpcc.Tables

/-! What the NewOrder chain knows at each of its callbacks. By the time it asks for
the commit, everything it sets is computed from rows read in the same attempt, so
a committed order is one atomic transaction on the store just before it. -/
namespace H2oTpcc.NewOrder
variable (P : Platform)

/-- The rows an order sets, in the order of `start_stock_reads`. -/
def rows (ctx : NewOrderCtx) (now : Int64) : List (Key × Bytes) :=
  [(.oorder ctx.wId ctx.dId ctx.dNextOId.toUInt32, encode P.host (oorderVal ctx now)),
    (.newOrder ctx.wId ctx.dId ctx.dNextOId.toUInt32, [0])] ++
  (List.range ctx.olCnt.toNat).map (fun i =>
    (.orderLine ctx.wId ctx.dId ctx.dNextOId.toUInt32 (UInt32.ofNat (i + 1)),
      encode P.host (orderLineVal ctx i))) ++
  [(.nextOId ctx.wId ctx.dId, kvEncodeNextOId (ctx.dNextOId + 1))] ++
  (List.range ctx.olCnt.toNat).map (fun i =>
    (.stock (ctx.olSupplyW i).toUInt32 (ctx.olIId i), encode P.host (stockVal ctx i)))

/-- The context was filled from these tables, up to `count` order lines. -/
structure ReadFrom (ctx : NewOrderCtx) (count : Nat) (tables : Key → Option Bytes) : Prop where
  district : ∃ dv : DistrictVal,
    asRow P.host (tables (.district ctx.wId ctx.dId)) = some dv ∧ ctx.dNextOId = dv.dNextOId
  customer : ∃ cv : CustomerVal,
    asRow P.host (tables (.customer ctx.wId ctx.dId ctx.cId)) = some cv
  stock : ∀ i < count, ∃ sv : StockVal,
    asRow P.host (tables (.stock (ctx.olSupplyW i).toUInt32 (ctx.olIId i))) = some sv ∧
      ctx.sQuantity i = newQty sv.sQuantity (ctx.olQuantity i) ∧
      ctx.sAmount i = lineAmount (ctx.olQuantity i)

/-- A committed order: `writes` is what NewOrder does to these tables. -/
def Commits (ctx : NewOrderCtx) (tables : Key → Option Bytes) (writes : List (Bytes × Bytes)) : Prop :=
  ctx.olCnt.toNat ≤ maxOrderLines ∧ ReadFrom P ctx ctx.olCnt.toNat tables ∧
    ∃ now, writes = built P.host (rows P ctx now)

/-! ## Running the callbacks -/

section Run
variable (answers : Answers) (session : Session NewOrderCtx NewOrderCallback Bytes Bytes Response)

@[simp] theorem run_finishNewOrder (status : Nat) (body : String) :
    (finishNewOrder status body).run answers session = ((), { session with
      reply := some (if status = 200 then .inline body else .error status "Error" body) }) := by
  simp [finishNewOrder]

@[simp] theorem run_olIndex (ctx : NewOrderCtx) (i : Nat) :
    (olIndex ctx i).run answers session = ((), session) := by
  simp [olIndex]

/-- The last callback before the commit sets all rows of the order and submits the commit. -/
theorem run_writeOrder (ctx : NewOrderCtx) :
    (writeOrder P ctx).run answers session = ((), Session.submit answers .commit .onCommit
      { session with sets := session.sets ++ built P.host (rows P ctx answers.now) }) := by
  have lines (session : Session NewOrderCtx NewOrderCallback Bytes Bytes Response) :=
    Prog.run_forRange_sets answers session ctx.olCnt.toNat
      (fun i => do
        olIndex ctx i
        fdbSyncSet (kvOrderLineKey ctx.wId ctx.dId ctx.dNextOId.toUInt32 (UInt32.ofNat (i + 1)))
          (encode P.host (orderLineVal ctx i)))
      (fun i => (kvOrderLineKey ctx.wId ctx.dId ctx.dNextOId.toUInt32 (UInt32.ofNat (i + 1)),
          encode P.host (orderLineVal ctx i)))
      (fun i session => by simp)
  have stock (session : Session NewOrderCtx NewOrderCallback Bytes Bytes Response) :=
    Prog.run_forRange_sets answers session ctx.olCnt.toNat
      (fun i => do
        olIndex ctx i
        fdbSyncSet (kvStockKey (ctx.olSupplyW i).toUInt32 (ctx.olIId i)) (encode P.host (stockVal ctx i)))
      (fun i => (kvStockKey (ctx.olSupplyW i).toUInt32 (ctx.olIId i), encode P.host (stockVal ctx i)))
      (fun i session => by simp)
  simp only [writeOrder, Prog.run_bind, Prog.run_time, run_fdbSyncSet, lines, stock, run_fdbAsyncCommit,
    rows, built, List.map_append, List.map_map, List.map_cons, List.append_assoc, List.cons_append,
    List.nil_append]
  rfl

/-- After each stock row there is another line to read, or all have been and the order is
written. -/
theorem run_startStockReads :
    (startStockReads P).run answers session = ((),
      if session.ctx.currentOl ≥ session.ctx.olCnt then Session.submit answers .commit .onCommit
        { session with sets := session.sets ++ built P.host (rows P session.ctx answers.now) }
      else session.submit answers (.get (kvStockKey
        (session.ctx.olSupplyW session.ctx.currentOl.toNat).toUInt32
        (session.ctx.olIId session.ctx.currentOl.toNat))) .onStockRead) := by
  by_cases done : session.ctx.currentOl ≥ session.ctx.olCnt <;>
    simp [startStockReads, done, run_writeOrder]

/-- With the district row the order has its number, and goes on to the customer. -/
theorem run_onDistrict (dv : DistrictVal) :
    (onDistrict dv).run answers session = ((), Session.submit answers
      (.get (kvCustomerKey session.ctx.wId session.ctx.dId session.ctx.cId)) .onCustomerRead
      { session with ctx := withDistrict dv session.ctx }) := by
  simp [onDistrict, withDistrict]

/-- The customer row gives the discount, and the lines begin. -/
theorem run_onCustomer (cv : CustomerVal) :
    (onCustomer P cv).run answers session =
      (startStockReads P).run answers { session with ctx := withCustomer cv session.ctx } := by
  simp [onCustomer]

/-- A stock row gives the new quantity of one line and its price, and the next line follows. -/
theorem run_onStock (sv : StockVal) :
    (onStock P sv).run answers session =
      (startStockReads P).run answers { session with ctx := withStock sv session.ctx } := by
  simp [onStock]

/-- An acknowledged commit is answered with the number of the order. -/
theorem run_onCommit :
    (onCommit .done).run answers session = ((), { session with
      ctx := { session.ctx with committed := true }
      reply := some (.json (.map [("status", .str "ok"),
        ("o_id", .int session.ctx.dNextOId.toInt)])) }) := by
  simp [onCommit]

/-- A retried order starts again at its district and at its first line. -/
theorem run_onErrorRetry_done :
    (onErrorRetry .done).run answers session = ((), Session.submit answers
      (.get (kvDistrictKey session.ctx.wId session.ctx.dId)) .onDistrictRead
      { session with ctx := { session.ctx with currentOl := 0 } }) := by
  simp [onErrorRetry]

theorem run_onErrorRetry_error (nonzero : code ≠ 0) :
    (onErrorRetry (.error code)).run answers session = ((), { session with
      reply := some (.error 503 "Error" "transaction retry exhausted") }) := by
  simp [onErrorRetry, nonzero]

end Run

/-! ## What the chain knows -/

/-- What holds while the future that will run `callback` is outstanding. -/
def KnownAt : NewOrderCallback → Operation Bytes → NewOrderCtx → Attempt Bytes Bytes → Prop
  | .onDistrictRead, operation, ctx, attempt =>
    ctx.olCnt.toNat ≤ maxOrderLines ∧ attempt.writes = [] ∧
      operation = .get (kvDistrictKey ctx.wId ctx.dId)
  | .onCustomerRead, operation, ctx, attempt =>
    ctx.olCnt.toNat ≤ maxOrderLines ∧ attempt.writes = [] ∧
      operation = .get (kvCustomerKey ctx.wId ctx.dId ctx.cId) ∧
      Known attempt.reads fun view => ∃ dv : DistrictVal,
        asRow P.host (view (kvDistrictKey ctx.wId ctx.dId)) = some dv ∧ ctx.dNextOId = dv.dNextOId
  | .onStockRead, operation, ctx, attempt =>
    ctx.olCnt.toNat ≤ maxOrderLines ∧ attempt.writes = [] ∧
      operation = .get (kvStockKey (ctx.olSupplyW ctx.currentOl.toNat).toUInt32
        (ctx.olIId ctx.currentOl.toNat)) ∧
      ctx.currentOl.toNat < ctx.olCnt.toNat ∧
      Known attempt.reads fun view => ReadFrom P ctx ctx.currentOl.toNat (tablesOf P.host view)
  | .onCommit, operation, ctx, attempt =>
    ctx.olCnt.toNat ≤ maxOrderLines ∧ operation = .commit ∧
      (∃ now, attempt.writes = built P.host (rows P ctx now)) ∧
      Known attempt.reads fun view => ReadFrom P ctx ctx.olCnt.toNat (tablesOf P.host view)
  | .onErrorRetry, operation, ctx, _ =>
    ctx.olCnt.toNat ≤ maxOrderLines ∧ ∃ code, operation = .onError code

/-- Both sides of the loop over the stock rows: another read, or the sets. -/
theorem startStockReads_inv (attempt : Attempt Bytes Bytes) (answers : Answers)
    (session : Session NewOrderCtx NewOrderCallback Bytes Bytes Response)
    (idle : session.pending = none) (unset : session.sets = []) (clean : attempt.writes = [])
    (fits : session.ctx.olCnt.toNat ≤ maxOrderLines)
    (within : session.ctx.currentOl.toNat ≤ session.ctx.olCnt.toNat)
    (known : Known attempt.reads fun view =>
      ReadFrom P session.ctx session.ctx.currentOl.toNat (tablesOf P.host view)) :
    (startStockReads P).HandsOn (KnownAt P) answers attempt session := by
  have ran := run_startStockReads P answers session
  split at ran
  · rename_i done
    have last : session.ctx.currentOl.toNat = session.ctx.olCnt.toNat :=
      Nat.le_antisymm within (UInt8.le_iff_toNat_le.mp done)
    refine .of_submit ran idle ⟨fits, rfl, ⟨answers.now, ?_⟩, last ▸ known⟩
    simp [clean, unset]
  · rename_i more
    refine .of_submit ran idle ⟨fits, by simp [clean, unset], rfl, ?_, known⟩
    exact UInt8.lt_iff_toNat_lt.mp (UInt8.not_le.mp more)

/-- The current line's row was read: the context covers one line more. -/
theorem ReadFrom.withStock {ctx : NewOrderCtx} {tables : Key → Option Bytes} {sv : StockVal}
    (before : ReadFrom P ctx ctx.currentOl.toNat tables)
    (row : asRow P.host (tables (.stock (ctx.olSupplyW ctx.currentOl.toNat).toUInt32
      (ctx.olIId ctx.currentOl.toNat))) = some sv) :
    ReadFrom P (withStock sv ctx) (ctx.currentOl.toNat + 1) tables where
  district := before.district
  customer := before.customer
  stock := by
    intro i below
    by_cases this : i = ctx.currentOl.toNat
    · subst this
      exact ⟨sv, row, Function.update_self .., Function.update_self ..⟩
    · obtain ⟨sv', row', quantity, amount⟩ := before.stock i (by omega)
      exact ⟨sv', row', (Function.update_of_ne this ..).trans quantity,
        (Function.update_of_ne this ..).trans amount⟩

/-- The line counter is one byte wide; fifteen lines keep it far from its end. -/
theorem withStock_currentOl (sv : StockVal) (ctx : NewOrderCtx)
    (fits : ctx.olCnt.toNat ≤ maxOrderLines) (more : ctx.currentOl.toNat < ctx.olCnt.toNat) :
    (withStock sv ctx).currentOl.toNat = ctx.currentOl.toNat + 1 := by
  have one : (1 : UInt8).toNat = 1 := rfl
  have most : maxOrderLines = 15 := rfl
  simp only [withStock, UInt8.toNat_add]
  omega

section Callbacks
variable {attempt attempt' : Attempt Bytes Bytes} (answers : Answers)
  (session : Session NewOrderCtx NewOrderCallback Bytes Bytes Response)

/-- `on_district_read` hands on what the customer's callback relies on: the number is that of
the row read in this attempt. -/
theorem onDistrictRead_inv (idle : session.pending = none) (unset : session.sets = [])
    (holds : KnownAt P .onDistrictRead operation session.ctx attempt)
    (delivers : Delivers operation attempt attempt' future) :
    (onDistrictRead P future).HandsOn (KnownAt P) answers attempt' session := by
  obtain ⟨fits, clean, rfl⟩ := holds
  refine onRowRead_handsOn clean delivers idle (fun code _ => ⟨fits, code, rfl⟩)
    (.of_idle (run_finishNewOrder answers session ..) idle) fun dv clean' learns => ?_
  refine .of_submit (run_onDistrict answers session dv) idle ⟨fits, by simp [clean', unset], rfl, ?_⟩
  exact (learns (fun _ => True) (fun _ _ => trivial)).mono fun view seen => ⟨dv, seen.1, rfl⟩

/-- `on_customer_read` hands on to the first line, or straight to the commit when there is none. -/
theorem onCustomerRead_inv (idle : session.pending = none) (unset : session.sets = [])
    (holds : KnownAt P .onCustomerRead operation session.ctx attempt)
    (delivers : Delivers operation attempt attempt' future) :
    (onCustomerRead P future).HandsOn (KnownAt P) answers attempt' session := by
  obtain ⟨fits, clean, rfl, known⟩ := holds
  refine onRowRead_handsOn clean delivers idle (fun code _ => ⟨fits, code, rfl⟩)
    (.of_idle (run_finishNewOrder answers session ..) idle) fun cv clean' learns => ?_
  refine .of_run (run_onCustomer P answers session cv)
    (startStockReads_inv P attempt' answers _ idle unset clean' fits (Nat.zero_le _) ?_)
  refine (learns _ known).mono fun view seen => ⟨seen.2, ⟨cv, seen.1⟩, fun i below => ?_⟩
  exact absurd below (Nat.not_lt_zero i)

private theorem onStockRead_inv (idle : session.pending = none) (unset : session.sets = [])
    (holds : KnownAt P .onStockRead operation session.ctx attempt)
    (delivers : Delivers operation attempt attempt' future) :
    (onStockRead P future).HandsOn (KnownAt P) answers attempt' session := by
  obtain ⟨fits, clean, rfl, more, known⟩ := holds
  refine onRowRead_handsOn clean delivers idle (fun code _ => ⟨fits, code, rfl⟩)
    (.of_idle (run_finishNewOrder answers session ..) idle) fun sv clean' learns => ?_
  have counted := withStock_currentOl sv session.ctx fits more
  have within : (withStock sv session.ctx).currentOl.toNat ≤ session.ctx.olCnt.toNat := by omega
  refine .of_run (run_onStock P answers session sv)
    (startStockReads_inv P attempt' answers _ idle unset clean' fits within ?_)
  refine (learns _ known).mono fun view seen => ?_
  show ReadFrom P (withStock sv session.ctx) (withStock sv session.ctx).currentOl.toNat _
  rw [counted]
  exact seen.2.withStock P seen.1

theorem onCommit_inv (idle : session.pending = none)
    (holds : KnownAt P .onCommit operation session.ctx attempt)
    (delivers : Delivers operation attempt attempt' future) :
    (onCommit future).HandsOn (KnownAt P) answers attempt' session := by
  obtain ⟨fits, rfl, _, _⟩ := holds
  cases delivers with
  | committed => exact .of_idle (run_onCommit answers session) idle
  | failed nonzero =>
    exact .of_submit (run_orRetry_error answers session _ _ nonzero) idle ⟨fits, _, rfl⟩

/-- `on_error_retry` starts over with an empty attempt, so that nothing read before is relied
on. -/
theorem onErrorRetry_inv (idle : session.pending = none) (unset : session.sets = [])
    (holds : KnownAt P .onErrorRetry operation session.ctx attempt)
    (delivers : Delivers operation attempt attempt' future) :
    (onErrorRetry future).HandsOn (KnownAt P) answers attempt' session := by
  obtain ⟨fits, code, rfl⟩ := holds
  cases delivers with
  | reset =>
    refine .of_submit (run_onErrorRetry_done answers session) idle ⟨fits, ?_, rfl⟩
    simp [unset]
  | failed nonzero => exact .of_idle (run_onErrorRetry_error answers session nonzero) idle

end Callbacks

/-- How an order is opened: an answer for want of memory or of a transaction, or the read of its
district. -/
theorem run_start (request : NewOrderRequest) (answers : Answers) :
    (newOrderChain P).start request answers =
      if answers.alloc then
        let session : Session NewOrderCtx NewOrderCallback Bytes Bytes Response :=
          { ctx := request.val.ctx }
        if answers.create then session.submit answers
          (.get (kvDistrictKey request.val.wId request.val.dId)) .onDistrictRead
        else { session with reply := some (serviceUnavailable "fdb transaction creation failed") }
      else { ctx := {}, reply := some (serviceUnavailable "out of memory") } := by
  have lines (session : Session NewOrderCtx NewOrderCallback Bytes Bytes Response) :=
    Prog.run_forRange_skip answers session request.val.ctx.olCnt.toNat (olIndex request.val.ctx)
      (fun i session => run_olIndex answers session _ i)
  simp only [Chain.start, newOrderChain, start, run_openRequest, Prog.run_bind, Prog.run_store,
    Prog.run_load, lines, run_fdbAsyncGet]

/-- An order that is opened waits for its district. -/
theorem start_waits (request : NewOrderRequest) (now : Int64) :
    (newOrderChain P).start request { now } = {
      ctx := request.val.ctx
      pending := some (.get (kvDistrictKey request.val.wId request.val.dId), .onDistrictRead) } := by
  simp [run_start, Session.submit]

/-- Along every run an order knows at each callback what `KnownAt` says. -/
theorem localInvariant : LocalInvariant (newOrderChain P).client (SessionInv (KnownAt P)) := by
  apply Chain.localInvariant
  · intro request answers
    rw [run_start]
    split
    · split
      · exact .of_submit rfl ⟨request.2, rfl, rfl⟩
      · exact .of_idle rfl
    · exact .of_idle rfl
  · intro answers callback operation attempt attempt' future session holds delivers idle unset
    cases callback with
    | onDistrictRead => exact onDistrictRead_inv P answers session idle unset holds delivers
    | onCustomerRead => exact onCustomerRead_inv P answers session idle unset holds delivers
    | onStockRead => exact onStockRead_inv P answers session idle unset holds delivers
    | onCommit => exact onCommit_inv P answers session idle holds delivers
    | onErrorRetry => exact onErrorRetry_inv P answers session idle unset holds delivers

/-- A commit is always outstanding for `on_commit`: no other callback of an order is ever
registered for one. -/
theorem pending_commit {session : Session NewOrderCtx NewOrderCallback Bytes Bytes Response}
    {attempt : Attempt Bytes Bytes} (holds : SessionInv (KnownAt P) session attempt)
    (pending : (newOrderChain P).client.pending session = some .commit) :
    session.pending = some (.commit, .onCommit) := by
  change session.pending.map Prod.fst = _ at pending
  obtain ⟨⟨operation, callback⟩, waiting, rfl⟩ := Option.map_eq_some_iff.mp pending
  have here := holds .commit callback waiting
  cases callback with
  | onCommit => exact waiting
  | onDistrictRead => exact absurd here.2.2 (by simp)
  | onCustomerRead => exact absurd here.2.2.1 (by simp)
  | onStockRead => exact absurd here.2.2.1 (by simp)
  | onErrorRetry => obtain ⟨_, _, impossible⟩ := here; cases impossible

/-- A pending commit's buffer is what the order does to any tables that agree
with what the attempt has read. -/
theorem commit_meaning (session : Session NewOrderCtx NewOrderCallback Bytes Bytes Response)
    (attempt : Attempt Bytes Bytes) (holds : SessionInv (KnownAt P) session attempt)
    (pending : (newOrderChain P).client.pending session = some .commit) :
    Known attempt.reads fun view => Commits P session.ctx (tablesOf P.host view) attempt.writes := by
  obtain ⟨fits, _, now, known⟩ := holds .commit .onCommit (pending_commit P holds pending)
  exact known.mono fun view seen => ⟨fits, seen, now⟩

/-- What the client is told of an acknowledged order: that it went well, and under which number. -/
theorem resume_committed (answers : Answers)
    (session : Session NewOrderCtx NewOrderCallback Bytes Bytes Response)
    (waiting : session.pending = some (.commit, .onCommit)) :
    ((newOrderChain P).resume answers session .done).reply =
      some (.json (.map [("status", .str "ok"), ("o_id", .int session.ctx.dNextOId.toInt)])) := by
  simp only [Chain.resume, waiting]
  change ((onCommit .done).run answers _).2.reply = _
  rw [run_onCommit]

/-! ## An undisturbed order -/

section Quiet
variable {P} {answers : Answers} {view : Bytes → Option Bytes}

/-- The loop over the stock rows gets to the commit if every row is there. -/
theorem quiet_startStockReads (accepted : answers.accept = true)
    (session : Session NewOrderCtx NewOrderCallback Bytes Bytes Response)
    (idle : session.pending = none) (unset : session.sets = [])
    (fits : session.ctx.olCnt.toNat ≤ maxOrderLines)
    (within : session.ctx.currentOl.toNat ≤ session.ctx.olCnt.toNat)
    (stocked : ∀ i < session.ctx.olCnt.toNat, ∃ sv : StockVal, asRow P.host (view
      (kvStockKey (session.ctx.olSupplyW i).toUInt32 (session.ctx.olIId i))) = some sv) :
    ∃ session' sQuantity sAmount, (newOrderChain P).client.Quiet answers view
        ((startStockReads P).run answers session).2 ((startStockReads P).run answers session).2.sets
        session' (built P.host (rows P session'.ctx answers.now)) ∧
      session'.pending = some (.commit, .onCommit) ∧ session'.reply = session.reply ∧
      session'.ctx = { session.ctx with sQuantity, sAmount, currentOl := session.ctx.olCnt } := by
  generalize left : session.ctx.olCnt.toNat - session.ctx.currentOl.toNat = remaining
  induction remaining generalizing session with
  | zero =>
    have done : session.ctx.currentOl ≥ session.ctx.olCnt := UInt8.le_iff_toNat_le.mpr (by omega)
    have last : session.ctx.olCnt = session.ctx.currentOl := UInt8.toNat_inj.mp (by omega)
    have ran : ((startStockReads P).run answers session).2 = { session with
        pending := some (.commit, .onCommit)
        sets := built P.host (rows P session.ctx answers.now) } := by
      simp only [run_startStockReads, if_pos done, unset, List.nil_append, Session.submit, accepted,
        if_true]
    rw [ran]
    exact ⟨_, session.ctx.sQuantity, session.ctx.sAmount, .refl, rfl, rfl, by rw [last]⟩
  | succ remaining ih =>
    have more : ¬ session.ctx.currentOl ≥ session.ctx.olCnt := by
      rw [ge_iff_le, UInt8.le_iff_toNat_le]
      omega
    have ran : ((startStockReads P).run answers session).2 = { session with
        pending := some (.get (kvStockKey (session.ctx.olSupplyW session.ctx.currentOl.toNat).toUInt32
          (session.ctx.olIId session.ctx.currentOl.toNat)), .onStockRead) } := by
      simp only [run_startStockReads, if_neg more, Session.submit, accepted, if_true]
    obtain ⟨sv, row⟩ := stocked session.ctx.currentOl.toNat (by omega)
    have counted := withStock_currentOl sv session.ctx fits (by omega)
    obtain ⟨session', sQuantity, sAmount, quiet, pending, reply, ctx⟩ :=
      ih { session with ctx := withStock sv session.ctx, pending := none, sets := [] } rfl rfl fits
        (by change (withStock sv session.ctx).currentOl.toNat ≤ session.ctx.olCnt.toNat; omega) stocked
        (by change session.ctx.olCnt.toNat - (withStock sv session.ctx).currentOl.toNat = _; omega)
    refine ⟨session', sQuantity, sAmount, ?_, pending, reply, ctx⟩
    rw [ran, unset]
    exact (newOrderChain P).quiet_row rfl rfl row (run_onStock P answers _ sv) quiet

/-- The tables hold every row that the order reads. -/
structure Supplied (P : Platform) (ctx : NewOrderCtx) (dv : DistrictVal) (tables : Key → Option Bytes) :
    Prop where
  fits : ctx.olCnt.toNat ≤ maxOrderLines
  district : asRow P.host (tables (.district ctx.wId ctx.dId)) = some dv
  customer : ∃ cv : CustomerVal, asRow P.host (tables (.customer ctx.wId ctx.dId ctx.cId)) = some cv
  stock : ∀ i < ctx.olCnt.toNat, ∃ sv : StockVal,
    asRow P.host (tables (.stock (ctx.olSupplyW i).toUInt32 (ctx.olIId i))) = some sv

/-- An order waiting for its district, first attempt or retry, gets to its commit
if every row it reads is there. -/
theorem quiet_order (answers : Answers) (view : Bytes → Option Bytes) (accepted : answers.accept = true)
    (session : Session NewOrderCtx NewOrderCallback Bytes Bytes Response) {dv : DistrictVal}
    (supplied : Supplied P session.ctx dv (tablesOf P.host view))
    (waiting : session.pending =
      some (.get (kvDistrictKey session.ctx.wId session.ctx.dId), .onDistrictRead)) :
    ∃ session' cDiscount sQuantity sAmount, (newOrderChain P).client.Quiet answers view session []
        session' (built P.host (rows P session'.ctx answers.now)) ∧
      session'.pending = some (.commit, .onCommit) ∧ session'.reply = session.reply ∧
      session'.ctx = { session.ctx with
        dTax := dv.dTax, dNextOId := dv.dNextOId, cDiscount, sQuantity, sAmount
        currentOl := session.ctx.olCnt } := by
  obtain ⟨fits, district, ⟨cv, customer⟩, stock⟩ := supplied
  let ctx := withCustomer cv (withDistrict dv session.ctx)
  obtain ⟨session', sQuantity, sAmount, quiet, pending, reply, same⟩ :=
    quiet_startStockReads accepted { session with ctx, pending := none, sets := [] } rfl rfl fits
      (Nat.zero_le _) stock
  refine ⟨session', cv.cDiscount, sQuantity, sAmount, ?_, pending, reply, same⟩
  apply (newOrderChain P).quiet_row waiting rfl district (run_onDistrict answers _ dv)
  simp only [Session.submit, accepted, if_true]
  exact (newOrderChain P).quiet_row rfl rfl customer (run_onCustomer P answers _ cv) quiet

end Quiet

end H2oTpcc.NewOrder

import H2oTpcc.NewOrderProofs
import H2oTpcc.PaymentProofs

/-! NewOrder and Payment chains sharing one store. Whatever the interleaving, the
conflicts and the retries, the store goes through a sequence of whole orders and
payments, one for each commit: `serial_step` says what one of them does to the
tables, and every invariant of the store is an induction over them. -/
namespace H2oTpcc

abbrev TpccState := Session NewOrderCtx NewOrderCallback Bytes Bytes Response ⊕
  Session PaymentCtx PaymentCallback Bytes Bytes Response

abbrev TpccWorld := World TpccState Bytes Bytes

abbrev TpccCommit := Commit Bytes Bytes (Nat × TpccState)

/-- Any number of NewOrder and Payment requests. -/
def tpccClient (P : Platform) : Client (NewOrderRequest ⊕ PaymentParams) TpccState Bytes Bytes :=
  (newOrderChain P).client.sum (paymentChain P).client

/-- The worlds that runs of the server from the store `base` lead to. -/
abbrev TpccReachable (P : Platform) (base : Store Bytes Bytes) (world : TpccWorld) : Prop :=
  World.Reachable (tpccClient P) base world

/-- The context of the order that a commit placed. -/
def orderOf (commit : TpccCommit) : Option NewOrderCtx :=
  match commit.author.2 with
  | .inl session => some session.ctx
  | .inr _ => none

/-- The context of the payment that a commit made. -/
def paymentOf (commit : TpccCommit) : Option PaymentCtx :=
  match commit.author.2 with
  | .inl _ => none
  | .inr session => some session.ctx

theorem paymentOf_order (placed : orderOf commit = some ctx) : paymentOf commit = none := by
  unfold orderOf at placed
  unfold paymentOf
  split at placed <;> simp_all

/-- The tables after some rows were set. -/
def overwrite (tables : Key → Option Bytes) (rows : List (Key × Bytes)) (key : Key) : Option Bytes :=
  (lastWrite rows key).or (tables key)

/-- One whole order or payment, from the tables before it to the tables after it. -/
inductive Serial (P : Platform) (commit : TpccCommit) (before after : Key → Option Bytes) : Prop where
  | order (ctx : NewOrderCtx) (now : Int64) (placed : orderOf commit = some ctx)
      (other : paymentOf commit = none) (fits : ctx.olCnt.toNat ≤ maxOrderLines)
      (reads : NewOrder.ReadFrom P ctx ctx.olCnt.toNat before)
      (writes : commit.writes = built P.host (NewOrder.rows P ctx now))
      (becomes : after = overwrite before (NewOrder.rows P ctx now))
  | payment (ctx : PaymentCtx) (cv : CustomerVal) (now : Int64) (paid : paymentOf commit = some ctx)
      (other : orderOf commit = none) (warehouse : Payment.WarehouseRead P ctx before)
      (district : Payment.DistrictRead P ctx before) (customer : Payment.CustomerRead P ctx cv before)
      (writes : commit.writes = built P.host (Payment.rows P ctx cv now))
      (becomes : after = overwrite before (Payment.rows P ctx cv now))

section Kind
variable {P : Platform} {before after : Key → Option Bytes}

/-- What is known of a committed order: it has read every row from the version just before it,
and it has made that version into the next one by its own rows. -/
theorem Serial.of_order (serial : Serial P commit before after) (placed : orderOf commit = some ctx) :
    ctx.olCnt.toNat ≤ maxOrderLines ∧ NewOrder.ReadFrom P ctx ctx.olCnt.toNat before ∧
      ∃ now, commit.writes = built P.host (NewOrder.rows P ctx now) ∧
        after = overwrite before (NewOrder.rows P ctx now) := by
  cases serial with
  | order ctx' now placed' other fits reads writes becomes =>
    cases placed.symm.trans placed'
    exact ⟨fits, reads, now, writes, becomes⟩
  | payment ctx' cv now paid other =>
    rw [other] at placed
    cases placed

/-- What is known of a committed payment: its three rows are those of the version just before
it, and it has made that version into the next one by its own four. -/
theorem Serial.of_payment (serial : Serial P commit before after) (paid : paymentOf commit = some ctx) :
    Payment.WarehouseRead P ctx before ∧ Payment.DistrictRead P ctx before ∧
      ∃ cv now, Payment.CustomerRead P ctx cv before ∧
        commit.writes = built P.host (Payment.rows P ctx cv now) ∧
        after = overwrite before (Payment.rows P ctx cv now) := by
  cases serial with
  | order ctx' now placed other =>
    rw [other] at paid
    cases paid
  | payment ctx' cv now paid' other warehouse district customer writes becomes =>
    cases paid.symm.trans paid'
    exact ⟨warehouse, district, cv, now, customer, writes, becomes⟩

end Kind

section Runs
variable {P : Platform} {base : Store Bytes Bytes} {world : TpccWorld}

/-- What a commit must be on the view it is made on. -/
def CommitSpec (P : Platform) : TpccState → (Bytes → Option Bytes) → List (Bytes × Bytes) → Prop
  | .inl session, view, writes => NewOrder.Commits P session.ctx (tablesOf P.host view) writes
  | .inr session, view, writes => Payment.Commits P session.ctx (tablesOf P.host view) writes

private theorem commits_meet_spec (reachable : TpccReachable P base world) (version : Nat)
    (commit : TpccCommit) (logged : world.db.log[version]? = some commit) :
    CommitSpec P commit.author.2 (fun key => (world.db.asOf version)[key]?) commit.writes := by
  refine World.serial_log (CommitSpec P)
    ((NewOrder.localInvariant P).sum (Payment.localInvariant P)) ?_ reachable version commit logged
  intro state attempt holds pending
  cases state with
  | inl session => exact NewOrder.commit_meaning P session attempt holds pending
  | inr session => exact Payment.commit_meaning P session attempt holds pending

/-- The tables after a commit are those before it, overwritten by the rows that were built into
its writes. -/
theorem tables_asOf_succ {rows : List (Key × Bytes)} (logged : world.db.log[version]? = some commit)
    (writes : commit.writes = built P.host rows) :
    tables P.host (world.db.asOf (version + 1)) =
      overwrite (tables P.host (world.db.asOf version)) rows := by
  funext key
  rw [world.db.asOf_succ logged, writes, tables_applyWrites]
  rfl

/-- **Serializability.** Every commit of every run is one whole order or payment
on the store that the commits before it left. -/
theorem serial_step (reachable : TpccReachable P base world)
    (logged : world.db.log[version]? = some commit) :
    Serial P commit (tables P.host (world.db.asOf version))
      (tables P.host (world.db.asOf (version + 1))) := by
  have spec := commits_meet_spec reachable version commit logged
  cases state : commit.author.2 with
  | inl session =>
    rw [state] at spec
    obtain ⟨fits, reads, now, writes⟩ := spec
    exact .order session.ctx now (by simp [orderOf, state]) (by simp [paymentOf, state]) fits reads
      writes (tables_asOf_succ logged writes)
  | inr session =>
    rw [state] at spec
    obtain ⟨warehouse, district, cv, now, customer, writes⟩ := spec
    exact .payment session.ctx cv now (by simp [paymentOf, state]) (by simp [orderOf, state])
      warehouse district customer writes (tables_asOf_succ logged writes)

/-- The last commit took the store of the world before it to the current one. -/
theorem serial_last {earlier : TpccWorld} (reachable : TpccReachable P base world)
    (grown : world.db = earlier.db.append commit) :
    Serial P commit (tables P.host earlier.db.store) (tables P.host world.db.store) := by
  have logged : world.db.log[earlier.db.log.length]? = some commit := by rw [grown]; simp
  have serial := serial_step reachable logged
  have length : earlier.db.log.length + 1 = world.db.log.length := by rw [grown]; simp
  rw [length, ← Database.store, grown, Database.asOf_append _ _ (Nat.le_refl _), ← grown] at serial
  exact serial

theorem take_logged {log : List α} (logged : log[n]? = some a) :
    log.take (n + 1) = log.take n ++ [a] := by
  rw [List.take_add_one, logged, Option.toList_some]

/-- The induction over commits: what holds of the initial tables and survives
every order and payment holds at every version. -/
theorem serial_induction {Q : Nat → (Key → Option Bytes) → Prop}
    (reachable : TpccReachable P base world) (start : Q 0 (tables P.host base))
    (step : ∀ version commit, world.db.log[version]? = some commit →
      ∀ after, Serial P commit (tables P.host (world.db.asOf version)) after →
      Q version (tables P.host (world.db.asOf version)) → Q (version + 1) after)
    (within : version ≤ world.db.log.length) : Q version (tables P.host (world.db.asOf version)) := by
  induction version with
  | zero => rwa [Database.asOf_zero, World.reachable_base reachable]
  | succ version ih =>
    have logged : world.db.log[version]? = some (world.db.log.get ⟨version, within⟩) :=
      List.getElem?_eq_getElem within
    exact step version _ logged _ (serial_step reachable logged) (ih (Nat.le_of_lt within))

end Runs

/-! ## What one order sets -/

namespace NewOrder
variable (P : Platform) (ctx : NewOrderCtx) (now : Int64)

/-- An order sets rows of these five tables only; warehouse, district and customer are read and
left as they are. -/
theorem rows_tables : ∀ row ∈ rows P ctx now,
    row.1.table ∈ [Table.oorder, .newOrder, .orderLine, .nextOId, .stock] := by
  intro row member
  simp only [rows, List.mem_append, List.mem_cons, List.mem_map, List.not_mem_nil, or_false] at member
  rcases member with (((rfl | rfl) | ⟨i, _, rfl⟩) | rfl) | ⟨i, _, rfl⟩ <;> simp [Key.table]

/-- An order leaves every other table alone, the district's among them. -/
theorem rows_other {key : Key}
    (apart : key.table ∉ [Table.oorder, .newOrder, .orderLine, .nextOId, .stock]) :
    lastWrite (rows P ctx now) key = none := by
  rw [lastWrite_eq_none]
  rintro row member rfl
  exact apart (rows_tables P ctx now row member)

/-- The rows of an order under one key at a time. The header is set under the number that was
read from the district. -/
theorem rows_oorder (w d o : UInt32) :
    lastWrite (rows P ctx now) (.oorder w d o) =
      if ctx.wId = w ∧ ctx.dId = d ∧ ctx.dNextOId.toUInt32 = o then
        some (encode P.host (oorderVal ctx now)) else none := by
  simp [rows, lastWrite_range_none]

theorem rows_newOrder (w d o : UInt32) :
    lastWrite (rows P ctx now) (.newOrder w d o) =
      if ctx.wId = w ∧ ctx.dId = d ∧ ctx.dNextOId.toUInt32 = o then some [0] else none := by
  simp [rows, lastWrite_range_none]

/-- The copy of the counter is set to one more than the number that was read, whatever the copy
was before. -/
theorem rows_nextOId (w d : UInt32) :
    lastWrite (rows P ctx now) (.nextOId w d) =
      if ctx.wId = w ∧ ctx.dId = d then some (kvEncodeNextOId (ctx.dNextOId + 1)) else none := by
  simp [rows, lastWrite_range_none]

variable {P ctx now} in
/-- The stock rows that an order sets are those of its lines, one set per line. -/
theorem mem_rows_stock {w i : UInt32} {value : Bytes} :
    (.stock w i, value) ∈ rows P ctx now ↔ ∃ line < ctx.olCnt.toNat,
      ((ctx.olSupplyW line).toUInt32 = w ∧ ctx.olIId line = i) ∧
        encode P.host (stockVal ctx line) = value := by
  simp [rows]

theorem rows_orderLine (w d o n : UInt32) :
    lastWrite (rows P ctx now) (.orderLine w d o n) =
      if (ctx.wId = w ∧ ctx.dId = d ∧ ctx.dNextOId.toUInt32 = o) ∧ 1 ≤ n.toNat ∧
          n.toNat ≤ ctx.olCnt.toNat then
        some (encode P.host (orderLineVal ctx (n.toNat - 1))) else none := by
  have small := ctx.olCnt.toNat_lt
  have wide : UInt32.size = 4294967296 := rfl
  have numbered (i : Nat) (below : i < ctx.olCnt.toNat) : (UInt32.ofNat (i + 1)).toNat = i + 1 :=
    UInt32.toNat_ofNat_of_lt' (by omega)
  have only : lastWrite (rows P ctx now) (.orderLine w d o n) =
      lastWrite ((List.range ctx.olCnt.toNat).map fun i =>
        (Key.orderLine ctx.wId ctx.dId ctx.dNextOId.toUInt32 (UInt32.ofNat (i + 1)),
          encode P.host (orderLineVal ctx i))) (.orderLine w d o n) := by
    simp only [rows, lastWrite_append]
    rw [lastWrite_range_none (fun i => Key.stock (ctx.olSupplyW i).toUInt32 (ctx.olIId i)) _
      (fun i _ => by simp)]
    simp
  rw [only]
  split
  · rename_i own
    obtain ⟨⟨rfl, rfl, rfl⟩, first, last⟩ := own
    have number : UInt32.ofNat (n.toNat - 1 + 1) = n := by
      rw [Nat.sub_add_cancel first, UInt32.ofNat_toNat]
    have found := lastWrite_range_some
      (fun i => Key.orderLine ctx.wId ctx.dId ctx.dNextOId.toUInt32 (UInt32.ofNat (i + 1)))
      (fun i => encode P.host (orderLineVal ctx i)) (show n.toNat - 1 < ctx.olCnt.toNat by omega)
      (fun j below same => by
        have equal := congrArg UInt32.toNat (Key.orderLine.inj same).2.2.2
        rw [numbered j below, numbered _ (by omega)] at equal
        omega)
    rwa [number] at found
  · rename_i foreign
    apply lastWrite_range_none
    intro i below same
    obtain ⟨rfl, rfl, rfl, rfl⟩ := Key.orderLine.inj same
    rw [numbered i below] at foreign
    exact foreign ⟨⟨rfl, rfl, rfl⟩, by omega, by omega⟩

end NewOrder

/-! ## What one payment sets -/

namespace Payment
variable (P : Platform) (ctx : PaymentCtx) (cv : CustomerVal) (now : Int64)

theorem rows_other {key : Key} (apart : key.table ∉ [Table.warehouse, .district, .customer, .history]) :
    lastWrite (rows P ctx cv now) key = none := by
  rw [lastWrite_eq_none]
  rintro row member rfl
  simp only [rows, List.mem_cons, List.not_mem_nil, or_false] at member
  rcases member with rfl | rfl | rfl | rfl <;> simp [Key.table] at apart

/-- The rows of a payment under one key at a time. The warehouse is the one paid at, the
district and the customer are those of the one who pays. -/
theorem rows_warehouse (w : UInt32) :
    lastWrite (rows P ctx cv now) (.warehouse w) =
      if ctx.wId = w then some (encode P.host (warehouseVal ctx)) else none := by
  simp [rows]

theorem rows_district (w d : UInt32) :
    lastWrite (rows P ctx cv now) (.district w d) =
      if ctx.cWId = w ∧ ctx.cDId = d then some (encode P.host (districtVal ctx)) else none := by
  simp [rows]

theorem rows_customer (w d c : UInt32) :
    lastWrite (rows P ctx cv now) (.customer w d c) =
      if ctx.cWId = w ∧ ctx.cDId = d ∧ ctx.cId = c then some (encode P.host (customerVal ctx cv))
      else none := by
  simp [rows]

theorem rows_history (w cw cd c time : UInt32) :
    lastWrite (rows P ctx cv now) (.history w cw cd c time) =
      if ctx.wId = w ∧ ctx.cWId = cw ∧ ctx.cDId = cd ∧ ctx.cId = c ∧ stamp now = time then
        some (encode P.host (historyVal ctx now)) else none := by
  simp [rows]

end Payment

/-! ## Rows stay -/

section Stay
variable {P : Platform} {commit : TpccCommit} {before after : Key → Option Bytes}

/-- A cell after some rows were set: one of the values set, or what was there. -/
theorem overwrite_cases (tables : Key → Option Bytes) (rows : List (Key × Bytes)) (key : Key) :
    (∃ value, (key, value) ∈ rows ∧ overwrite tables rows key = some value) ∨
      overwrite tables rows key = tables key := by
  unfold overwrite
  cases found : lastWrite rows key with
  | none => exact .inr rfl
  | some value => exact .inl ⟨value, mem_of_lastWrite found, rfl⟩

theorem overwrite_unset {tables : Key → Option Bytes} {rows : List (Key × Bytes)} {key : Key}
    (unset : lastWrite rows key = none) : overwrite tables rows key = tables key := by
  rw [overwrite, unset, Option.none_or]

theorem overwrite_set {tables : Key → Option Bytes} {rows : List (Key × Bytes)} {key : Key}
    {value : Bytes} (set : lastWrite rows key = some value) : overwrite tables rows key = some value := by
  rw [overwrite, set, Option.some_or]

/-- Rows are set and never cleared: no transaction of the source deletes a key. -/
theorem overwrite_isSome {tables : Key → Option Bytes} {rows : List (Key × Bytes)} {key : Key}
    (present : (tables key).isSome) : (overwrite tables rows key).isSome := by
  rcases overwrite_cases tables rows key with ⟨value, _, found⟩ | kept
  · rw [found]; rfl
  · rwa [kept]

/-- A row that is not set is not among the writes either, since different rows have different
keys. -/
theorem not_mem_built {host : Endian} {rows : List (Key × Bytes)} {key : Key}
    (unset : lastWrite rows key = none) (value : Bytes) : (key.build host, value) ∉ built host rows :=
  fun member => lastWrite_eq_none.mp unset _ (mem_built.mp member) rfl

/-- No transaction removes a customer: payments overwrite the row, orders leave it alone. -/
theorem Serial.customer_stays (serial : Serial P commit before after) {w d c : UInt32}
    (present : (customerRow P.host before w d c).isSome) : (customerRow P.host after w d c).isSome := by
  unfold customerRow at *
  cases serial with
  | order ctx now placed other fits reads writes becomes =>
    rw [becomes, overwrite, NewOrder.rows_other P ctx now (by simp [Key.table])]
    exact present
  | payment ctx cv now paid other warehouse district customer writes becomes =>
    rw [becomes, overwrite, Payment.rows_customer]
    split
    · simp
    · exact present

/-- No transaction removes a stock row: orders overwrite it, payments leave it alone. -/
theorem Serial.stock_stays (serial : Serial P commit before after) {w i : UInt32}
    (present : (asRow P.host (before (.stock w i)) : Option StockVal).isSome) :
    (asRow P.host (after (.stock w i)) : Option StockVal).isSome := by
  cases serial with
  | order ctx now placed other fits reads writes becomes =>
    rw [becomes]
    rcases overwrite_cases before (NewOrder.rows P ctx now) (.stock w i) with ⟨value, member, found⟩ | kept
    · obtain ⟨line, _, _, rfl⟩ := NewOrder.mem_rows_stock.mp member
      simp [found]
    · rwa [kept]
  | payment ctx cv now paid other warehouse district customer writes becomes =>
    rw [becomes, overwrite, Payment.rows_other P ctx cv now (by simp [Key.table])]
    exact present

end Stay

/-! ## Requests that nothing disturbs -/

section Solo
variable {P : Platform} {base : Store Bytes Bytes} {world : TpccWorld}

/-- In any world, an order whose rows are all there can be placed. -/
theorem order_commits (reachable : TpccReachable P base world) (request : NewOrderRequest) (now : Int64)
    {dv : DistrictVal}
    (supplied : NewOrder.Supplied P request.val.ctx dv (tables P.host world.db.store)) :
    ∃ world' commit cDiscount sQuantity sAmount, TpccReachable P base world' ∧
      world'.db = world.db.append commit ∧
      orderOf commit = some { request.val.ctx with
        dTax := dv.dTax, dNextOId := dv.dNextOId, cDiscount, sQuantity, sAmount
        currentOl := request.val.olCnt } := by
  have started := NewOrder.start_waits P request now
  obtain ⟨session, cDiscount, sQuantity, sAmount, quiet, pending, _, ctx⟩ :=
    NewOrder.quiet_order { now } (fun key => world.db.store[key]?) rfl
      ((newOrderChain P).start request { now }) (by rw [started]; exact supplied) (by rw [started]; rfl)
  have asks : (tpccClient P).pending (.inl session) = some .commit := by
    simp [tpccClient, Client.sum, Chain.client, pending]
  obtain ⟨world', reached, grown⟩ := World.solo_commit reachable (.inl request) { now }
    (quiet.inl (paymentChain P).client) asks
  refine ⟨world', _, cDiscount, sQuantity, sAmount, reached, grown, ?_⟩
  rw [started] at ctx
  exact congrArg some ctx

/-- In any world, a payment whose rows are all there can be made, at any time. -/
theorem payment_commits_rows (reachable : TpccReachable P base world) (params : PaymentParams)
    (now : Int64) {wv : WarehouseVal} {dv : DistrictVal} {cv : CustomerVal}
    (supplied : Payment.Supplied P params.ctx wv dv cv (tables P.host world.db.store)) :
    ∃ world' commit ctx, TpccReachable P base world' ∧ world'.db = world.db.append commit ∧
      paymentOf commit = some ctx ∧
      ctx = Payment.withCustomer cv (Payment.withDistrict P dv (Payment.withWarehouse wv params.ctx)) ∧
      commit.writes = built P.host (Payment.rows P ctx cv now) := by
  have started := Payment.start_waits P params now
  obtain ⟨session, quiet, pending, _, ctx⟩ :=
    Payment.quiet_payment P { now } (fun key => world.db.store[key]?) rfl
      ((paymentChain P).start params { now }) (by rw [started]; exact supplied) (by rw [started]; rfl)
  have asks : (tpccClient P).pending (.inr session) = some .commit := by
    simp [tpccClient, Client.sum, Chain.client, pending]
  obtain ⟨world', reached, grown⟩ := World.solo_commit reachable (.inr params) { now }
    (quiet.inr (newOrderChain P).client) asks
  rw [started] at ctx
  exact ⟨world', _, session.ctx, reached, grown, rfl, ctx, rfl⟩

/-- In any world that is reached, a payment whose rows are all there can be made, with the next
commit. -/
theorem payment_commits (reachable : TpccReachable P base world) (params : PaymentParams) (now : Int64)
    {wv : WarehouseVal} {dv : DistrictVal} {cv : CustomerVal}
    (supplied : Payment.Supplied P params.ctx wv dv cv (tables P.host world.db.store)) :
    ∃ world' commit, TpccReachable P base world' ∧ world'.db = world.db.append commit ∧
      paymentOf commit = some (Payment.withCustomer cv (Payment.withDistrict P dv
        (Payment.withWarehouse wv params.ctx))) := by
  obtain ⟨world', commit, ctx, reached, grown, made, rfl, _⟩ :=
    payment_commits_rows reachable params now supplied
  exact ⟨world', commit, reached, grown, made⟩

end Solo

end H2oTpcc

import H2oTpcc.Ledger

/-! What a payment leaves alone. The three rows it rewrites are rebuilt from zero,
so only the columns it carries over survive: a payment is harmless exactly on rows
whose other columns are zero already. -/
namespace H2oTpcc

/-- The warehouse row with a payment added to its total. -/
def WarehouseVal.pay (amount : Int64) (wv : WarehouseVal) : WarehouseVal :=
  { wv with wYtd := wv.wYtd + amount }

def DistrictVal.pay (amount : Int64) (dv : DistrictVal) : DistrictVal :=
  { dv with dYtd := dv.dYtd + amount }

def CustomerVal.pay (amount : Int64) (cv : CustomerVal) : CustomerVal :=
  { cv with
    cBalance := cv.cBalance - amount
    cYtdPayment := cv.cYtdPayment + amount
    cPaymentCnt := cv.cPaymentCnt + 1 }

/-- The history row of a payment made at a given time. -/
def historyAt (ctx : PaymentCtx) (now : Int64) : Key :=
  .history ctx.wId ctx.cWId ctx.cDId ctx.cId (Payment.stamp now)

/-- The keys that a payment is about. -/
def paidKeys (ctx : PaymentCtx) (now : Int64) : List Key :=
  [.warehouse ctx.wId, .district ctx.cWId ctx.cDId, .customer ctx.cWId ctx.cDId ctx.cId,
    historyAt ctx now]

/-- The payment changed what it pays, added its history row, and nothing else. -/
structure PaysOnly (host : Endian) (ctx : PaymentCtx) (now : Int64) (before after : Key → Option Bytes) :
    Prop where
  warehouse : warehouseRow host after ctx.wId =
    (warehouseRow host before ctx.wId).map (.pay ctx.hAmount.toInt64)
  district : districtRow host after ctx.cWId ctx.cDId =
    (districtRow host before ctx.cWId ctx.cDId).map (.pay ctx.hAmount.toInt64)
  customer : customerRow host after ctx.cWId ctx.cDId ctx.cId =
    (customerRow host before ctx.cWId ctx.cDId ctx.cId).map (.pay ctx.hAmount.toInt64)
  history : before (historyAt ctx now) = none ∧
    asRow host (after (historyAt ctx now)) = some (Payment.historyVal ctx now)
  others : ∀ key ∉ paidKeys ctx now, after key = before key

/-- The row holds nothing but its total. -/
def WarehouseVal.Bare (wv : WarehouseVal) : Prop :=
  wv = { (PackedRow.zero : WarehouseVal) with wYtd := wv.wYtd }

/-- Nothing but its total; in particular `d_next_o_id` is 0. -/
def DistrictVal.Bare (dv : DistrictVal) : Prop :=
  dv = { (PackedRow.zero : DistrictVal) with dYtd := dv.dYtd }

/-- Nothing but the balance, the paid total and the payment count. -/
def CustomerVal.Bare (cv : CustomerVal) : Prop :=
  cv = { (PackedRow.zero : CustomerVal) with
    cBalance := cv.cBalance, cYtdPayment := cv.cYtdPayment, cPaymentCnt := cv.cPaymentCnt }

section Rows
variable {ctx : PaymentCtx}

private theorem warehouseVal_eq_pay (wv : WarehouseVal) (read : ctx.wYtd = wv.wYtd) :
    Payment.warehouseVal ctx = wv.pay ctx.hAmount.toInt64 ↔ wv.Bare := by
  cases wv
  simp only [Payment.warehouseVal, WarehouseVal.pay, WarehouseVal.Bare, WarehouseVal.mk.injEq] at *
  simp only [read, and_true]
  grind

private theorem districtVal_eq_pay (dv : DistrictVal) (read : ctx.dYtd = dv.dYtd) :
    Payment.districtVal ctx = dv.pay ctx.hAmount.toInt64 ↔ dv.Bare := by
  cases dv
  simp only [Payment.districtVal, DistrictVal.pay, DistrictVal.Bare, DistrictVal.mk.injEq] at *
  simp only [read, true_and]
  grind

private theorem customerVal_eq_pay (cv : CustomerVal) (balance : ctx.cBalance = cv.cBalance)
    (count : ctx.cPaymentCnt = cv.cPaymentCnt) :
    Payment.customerVal ctx cv = cv.pay ctx.hAmount.toInt64 ↔ cv.Bare := by
  cases cv
  simp only [Payment.customerVal, CustomerVal.pay, CustomerVal.Bare, CustomerVal.mk.injEq] at *
  simp only [balance, count, true_and]
  grind

end Rows

/-- The three rows that a payment rewrites hold nothing that it does not carry over. -/
structure BareRows (host : Endian) (ctx : PaymentCtx) (tables : Key → Option Bytes) : Prop where
  warehouse : ∀ wv ∈ warehouseRow host tables ctx.wId, wv.Bare
  district : ∀ dv ∈ districtRow host tables ctx.cWId ctx.cDId, dv.Bare
  customer : ∀ cv ∈ customerRow host tables ctx.cWId ctx.cDId ctx.cId, cv.Bare

section Frame
variable (P : Platform) (ctx : PaymentCtx) (cv : CustomerVal) (now : Int64)
  (before : Key → Option Bytes)

/-- The rows after a payment, whatever they held before. -/
private theorem paid_rows :
    let after := overwrite before (Payment.rows P ctx cv now)
    warehouseRow P.host after ctx.wId = some (Payment.warehouseVal ctx) ∧
    districtRow P.host after ctx.cWId ctx.cDId = some (Payment.districtVal ctx) ∧
    customerRow P.host after ctx.cWId ctx.cDId ctx.cId = some (Payment.customerVal ctx cv) ∧
    asRow P.host (after (historyAt ctx now)) = some (Payment.historyVal ctx now) := by
  simp [warehouseRow, districtRow, customerRow, historyAt, overwrite, Payment.rows_warehouse,
    Payment.rows_district, Payment.rows_customer, Payment.rows_history]

variable {P ctx cv now before}

/-- Payment has no effect on any other key, whatever its rows held. -/
private theorem paid_others {key : Key} (other : key ∉ paidKeys ctx now) :
    overwrite before (Payment.rows P ctx cv now) key = before key := by
  apply overwrite_unset
  rw [lastWrite_eq_none]
  rintro row member rfl
  apply other
  simp only [Payment.rows, List.mem_cons, List.not_mem_nil, or_false] at member
  rcases member with rfl | rfl | rfl | rfl <;> simp [paidKeys, historyAt]

private theorem paysOnly_iff (warehouse : Payment.WarehouseRead P ctx before)
    (district : Payment.DistrictRead P ctx before) (customer : Payment.CustomerRead P ctx cv before) :
    PaysOnly P.host ctx now before (overwrite before (Payment.rows P ctx cv now)) ↔
      BareRows P.host ctx before ∧ before (historyAt ctx now) = none := by
  obtain ⟨wv, wRow, wYtd⟩ := warehouse
  obtain ⟨dv, dRow, dYtd⟩ := district
  obtain ⟨cRow, balance, count⟩ := customer
  change warehouseRow P.host before ctx.wId = some wv at wRow
  change districtRow P.host before ctx.cWId ctx.cDId = some dv at dRow
  change customerRow P.host before ctx.cWId ctx.cDId ctx.cId = some cv at cRow
  obtain ⟨wAfter, dAfter, cAfter, hAfter⟩ := paid_rows P ctx cv now before
  constructor
  · intro only
    have w := wAfter.symm.trans only.warehouse
    have d := dAfter.symm.trans only.district
    have c := cAfter.symm.trans only.customer
    rw [wRow, Option.map_some, Option.some_inj, warehouseVal_eq_pay wv wYtd] at w
    rw [dRow, Option.map_some, Option.some_inj, districtVal_eq_pay dv dYtd] at d
    rw [cRow, Option.map_some, Option.some_inj, customerVal_eq_pay cv balance count] at c
    refine ⟨⟨?_, ?_, ?_⟩, only.history.1⟩
    · simpa [wRow] using w
    · simpa [dRow] using d
    · simpa [cRow] using c
  · rintro ⟨bare, absent⟩
    refine ⟨wAfter.trans ?_, dAfter.trans ?_, cAfter.trans ?_, ⟨absent, hAfter⟩, fun key => paid_others⟩
    · rw [wRow, Option.map_some, Option.some_inj, warehouseVal_eq_pay wv wYtd]
      exact bare.warehouse wv wRow
    · rw [dRow, Option.map_some, Option.some_inj, districtVal_eq_pay dv dYtd]
      exact bare.district dv dRow
    · rw [cRow, Option.map_some, Option.some_inj, customerVal_eq_pay cv balance count]
      exact bare.customer cv cRow

end Frame

/-- **The frame of a payment.** Every committed payment reads the clock once, and it
changes only what it pays exactly if its three rows hold nothing else and no payment
of the customer is recorded for that second. -/
theorem payment_frame_iff {P : Platform} {base : Store Bytes Bytes} {world : TpccWorld}
    {ctx : PaymentCtx} (reachable : TpccReachable P base world)
    (logged : world.db.log[version]? = some commit) (made : paymentOf commit = some ctx) :
    ∃ now cv, commit.writes = built P.host (Payment.rows P ctx cv now) ∧
      (PaysOnly P.host ctx now (tables P.host (world.db.asOf version))
          (tables P.host (world.db.asOf (version + 1))) ↔
        BareRows P.host ctx (tables P.host (world.db.asOf version)) ∧
          tables P.host (world.db.asOf version) (historyAt ctx now) = none) := by
  obtain ⟨warehouse, district, cv, now, customer, writes, becomes⟩ :=
    (serial_step reachable logged).of_payment made
  refine ⟨now, cv, writes, ?_⟩
  rw [becomes]
  exact paysOnly_iff warehouse district customer

/-- The first payment into a loaded district loses its `d_next_o_id`: the row is built from
zero, and only the total is filled in. -/
theorem payment_loses_next_o_id :
    ∃ world commit ctx dv, TpccReachable plainPlatform smallLoaded world ∧ world.db.log = [commit] ∧
      paymentOf commit = some ctx ∧
      districtRow .little (tables .little smallLoaded) 1 1 = some dv ∧ dv.dNextOId = 3001 ∧
      (districtRow .little (tables .little world.db.store) 1 1).map (·.dNextOId) = some 0 ∧
      ∀ now, ¬ PaysOnly .little ctx now (tables .little smallLoaded) (tables .little world.db.store) := by
  obtain ⟨world, commit, ctx, reached, grown, made, w, cw, cd, c, amount⟩ := small_payment 1 (.inl rfl)
  obtain ⟨dv, row, _, id⟩ := smallLoaded_district 1 (.inl rfl)
  have serial := serial_last reached grown
  rw [World.initial_store] at serial
  have lost : (districtRow .little (tables .little world.db.store) 1 1).map (·.dNextOId) = some 0 := by
    obtain ⟨_, _, cv, now, _, _, becomes⟩ := serial.of_payment made
    have rebuilt := (paid_rows plainPlatform ctx cv now (tables .little smallLoaded)).2.1
    rw [cw, cd] at rebuilt
    change (districtRow plainPlatform.host (tables plainPlatform.host world.db.store) 1 1).map _ = _
    rw [becomes]
    exact congrArg (Option.map (·.dNextOId)) rebuilt
  refine ⟨world, commit, ctx, dv, reached, by rw [grown]; rfl, made, row, id, lost, fun now only => ?_⟩
  have kept := only.district
  rw [cw, cd, row] at kept
  rw [kept] at lost
  simp [DistrictVal.pay, id] at lost

/-- Rows of zeros, without history. -/
def bareRows : List (Key × Bytes) :=
  [(.warehouse 1, encode .little (PackedRow.zero : WarehouseVal)),
    (.district 1 1, encode .little (PackedRow.zero : DistrictVal)),
    (.customer 1 1 1, encode .little (PackedRow.zero : CustomerVal))]

/-- A payment on rows of zeros changes only what it pays, since there is nothing else to lose. -/
theorem payment_frame_iff_bare :
    ∃ world commit ctx now, TpccReachable plainPlatform (applyWrites ∅ (built .little bareRows)) world ∧
      world.db.log = [commit] ∧ paymentOf commit = some ctx ∧
      PaysOnly .little ctx now (tables .little (world.db.asOf 0)) (tables .little (world.db.asOf 1)) := by
  let base : Store Bytes Bytes := applyWrites ∅ (built .little bareRows)
  have rows (key : Key) : tables .little base key = lastWrite bareRows key := tables_only _ _ _
  have start : TpccReachable plainPlatform base (World.initial base) := ⟨[], rfl⟩
  have supplied : Payment.Supplied plainPlatform (smallPayment 1).ctx PackedRow.zero PackedRow.zero
      PackedRow.zero (tables .little base) := by
    constructor <;> rw [rows] <;> simp [bareRows, smallPayment, PaymentParams.ctx,
      Payment.chooseCustomer, plainPlatform]
  rw [← World.initial_store (L := TpccState) base] at supplied
  obtain ⟨world, commit, reached, grown, made⟩ := payment_commits start (smallPayment 1) 0 supplied
  have log : world.db.log = [commit] := by rw [grown]; rfl
  have logged : world.db.log[0]? = some commit := by rw [log]; rfl
  obtain ⟨now, cv, _, frame⟩ := payment_frame_iff reached logged made
  refine ⟨world, commit, _, now, reached, log, made, frame.mpr ?_⟩
  rw [Database.asOf_zero, World.reachable_base reached]
  refine ⟨⟨?_, ?_, ?_⟩, ?_⟩
  · change ∀ wv ∈ asRow .little (tables .little base (.warehouse 1)), WarehouseVal.Bare wv
    rw [rows]
    simp [bareRows, WarehouseVal.Bare]
  · change ∀ dv ∈ asRow .little (tables .little base (.district 1 1)), DistrictVal.Bare dv
    rw [rows]
    simp [bareRows, DistrictVal.Bare]
  · change ∀ cv ∈ asRow .little (tables .little base (.customer 1 1 1)), CustomerVal.Bare cv
    rw [rows]
    simp [bareRows, CustomerVal.Bare]
  · change tables .little base _ = none
    rw [rows]
    simp [bareRows, historyAt]

end H2oTpcc

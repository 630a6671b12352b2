import H2oTpcc.Ledger

/-! The payment count of a customer. It is an `int16_t` in the row and in the
context of a payment; every payment charged to the customer adds one, and the
count is that of the payments until it wraps. -/
namespace H2oTpcc

/-- How many of some commits are payments charged to the customer. -/
def charged (log : List TpccCommit) (w d c : UInt32) : Nat :=
  (log.filterMap paymentOf).countP fun ctx => ctx.cWId = w ∧ ctx.cDId = d ∧ ctx.cId = c

private theorem charged_append (first second : List TpccCommit) (w d c : UInt32) :
    charged (first ++ second) w d c = charged first w d c + charged second w d c := by
  rw [charged, List.filterMap_append, List.countP_append, charged, charged]

section Count
variable {P : Platform} {base : Store Bytes Bytes} {world : TpccWorld}

private theorem Serial.payment_count {commit : TpccCommit} {before after : Key → Option Bytes}
    (serial : Serial P commit before after) (w d c : UInt32) :
    (customerRow P.host after w d c).map (·.cPaymentCnt) =
      (customerRow P.host before w d c).map
        (·.cPaymentCnt + Int16.ofNat (charged [commit] w d c)) := by
  cases serial with
  | order ctx now placed other fits reads writes becomes =>
    have none : charged [commit] w d c = 0 := by simp [charged, other]
    rw [becomes, customerRow, overwrite_unset (NewOrder.rows_other P ctx now (by simp [Key.table])),
      none]
    simp [customerRow]
  | payment ctx cv now made other warehouse district customer writes becomes =>
    rw [becomes, customerRow, overwrite, Payment.rows_customer]
    by_cases own : ctx.cWId = w ∧ ctx.cDId = d ∧ ctx.cId = c
    · obtain ⟨rfl, rfl, rfl⟩ := own
      have one : charged [commit] ctx.cWId ctx.cDId ctx.cId = 1 := by simp [charged, made]
      simp [customerRow, customer.row, Payment.customerVal, customer.count, one]
    · have none : charged [commit] w d c = 0 := by simp [charged, made, own]
      simp [customerRow, own, none]

/-- The count moves by the number of payments, modulo its width. -/
private theorem payment_count_wraps (reachable : TpccReachable P base world) (w d c : UInt32)
    (within : version ≤ world.db.log.length) :
    (customerRow P.host (tables P.host (world.db.asOf version)) w d c).map (·.cPaymentCnt) =
      (customerRow P.host (tables P.host base) w d c).map
        (·.cPaymentCnt + Int16.ofNat (charged (world.db.log.take version) w d c)) := by
  refine serial_induction (Q := fun version tables' =>
    (customerRow P.host tables' w d c).map (·.cPaymentCnt) =
      (customerRow P.host (tables P.host base) w d c).map
        (·.cPaymentCnt + Int16.ofNat (charged (world.db.log.take version) w d c)))
    reachable (by simp [charged]) ?_ within
  intro version commit logged after serial before
  have moved := congrArg (Option.map (· + Int16.ofNat (charged [commit] w d c))) before
  rw [Option.map_map, Option.map_map] at moved
  rw [serial.payment_count w d c, take_logged logged, charged_append, Int16.ofNat_add]
  simpa only [Function.comp_def, Int16.add_assoc] using moved

private theorem payment_count_stored (reachable : TpccReachable P base world)
    (within : version ≤ world.db.log.length) {w d c : UInt32} {cv : CustomerVal}
    (start : customerRow P.host (tables P.host base) w d c = some cv) :
    (customerRow P.host (tables P.host (world.db.asOf version)) w d c).map (·.cPaymentCnt.toInt) =
      some (cv.cPaymentCnt + Int16.ofNat (charged (world.db.log.take version) w d c)).toInt := by
  have count := payment_count_wraps reachable w d c within
  rw [start, Option.map_some] at count
  simpa only [Option.map_map, Option.map_some, Function.comp_def] using
    congrArg (Option.map Int16.toInt) count

/-- Adding to a count that is not negative is exact up to the largest `int16_t`. -/
theorem count_exact_iff (start : Int16) (n : Nat) (nonneg : 0 ≤ start.toInt) :
    (start + Int16.ofNat n).toInt = start.toInt + n ↔ start.toInt + n ≤ 32767 := by
  have wrapped : (start + Int16.ofNat n).toInt = (start.toInt + n).bmod (2 ^ 16) := by
    rw [Int16.toInt_add, Int16.toInt_ofNat']
    exact Int.add_bmod_bmod
  rw [wrapped]
  constructor
  · intro exact_sum
    have bound := Int.bmod_lt (x := start.toInt + n) (m := 2 ^ 16) (by decide)
    omega
  · intro small
    exact Int.bmod_eq_of_le (by omega) (by omega)

/-- **Payment count is exact** as long as it does not pass 32767, the largest `int16_t`: the
customer's count goes up by one with every committed payment. -/
theorem payment_count_exact_iff (reachable : TpccReachable P base world) (version : Nat)
    (within : version ≤ world.db.log.length) (w d c : UInt32) (cv : CustomerVal)
    (start : customerRow P.host (tables P.host base) w d c = some cv)
    (nonneg : 0 ≤ cv.cPaymentCnt.toInt) :
    (customerRow P.host (tables P.host (world.db.asOf version)) w d c).map (·.cPaymentCnt.toInt) =
        some (cv.cPaymentCnt.toInt + charged (world.db.log.take version) w d c) ↔
      cv.cPaymentCnt.toInt + charged (world.db.log.take version) w d c ≤ 32767 := by
  rw [payment_count_stored reachable within start, Option.some_inj, count_exact_iff _ _ nonneg]

end Count

/-- The rows a payment needs, with the customer's count at its largest or below. -/
def countedRows (count : Int16) : List (Key × Bytes) :=
  [(.warehouse 1, encode .little (PackedRow.zero : WarehouseVal)),
    (.district 1 1, encode .little (PackedRow.zero : DistrictVal)),
    (.customer 1 1 1, encode .little { (PackedRow.zero : CustomerVal) with cPaymentCnt := count })]

/-- One payment by that customer. -/
private theorem counted_payment (count : Int16) : ∃ world,
    TpccReachable plainPlatform (applyWrites ∅ (built .little (countedRows count))) world ∧
    charged world.db.log 1 1 1 = 1 ∧
    customerRow .little (tables .little (applyWrites ∅ (built .little (countedRows count)))) 1 1 1 =
      some { (PackedRow.zero : CustomerVal) with cPaymentCnt := count } := by
  let base : Store Bytes Bytes := applyWrites ∅ (built .little (countedRows count))
  have rows (key : Key) : tables .little base key = lastWrite (countedRows count) key := tables_only _ _ _
  have start : TpccReachable plainPlatform base (World.initial base) := ⟨[], rfl⟩
  have supplied : Payment.Supplied plainPlatform (smallPayment 1).ctx PackedRow.zero PackedRow.zero
      { (PackedRow.zero : CustomerVal) with cPaymentCnt := count } (tables .little base) := by
    refine ⟨?_, ?_, ?_⟩ <;> rw [rows] <;>
      simp [countedRows, smallPayment, PaymentParams.ctx, plainPlatform, Payment.chooseCustomer]
  rw [← World.initial_store (L := TpccState) base] at supplied
  obtain ⟨world, commit, reached, grown, made⟩ := payment_commits start (smallPayment 1) 0 supplied
  have log : world.db.log = [commit] := by rw [grown]; rfl
  refine ⟨world, reached, ?_, supplied.customer⟩
  rw [log, charged, List.filterMap_cons, made]
  rfl

/-- The payment after 32767 payments leaves a negative count, since the field is an `int16_t`. -/
theorem payment_count_negative : ∃ base world cv,
    TpccReachable plainPlatform base world ∧ charged world.db.log 1 1 1 = 1 ∧
    customerRow .little (tables .little base) 1 1 1 = some cv ∧ cv.cPaymentCnt.toInt = 32767 ∧
    (customerRow .little (tables .little world.db.store) 1 1 1).map (·.cPaymentCnt.toInt) =
      some (-32768) := by
  obtain ⟨world, reached, once, row⟩ := counted_payment 32767
  refine ⟨_, world, _, reached, once, row, by decide, ?_⟩
  have stored := payment_count_stored reached (Nat.le_refl _) row
  rw [List.take_length, once] at stored
  exact stored.trans (by decide)

/-- The first payment of a customer is counted as one. -/
theorem payment_count_exact_iff_first : ∃ base world cv,
    TpccReachable plainPlatform base world ∧ charged world.db.log 1 1 1 = 1 ∧
    customerRow .little (tables .little base) 1 1 1 = some cv ∧ cv.cPaymentCnt.toInt = 0 ∧
    (customerRow .little (tables .little world.db.store) 1 1 1).map (·.cPaymentCnt.toInt) =
      some 1 := by
  obtain ⟨world, reached, once, row⟩ := counted_payment 0
  refine ⟨_, world, _, reached, once, row, by decide, ?_⟩
  have exact_iff := payment_count_exact_iff reached world.db.log.length (Nat.le_refl _) 1 1 1 _ row
    (by decide)
  rw [List.take_length, once] at exact_iff
  exact exact_iff.mpr (by decide)

end H2oTpcc

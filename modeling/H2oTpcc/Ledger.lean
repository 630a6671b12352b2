import H2oTpcc.OrderIds
import H2oTpcc.RequestEffects

/-! The money columns. Whatever is interleaved with it, each payment moves its
warehouse's and its district's year-to-date total and its customer's balance by its
amount, once; everything else in the three rows it rewrites is lost. Sums are in
`int64_t`, which wraps around. -/
namespace H2oTpcc

/-- The sum of `h_amount` over the payments selected among some commits. -/
def paid (selects : PaymentCtx → Bool) (log : List TpccCommit) : Int64 :=
  (((log.filterMap paymentOf).filter selects).map fun ctx => ctx.hAmount.toInt64).sum

section Paid
variable (selects : PaymentCtx → Bool)

theorem paid_nil : paid selects [] = 0 := rfl

/-- The sum over a log, commit by commit, in the arithmetic of `int64_t`. -/
theorem paid_cons (commit : TpccCommit) (log : List TpccCommit) :
    paid selects (commit :: log) = paid selects [commit] + paid selects log := by
  unfold paid
  cases found : paymentOf commit with
  | none => simp [found]
  | some ctx => cases chosen : selects ctx <;> simp [found, chosen]

theorem paid_append (first second : List TpccCommit) :
    paid selects (first ++ second) = paid selects first + paid selects second := by
  induction first with
  | nil => simp [paid_nil]
  | cons commit rest ih =>
    rw [List.cons_append, paid_cons, ih, paid_cons selects commit rest]
    grind

theorem paid_order (other : paymentOf commit = none) : paid selects [commit] = 0 := by
  simp [paid, other]

theorem paid_payment (made : paymentOf commit = some ctx) :
    paid selects [commit] = if selects ctx then ctx.hAmount.toInt64 else 0 := by
  cases chosen : selects ctx <;> simp [paid, made, chosen]

end Paid

section Columns
variable {P : Platform} {base : Store Bytes Bytes} {world : TpccWorld}

/-- A column that every transaction moves by what it paid has moved, at the end of
a run, by everything that was paid. -/
theorem column_total {row : (Key → Option Bytes) → Option ρ} {column : ρ → Int64}
    {selects : PaymentCtx → Bool} (move : Int64 → Int64 → Int64) (rest : ∀ x, move x 0 = x)
    (compose : ∀ x a b, move (move x a) b = move x (a + b))
    (step : ∀ commit before after, Serial P commit before after →
      (row after).map column = (row before).map fun r => move (column r) (paid selects [commit]))
    (reachable : TpccReachable P base world) :
    (row (tables P.host world.db.store)).map column =
      (row (tables P.host base)).map fun r => move (column r) (paid selects world.db.log) := by
  have total := serial_induction (Q := fun version tables' => (row tables').map column =
    (row (tables P.host base)).map fun r => move (column r) (paid selects (world.db.log.take version)))
    reachable (by simp [paid_nil, rest]) ?_ (Nat.le_refl _)
  · rwa [List.take_length] at total
  · intro version commit logged after serial before
    have moved := congrArg (Option.map (move · (paid selects [commit]))) before
    rw [Option.map_map, Option.map_map] at moved
    rw [step _ _ _ serial, take_logged logged]
    simpa only [Function.comp_def, compose, ← paid_append] using moved

/-- One transaction moves the total of a warehouse by what it pays into that warehouse: its
amount, or nothing. -/
theorem Serial.warehouse_ytd {before after : Key → Option Bytes} (w : UInt32)
    (serial : Serial P commit before after) :
    (warehouseRow P.host after w).map (·.wYtd) =
      (warehouseRow P.host before w).map (·.wYtd + paid (fun ctx => ctx.wId = w) [commit]) := by
  cases serial with
  | order ctx now placed other fits reads writes becomes =>
    rw [becomes, warehouseRow, overwrite_unset (NewOrder.rows_other P ctx now (by simp [Key.table])),
      paid_order _ other]
    simp [warehouseRow]
  | payment ctx cv now made other warehouse district customer writes becomes =>
    rw [becomes, warehouseRow, overwrite, Payment.rows_warehouse, paid_payment _ made]
    by_cases own : ctx.wId = w
    · subst own
      obtain ⟨wv, row, ytd⟩ := warehouse
      simp [warehouseRow, row, Payment.warehouseVal, ytd]
    · simp [warehouseRow, own]

/-- The same for a district, where the payment counts for the district of its customer. -/
theorem Serial.district_ytd {before after : Key → Option Bytes} (w d : UInt32)
    (serial : Serial P commit before after) :
    (districtRow P.host after w d).map (·.dYtd) = (districtRow P.host before w d).map
      (·.dYtd + paid (fun ctx => ctx.cWId = w ∧ ctx.cDId = d) [commit]) := by
  cases serial with
  | order ctx now placed other fits reads writes becomes =>
    rw [becomes, districtRow, overwrite_unset (NewOrder.rows_other P ctx now (by simp [Key.table])),
      paid_order _ other]
    simp [districtRow]
  | payment ctx cv now made other warehouse district customer writes becomes =>
    rw [becomes, districtRow, overwrite, Payment.rows_district, paid_payment _ made]
    by_cases own : ctx.cWId = w ∧ ctx.cDId = d
    · obtain ⟨rfl, rfl⟩ := own
      obtain ⟨dv, row, ytd⟩ := district
      simp [districtRow, row, Payment.districtVal, ytd]
    · simp [districtRow, own]

/-- And for a customer: the balance goes down by what the customer pays, and the sum of payments
goes up by it. -/
theorem Serial.customer_money {before after : Key → Option Bytes} (w d c : UInt32)
    (serial : Serial P commit before after) :
    ((customerRow P.host after w d c).map (·.cBalance) =
      (customerRow P.host before w d c).map
        (·.cBalance - paid (fun ctx => ctx.cWId = w ∧ ctx.cDId = d ∧ ctx.cId = c) [commit])) ∧
    ((customerRow P.host after w d c).map (·.cYtdPayment) =
      (customerRow P.host before w d c).map
        (·.cYtdPayment + paid (fun ctx => ctx.cWId = w ∧ ctx.cDId = d ∧ ctx.cId = c) [commit])) := by
  cases serial with
  | order ctx now placed other fits reads writes becomes =>
    rw [becomes, customerRow, overwrite_unset (NewOrder.rows_other P ctx now (by simp [Key.table])),
      paid_order _ other]
    simp [customerRow]
  | payment ctx cv now made other warehouse district customer writes becomes =>
    rw [becomes, customerRow, overwrite, Payment.rows_customer, paid_payment _ made]
    by_cases own : ctx.cWId = w ∧ ctx.cDId = d ∧ ctx.cId = c
    · obtain ⟨rfl, rfl, rfl⟩ := own
      simp [customerRow, customer.row, Payment.customerVal, customer.balance]
    · simp [customerRow, own]

/-- What a customer has paid over a whole run is the sum of the payments committed for them. -/
theorem ytd_payment_total (reachable : TpccReachable P base world) (w d c : UInt32) :
    (customerRow P.host (tables P.host world.db.store) w d c).map (·.cYtdPayment) =
      (customerRow P.host (tables P.host base) w d c).map
        (·.cYtdPayment + paid (fun ctx => ctx.cWId = w ∧ ctx.cDId = d ∧ ctx.cId = c) world.db.log) :=
  column_total (· + ·) (fun x => by grind) (fun x a b => by grind)
    (fun _ _ _ serial => (serial.customer_money w d c).2) reachable

/-- **No payment is lost.** Every committed payment is one that was asked for, with the
warehouse, the customer's district and the amount of its request; and in every reachable store
each total is its initial value plus, and each balance minus, the sum of the payments
committed on it. -/
theorem no_payment_lost {events : List (Event (NewOrderRequest ⊕ PaymentParams))}
    (ran : (World.initial base).run (tpccClient P) events = some world) :
    (∀ commit ∈ world.db.log, ∀ ctx, paymentOf commit = some ctx →
      ∃ params, asked events commit.author.1 = some (.inr params) ∧ params.Fixes ctx) ∧
    (∀ w, (warehouseRow P.host (tables P.host world.db.store) w).map (·.wYtd) =
      (warehouseRow P.host (tables P.host base) w).map
        (·.wYtd + paid (fun ctx => ctx.wId = w) world.db.log)) ∧
    (∀ w d, (districtRow P.host (tables P.host world.db.store) w d).map (·.dYtd) =
      (districtRow P.host (tables P.host base) w d).map
        (·.dYtd + paid (fun ctx => ctx.cWId = w ∧ ctx.cDId = d) world.db.log)) ∧
    (∀ w d c, (customerRow P.host (tables P.host world.db.store) w d c).map (·.cBalance) =
      (customerRow P.host (tables P.host base) w d c).map
        (·.cBalance - paid (fun ctx => ctx.cWId = w ∧ ctx.cDId = d ∧ ctx.cId = c) world.db.log)) ∧
    (∀ w d c, (customerRow P.host (tables P.host world.db.store) w d c).map (·.cYtdPayment) =
      (customerRow P.host (tables P.host base) w d c).map
        (·.cYtdPayment + paid (fun ctx => ctx.cWId = w ∧ ctx.cDId = d ∧ ctx.cId = c) world.db.log)) := by
  have reachable : TpccReachable P base world := ⟨events, ran⟩
  refine ⟨fun commit member ctx made => payment_asked ran member made, fun w => ?_, fun w d => ?_,
    fun w d c => ?_, fun w d c => ?_⟩
  · exact column_total (· + ·) (fun x => by grind) (fun x a b => by grind)
      (fun _ _ _ serial => serial.warehouse_ytd w) reachable
  · exact column_total (· + ·) (fun x => by grind) (fun x a b => by grind)
      (fun _ _ _ serial => serial.district_ytd w d) reachable
  · exact column_total (· - ·) (fun x => by grind) (fun x a b => by grind)
      (fun _ _ _ serial => (serial.customer_money w d c).1) reachable
  · exact ytd_payment_total reachable w d c

end Columns

/-- A request to pay 100 at warehouse 1 for a customer of some warehouse. -/
def smallPayment (cWId : UInt32) : PaymentParams :=
  { seed := 0, wId := 1, dId := 1, cWId, cDId := 1, cId := 1, cLast := "", byName := false,
    hAmount := 100 }

/-- A payment on the small store, by a customer of either warehouse. -/
theorem small_payment (cWId : UInt32) (known : cWId = 1 ∨ cWId = 2) :
    ∃ world commit ctx, TpccReachable plainPlatform smallLoaded world ∧
      world.db = (World.initial smallLoaded : TpccWorld).db.append commit ∧ paymentOf commit = some ctx ∧
      ctx.wId = 1 ∧ ctx.cWId = cWId ∧ ctx.cDId = 1 ∧ ctx.cId = 1 ∧ ctx.hAmount = 100 := by
  have start : TpccReachable plainPlatform smallLoaded (World.initial smallLoaded) := ⟨[], rfl⟩
  obtain ⟨wv, warehouse, _⟩ := smallLoaded_warehouse 1 (.inl rfl)
  obtain ⟨dv, district, _⟩ := smallLoaded_district cWId known
  have supplied : Payment.Supplied plainPlatform (smallPayment cWId).ctx wv dv PackedRow.zero
      (tables .little smallLoaded) := ⟨warehouse, district, smallLoaded_customer cWId known⟩
  rw [← World.initial_store (L := TpccState) smallLoaded] at supplied
  obtain ⟨world, commit, reached, grown, made⟩ := payment_commits start (smallPayment cWId) 0 supplied
  exact ⟨world, commit, _, reached, grown, made, rfl, rfl, rfl, rfl, rfl⟩

/-- A payment of 100 by a customer of the other warehouse shows in its three rows, and is the
one that was asked for. -/
theorem no_payment_lost_remote :
    ∃ world commit, TpccReachable plainPlatform smallLoaded world ∧ world.db.log = [commit] ∧
      (warehouseRow .little (tables .little world.db.store) 1).map (·.wYtd) = some 30000100 ∧
      (districtRow .little (tables .little world.db.store) 2 1).map (·.dYtd) = some 3000100 ∧
      (customerRow .little (tables .little world.db.store) 2 1 1).map (·.cBalance) = some (-100) := by
  obtain ⟨world, commit, ctx, reached, grown, made, w, cw, cd, c, amount⟩ := small_payment 2 (.inr rfl)
  have log : world.db.log = [commit] := by rw [grown]; rfl
  obtain ⟨wv, warehouse, wYtd⟩ := smallLoaded_warehouse 1 (.inl rfl)
  obtain ⟨dv, district, dYtd, _⟩ := smallLoaded_district 2 (.inr rfl)
  have customer := smallLoaded_customer 2 (.inr rfl)
  obtain ⟨events, ran⟩ := reached
  obtain ⟨_, warehouses, districts, customers, _⟩ := no_payment_lost ran
  refine ⟨world, commit, ⟨events, ran⟩, log, (warehouses 1).trans ?_, (districts 2 1).trans ?_,
    (customers 2 1 1).trans ?_⟩
  · rw [log, paid_payment _ made, w, amount]
    change (warehouseRow .little (tables .little smallLoaded) 1).map _ = _
    simp [warehouse, wYtd]
  · rw [log, paid_payment _ made, cw, cd, amount]
    change (districtRow .little (tables .little smallLoaded) 2 1).map _ = _
    simp [district, dYtd]
  · rw [log, paid_payment _ made, cw, cd, c, amount]
    change (customerRow .little (tables .little smallLoaded) 2 1 1).map _ = _
    simp [customer, PackedRow.zero]

end H2oTpcc

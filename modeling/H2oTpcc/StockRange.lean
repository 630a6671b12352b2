import H2oTpcc.OrderIds

/-! The stock quantities. A line takes its quantity off the stock, and below 10 the
warehouse restocks 91: with lines of at most 10 pieces that keeps every stock between
10 and 100, where the `int32_t` arithmetic is that of the integers. -/
namespace H2oTpcc

def stockRow (host : Endian) (tables : Key → Option Bytes) (w i : UInt32) : Option StockVal :=
  asRow host (tables (.stock w i))

def StockVal.InRange (sv : StockVal) : Prop := 10 ≤ sv.sQuantity.toInt ∧ sv.sQuantity.toInt ≤ 100

/-- Every stock row has a quantity from 10 to 100. -/
def StockInRange (host : Endian) (tables : Key → Option Bytes) : Prop :=
  ∀ w i, ∀ sv ∈ stockRow host tables w i, sv.InRange

/-- Every line of the order is for 1 to 10 pieces. -/
def OrdersFew (ctx : NewOrderCtx) : Prop :=
  ∀ i < ctx.olCnt.toNat, 1 ≤ (ctx.olQuantity i).toNat ∧ (ctx.olQuantity i).toNat ≤ 10

/-- The quantity left after a line, in the integers. -/
def restocked (quantity line : Int) : Int :=
  if quantity - line < 10 then quantity - line + 91 else quantity - line

/-! ## The arithmetic -/

theorem toInt_widened (q : UInt8) : q.toUInt32.toInt32.toInt = q.toNat := by
  have small := q.toNat_lt
  have same : q.toUInt32.toNat = q.toNat := UInt8.toNat_toUInt32 q
  change q.toUInt32.toBitVec.toInt = _
  rw [BitVec.toInt_eq_toNat_cond]
  change (if 2 * q.toUInt32.toNat < _ then (q.toUInt32.toNat : Int) else q.toUInt32.toNat - _) = _
  rw [same, if_pos (by omega)]

/-- Taking a line off a stock overflows only at the very bottom of the range. -/
theorem sub_line_toInt {quantity : Int32} (q : UInt8) (room : -2 ^ 31 ≤ quantity.toInt - q.toNat) :
    (quantity - q.toUInt32.toInt32).toInt = quantity.toInt - q.toNat := by
  have small := q.toNat_lt
  have most := quantity.toInt_lt
  rw [Int32.toInt_sub, toInt_widened, Int.bmod_eq_of_le (by omega) (by omega)]

/-- The code's new quantity is that of the rule in the integers, if taking the line does not
overflow; the restock never does. -/
theorem newQty_toInt {quantity : Int32} (q : UInt8) (room : -2 ^ 31 ≤ quantity.toInt - q.toNat) :
    (NewOrder.newQty quantity q).toInt = restocked quantity.toInt q.toNat := by
  have small := q.toNat_lt
  have left := sub_line_toInt q room
  have low : quantity - q.toUInt32.toInt32 < 10 ↔ quantity.toInt - q.toNat < 10 := by
    rw [Int32.lt_iff_toInt_lt, left]
    rfl
  unfold NewOrder.newQty restocked
  by_cases few : quantity.toInt - q.toNat < 10
  · rw [if_pos few, if_pos (low.mpr few), Int32.toInt_add, left]
    change (quantity.toInt - q.toNat + 91).bmod (2 ^ 32) = _
    exact Int.bmod_eq_of_le (by omega) (by omega)
  · rw [if_neg few, if_neg (mt low.mp few), left]

/-- Where it does overflow, a quantity far below zero becomes one far above. -/
theorem newQty_overflow {quantity : Int32} (q : UInt8) (below : quantity.toInt - q.toNat < -2 ^ 31) :
    (NewOrder.newQty quantity q).toInt = quantity.toInt - q.toNat + 2 ^ 32 := by
  have small := q.toNat_lt
  have least := quantity.le_toInt
  have left : (quantity - q.toUInt32.toInt32).toInt = quantity.toInt - q.toNat + 2 ^ 32 := by
    rw [Int32.toInt_sub, toInt_widened, ← Int.add_bmod_right, Int.bmod_eq_of_le (by omega) (by omega)]
    rfl
  have many : ¬ quantity - q.toUInt32.toInt32 < 10 := by
    rw [Int32.lt_iff_toInt_lt, left]
    change ¬ _ < (10 : Int)
    omega
  unfold NewOrder.newQty
  rw [if_neg many, left]

/-- Within the range of the stock the difference does not overflow. -/
theorem StockVal.InRange.sub {sv : StockVal} (inRange : sv.InRange) (q : UInt8) :
    (sv.sQuantity - q.toUInt32.toInt32).toInt = sv.sQuantity.toInt - q.toNat :=
  sub_line_toInt q (by have := inRange.1; have := q.toNat_lt; omega)

/-- Within the range of the stock the code's arithmetic in `int32_t` is that of the rule in the
integers. -/
theorem StockVal.InRange.newQty {sv : StockVal} (inRange : sv.InRange) (q : UInt8) :
    (NewOrder.newQty sv.sQuantity q).toInt = restocked sv.sQuantity.toInt q.toNat :=
  newQty_toInt q (by have := inRange.1; have := q.toNat_lt; omega)

/-- The two branches of the restock meet at the bounds. -/
private theorem restocked_inRange {quantity line : Int} (stock : 10 ≤ quantity ∧ quantity ≤ 100)
    (few : 1 ≤ line ∧ line ≤ 10) : 10 ≤ restocked quantity line ∧ restocked quantity line ≤ 100 := by
  unfold restocked
  split <;> omega

/-! ## Runs -/

section Runs
variable {P : Platform}

private theorem Serial.stockInRange {commit : TpccCommit} {before after : Key → Option Bytes}
    (serial : Serial P commit before after) (few : ∀ ctx, orderOf commit = some ctx → OrdersFew ctx)
    (inRange : StockInRange P.host before) : StockInRange P.host after := by
  intro w i sv row
  rw [Option.mem_def, stockRow] at row
  cases serial with
  | order ctx now placed other fits reads writes becomes =>
    rw [becomes] at row
    rcases overwrite_cases before (NewOrder.rows P ctx now) (.stock w i) with ⟨value, member, found⟩ | kept
    · -- The last line for the item decides, and every line has read a stock in range.
      obtain ⟨line, below, _, rfl⟩ := NewOrder.mem_rows_stock.mp member
      rw [found, asRow_encode] at row
      cases row
      obtain ⟨sv, read, left, _⟩ := reads.stock line below
      have stock := inRange _ _ sv read
      rw [StockVal.InRange, NewOrder.stockVal, left, stock.newQty]
      exact restocked_inRange stock (by have := few ctx placed line below; omega)
    · rw [kept] at row
      exact inRange w i sv row
  | payment ctx cv now paid other warehouse district customer writes becomes =>
    rw [becomes, overwrite_unset (Payment.rows_other P ctx cv now (by simp [Key.table]))] at row
    exact inRange w i sv row

/-- **Stock stays in range.** From a store with every stock from 10 to 100, orders of 1 to
10 pieces a line leave every stock there in every store of the run, and no line that any
order may take off such a stock overflows. -/
theorem stock_stays_in_range {base : Store Bytes Bytes} {world : TpccWorld}
    (reachable : TpccReachable P base world) (start : StockInRange P.host (tables P.host base))
    (few : ∀ commit ∈ world.db.log, ∀ ctx, orderOf commit = some ctx → OrdersFew ctx)
    (version : Nat) (within : version ≤ world.db.log.length) :
    StockInRange P.host (tables P.host (world.db.asOf version)) ∧
      ∀ w i, ∀ sv ∈ stockRow P.host (tables P.host (world.db.asOf version)) w i, ∀ q : UInt8,
        (sv.sQuantity - q.toUInt32.toInt32).toInt = sv.sQuantity.toInt - q.toNat ∧
        (NewOrder.newQty sv.sQuantity q).toInt = restocked sv.sQuantity.toInt q.toNat := by
  have inRange := serial_induction (Q := fun _ tables => StockInRange P.host tables) reachable start
    (fun version commit logged after serial before =>
      serial.stockInRange (few commit (List.mem_of_getElem? logged)) before) within
  exact ⟨inRange, fun w i sv row q => ⟨(inRange w i sv row).sub q, (inRange w i sv row).newQty q⟩⟩

end Runs

/-- The rows that the small order needs, with 12 pieces in stock. -/
def stockedRows : List (Key × Bytes) :=
  [(.district 1 1, encode .little (PackedRow.zero : DistrictVal)),
    (.customer 1 1 1, encode .little (PackedRow.zero : CustomerVal)),
    (.stock 1 1, encode .little { (PackedRow.zero : StockVal) with sQuantity := 12 })]

/-- Six lines of five pieces for the same item, which is restocked. -/
theorem stock_stays_in_range_small : ∃ world commit,
    TpccReachable plainPlatform (applyWrites ∅ (built .little stockedRows)) world ∧
    world.db.log = [commit] ∧ (orderOf commit).isSome ∧
    StockInRange .little (tables .little world.db.store) := by
  let base : Store Bytes Bytes := applyWrites ∅ (built .little stockedRows)
  have rows (key : Key) : tables .little base key = lastWrite stockedRows key := tables_only _ _ _
  have start : TpccReachable plainPlatform base (World.initial base) := ⟨[], rfl⟩
  have stocked : StockInRange .little (tables .little base) := by
    intro w i sv row
    rw [Option.mem_def, stockRow, rows] at row
    by_cases own : w = 1 ∧ i = 1
    · obtain ⟨rfl, rfl⟩ := own
      simp [stockedRows] at row
      subst row
      exact ⟨by decide, by decide⟩
    · simp [stockedRows, eq_comm, own] at row
  have supplied : NewOrder.Supplied plainPlatform (smallOrder 6 (by decide)).val.ctx PackedRow.zero
      (tables .little base) := by
    refine ⟨by decide, ?_, ⟨PackedRow.zero, ?_⟩,
      fun _ _ => ⟨{ (PackedRow.zero : StockVal) with sQuantity := 12 }, ?_⟩⟩ <;>
    rw [rows] <;> simp [stockedRows, smallOrder, NewOrderParams.ctx, plainPlatform]
  rw [← World.initial_store (L := TpccState) base] at supplied
  obtain ⟨world, commit, _, _, _, reached, grown, placed⟩ :=
    order_commits start (smallOrder 6 (by decide)) 0 supplied
  have log : world.db.log = [commit] := by rw [grown]; rfl
  refine ⟨world, commit, reached, log, by rw [placed]; rfl, ?_⟩
  refine (stock_stays_in_range (P := plainPlatform) reached stocked ?_ _ (Nat.le_refl _)).1
  intro commit' member ctx placed' i below
  rw [log, List.mem_singleton] at member
  subst member
  cases placed.symm.trans placed'
  change 1 ≤ (5 : UInt8).toNat ∧ (5 : UInt8).toNat ≤ 10
  decide

end H2oTpcc

import H2oTpcc.StockRange

/-! What the lines of an order leave in the stock rows. Every line reads its row
before any line is written, and a row is written whole from what its own line
knows: of several lines for one row the last one decides, and nothing of the row
read but its quantity survives. -/
namespace H2oTpcc

namespace NewOrder

/-- The lines of the order for one stock row, in line order. -/
def linesFor (ctx : NewOrderCtx) (w i : UInt32) : List Nat :=
  (List.range ctx.olCnt.toNat).filter fun line =>
    decide ((ctx.olSupplyW line).toUInt32 = w ∧ ctx.olIId line = i)

/-- Their quantities. -/
def quantitiesFor (ctx : NewOrderCtx) (w i : UInt32) : List UInt8 :=
  (linesFor ctx w i).map ctx.olQuantity

private theorem quantitiesFor_length (ctx : NewOrderCtx) (w i : UInt32) :
    (quantitiesFor ctx w i).length ≤ ctx.olCnt.toNat := by
  rw [quantitiesFor, List.length_map]
  exact (List.length_filter_le _ _).trans (Nat.le_of_eq List.length_range)

private theorem quantitiesFor_last {ctx : NewOrderCtx} {w i : UInt32} {last : UInt8} :
    (quantitiesFor ctx w i).getLast? = some last ↔
      ∃ line, (linesFor ctx w i).getLast? = some line ∧ ctx.olQuantity line = last := by
  rw [quantitiesFor, List.getLast?_map, Option.map_eq_some_iff]

variable (P : Platform) (ctx : NewOrderCtx) (now : Int64)

variable {ctx} in
private theorem mem_linesFor {w i : UInt32} {line : Nat} :
    line ∈ linesFor ctx w i ↔
      line < ctx.olCnt.toNat ∧ (ctx.olSupplyW line).toUInt32 = w ∧ ctx.olIId line = i := by
  simp [linesFor]

private theorem rows_stock (w i : UInt32) :
    lastWrite (rows P ctx now) (.stock w i) =
      (linesFor ctx w i).getLast?.map fun line => encode P.host (stockVal ctx line) := by
  have loop := lastWrite_loop (List.range ctx.olCnt.toNat)
    (fun line => Key.stock (ctx.olSupplyW line).toUInt32 (ctx.olIId line))
    (fun line => encode P.host (stockVal ctx line)) (.stock w i)
  simp only [Key.stock.injEq] at loop
  simp only [rows, lastWrite_append]
  rw [loop, lastWrite_range_none (fun line => Key.orderLine ctx.wId ctx.dId ctx.dNextOId.toUInt32
    (UInt32.ofNat (line + 1))) _ (fun line _ => by simp)]
  simp [linesFor]

/-- The stock row after an order: that of the last of its lines, or as it was. -/
theorem stockRow_after (before : Key → Option Bytes) (w i : UInt32) :
    stockRow P.host (overwrite before (rows P ctx now)) w i =
      match (linesFor ctx w i).getLast? with
      | some line => some (stockVal ctx line)
      | none => stockRow P.host before w i := by
  rw [stockRow, overwrite, rows_stock]
  cases (linesFor ctx w i).getLast? with
  | some line => simp
  | none => rfl

variable {P ctx} in
/-- The last line for a row has taken its quantity off what the row held before the order. -/
theorem ReadFrom.last_line {before : Key → Option Bytes} (reads : ReadFrom P ctx ctx.olCnt.toNat before)
    {w i : UInt32} {line : Nat} {sv : StockVal} (row : stockRow P.host before w i = some sv)
    (final : (linesFor ctx w i).getLast? = some line) :
    (stockVal ctx line).sQuantity = newQty sv.sQuantity (ctx.olQuantity line) := by
  obtain ⟨below, rfl, rfl⟩ := mem_linesFor.mp (List.mem_of_getLast? final)
  obtain ⟨read, row', quantity, _⟩ := reads.stock line below
  cases row.symm.trans row'
  exact quantity

end NewOrder

/-! ## The quantity -/

/-- The rule of the restock applied once per line, in the integers. -/
def takeLines (quantity : Int) (lines : List UInt8) : Int :=
  lines.foldl (fun quantity line => restocked quantity line.toNat) quantity

private theorem takeLines_le (quantity : Int) (lines : List UInt8) :
    takeLines quantity lines ≤ quantity + 91 * lines.length := by
  induction lines generalizing quantity with
  | nil => simp [takeLines]
  | cons line rest ih =>
    have first : restocked quantity line.toNat ≤ quantity + 91 := by
      unfold restocked
      split <;> omega
    have whole := ih (restocked quantity line.toNat)
    change takeLines (restocked quantity line.toNat) rest ≤ _
    simp only [List.length_cons]
    omega

/-- The lines leave what `on_stock_read` computes from the last of them just if they leave
what the rule makes of it alone: where the subtraction overflows, they never do. -/
theorem takeLines_eq_newQty_iff {quantity : Int32} {lines : List UInt8} {last : UInt8}
    (few : lines.length ≤ maxOrderLines) :
    takeLines quantity.toInt lines = (NewOrder.newQty quantity last).toInt ↔
      takeLines quantity.toInt lines = takeLines quantity.toInt [last] ∧
        -2 ^ 31 ≤ quantity.toInt - last.toNat := by
  by_cases room : -2 ^ 31 ≤ quantity.toInt - last.toNat
  · rw [newQty_toInt last room, and_iff_left room]
    rfl
  · have low := takeLines_le quantity.toInt lines
    have wrapped := newQty_overflow last (Int.not_le.mp room)
    have least := quantity.le_toInt
    have small := last.toNat_lt
    have most : maxOrderLines = 15 := rfl
    refine iff_of_false (fun same => ?_) fun both => room both.2
    omega

section Quantity
variable {P : Platform} {base : Store Bytes Bytes} {world : TpccWorld}

/-- **Each order line takes its stock** exactly when, on every row, the rule applied to all
lines leaves what it leaves applied to the last one alone, and that line does not overflow. -/
theorem stock_taken_iff (reachable : TpccReachable P base world)
    (logged : world.db.log[version]? = some commit) (placed : orderOf commit = some ctx) :
    (∀ w i sv, stockRow P.host (tables P.host (world.db.asOf version)) w i = some sv →
      (stockRow P.host (tables P.host (world.db.asOf (version + 1))) w i).map (·.sQuantity.toInt) =
        some (takeLines sv.sQuantity.toInt (NewOrder.quantitiesFor ctx w i))) ↔
    ∀ w i sv last, stockRow P.host (tables P.host (world.db.asOf version)) w i = some sv →
      (NewOrder.quantitiesFor ctx w i).getLast? = some last →
      takeLines sv.sQuantity.toInt (NewOrder.quantitiesFor ctx w i) =
          takeLines sv.sQuantity.toInt [last] ∧
        -2 ^ 31 ≤ sv.sQuantity.toInt - last.toNat := by
  obtain ⟨fits, reads, now, _, becomes⟩ := (serial_step reachable logged).of_order placed
  rw [becomes]
  refine forall₃_congr fun w i sv => ?_
  simp only [← takeLines_eq_newQty_iff ((NewOrder.quantitiesFor_length ctx w i).trans fits)]
  rw [NewOrder.stockRow_after]
  constructor
  · intro taken last row found
    obtain ⟨line, final, rfl⟩ := NewOrder.quantitiesFor_last.mp found
    have left := taken row
    rw [final, Option.map_some, reads.last_line row final] at left
    exact (Option.some_inj.mp left).symm
  · intro alone row
    cases final : (NewOrder.linesFor ctx w i).getLast? with
    | none =>
      have none : NewOrder.linesFor ctx w i = [] := List.getLast?_eq_none_iff.mp final
      simp [row, NewOrder.quantitiesFor, none, takeLines]
    | some line =>
      have same := alone _ row (NewOrder.quantitiesFor_last.mpr ⟨line, final, rfl⟩)
      rw [Option.map_some, reads.last_line row final, same]

/-- Lines that name different rows meet the condition, short of an overflow. -/
theorem distinct_lines_suffice {ctx : NewOrderCtx} {w i : UInt32} {quantity : Int32} {last : UInt8}
    (single : (NewOrder.linesFor ctx w i).length ≤ 1) (room : -2 ^ 31 + 255 ≤ quantity.toInt)
    (found : (NewOrder.quantitiesFor ctx w i).getLast? = some last) :
    takeLines quantity.toInt (NewOrder.quantitiesFor ctx w i) = takeLines quantity.toInt [last] ∧
      -2 ^ 31 ≤ quantity.toInt - last.toNat := by
  have only : NewOrder.quantitiesFor ctx w i = [last] := by
    have short : (NewOrder.quantitiesFor ctx w i).length ≤ 1 := by
      rwa [NewOrder.quantitiesFor, List.length_map]
    generalize NewOrder.quantitiesFor ctx w i = lines at found short
    match lines, short with
    | [line], _ => simpa using found
  have small := last.toNat_lt
  exact ⟨by rw [only], by omega⟩

end Quantity

/-- An order of some lines of item 1 on the small store, and the stock before it. -/
theorem small_order_stock (lines : UInt8) (fits : lines.toNat ≤ maxOrderLines) :
    ∃ world commit ctx, TpccReachable plainPlatform smallLoaded world ∧ world.db.log = [commit] ∧
      orderOf commit = some ctx ∧
      NewOrder.linesFor ctx = NewOrder.linesFor (smallOrder lines fits).val.ctx ∧
      NewOrder.quantitiesFor ctx = NewOrder.quantitiesFor (smallOrder lines fits).val.ctx ∧
      stockRow .little (tables .little (world.db.asOf 0)) 1 1 = some PackedRow.zero := by
  have start : TpccReachable plainPlatform smallLoaded (World.initial smallLoaded) := ⟨[], rfl⟩
  obtain ⟨dv, _, supplied⟩ := smallOrder_supplied lines fits
  rw [← World.initial_store (L := TpccState) smallLoaded] at supplied
  obtain ⟨world, commit, _, _, _, reached, grown, placed⟩ :=
    order_commits start (smallOrder lines fits) 0 supplied
  refine ⟨world, commit, _, reached, by rw [grown]; rfl, placed, rfl, rfl, ?_⟩
  rw [Database.asOf_zero, World.reachable_base reached]
  exact smallLoaded_stock

/-- Six lines of five pieces for one item that is sold out: 86 pieces are left,
not 61. -/
theorem last_line_forgets : ∃ world commit ctx,
    TpccReachable plainPlatform smallLoaded world ∧ world.db.log[0]? = some commit ∧
      orderOf commit = some ctx ∧ NewOrder.quantitiesFor ctx 1 1 = [5, 5, 5, 5, 5, 5] ∧
      stockRow .little (tables .little (world.db.asOf 0)) 1 1 = some PackedRow.zero ∧
      takeLines (PackedRow.zero : StockVal).sQuantity.toInt (NewOrder.quantitiesFor ctx 1 1) = 61 ∧
      (stockRow .little (tables .little (world.db.asOf 1)) 1 1).map (·.sQuantity.toInt) =
        some 86 := by
  obtain ⟨world, commit, ctx, reached, log, placed, lines, quantities, stock⟩ :=
    small_order_stock 6 (by decide)
  have logged : world.db.log[0]? = some commit := by rw [log]; rfl
  have six : NewOrder.quantitiesFor ctx 1 1 = [5, 5, 5, 5, 5, 5] := by rw [quantities]; decide
  refine ⟨world, commit, ctx, reached, logged, placed, six, stock, by rw [six]; decide, ?_⟩
  obtain ⟨_, reads, now, _, becomes⟩ := (serial_step reached logged).of_order placed
  have final : (NewOrder.linesFor ctx 1 1).getLast? = some 5 := by rw [lines]; decide
  obtain ⟨line, final', last⟩ := NewOrder.quantitiesFor_last.mp (congrArg List.getLast? six)
  cases final.symm.trans final'
  have left := reads.last_line stock final
  rw [last] at left
  rw [show tables Endian.little (world.db.asOf 1) = _ from becomes,
    show stockRow Endian.little _ 1 1 = _ from NewOrder.stockRow_after plainPlatform ctx now _ 1 1,
    final, Option.map_some, left]
  decide

/-- A single line meets the condition, and its pieces are taken. -/
theorem stock_taken_iff_one : ∃ world commit ctx,
    TpccReachable plainPlatform smallLoaded world ∧ world.db.log[0]? = some commit ∧
      orderOf commit = some ctx ∧ NewOrder.quantitiesFor ctx 1 1 = [5] ∧
      stockRow .little (tables .little (world.db.asOf 0)) 1 1 = some PackedRow.zero ∧
      (stockRow .little (tables .little (world.db.asOf 1)) 1 1).map (·.sQuantity.toInt) =
        some (takeLines 0 (NewOrder.quantitiesFor ctx 1 1)) := by
  obtain ⟨world, commit, ctx, reached, log, placed, lines, quantities, stock⟩ :=
    small_order_stock 1 (by decide)
  have logged : world.db.log[0]? = some commit := by rw [log]; rfl
  refine ⟨world, commit, ctx, reached, logged, placed, by rw [quantities]; decide, stock,
    (stock_taken_iff reached logged placed).mpr ?_ 1 1 PackedRow.zero stock⟩
  intro w i sv last row found
  have single : (NewOrder.linesFor ctx w i).length ≤ 1 := by
    rw [lines]
    exact List.length_filter_le _ _
  obtain ⟨line, final, _⟩ := NewOrder.quantitiesFor_last.mp found
  rw [lines] at final
  obtain ⟨_, rfl, rfl⟩ := NewOrder.mem_linesFor.mp (List.mem_of_getLast? final)
  cases row.symm.trans stock
  exact distinct_lines_suffice single (by decide) found

/-! ## The statistics -/

/-- The quantities of all lines for one stock row that some commits placed. -/
def committedLines (log : List TpccCommit) (w i : UInt32) : List UInt8 :=
  log.flatMap fun commit =>
    match orderOf commit with
    | some ctx => NewOrder.quantitiesFor ctx w i
    | none => []

private theorem committedLines_order {commit : TpccCommit} (placed : orderOf commit = some ctx)
    (w i : UInt32) :
    committedLines [commit] w i = NewOrder.quantitiesFor ctx w i := by
  simp [committedLines, placed]

/-- What is left of a stock row after some lines for it: the row is that of the
last of them. -/
def LeftByLines (host : Endian) (before after : Key → Option Bytes) (w i : UInt32)
    (lines : List UInt8) : Prop :=
  match lines.getLast? with
  | none => stockRow host after w i = stockRow host before w i
  | some last => ∃ sv, stockRow host after w i = some sv ∧
      sv.sYtd = last.toUInt32.toInt32 ∧ sv.sOrderCnt = 1 ∧ sv.sDist = .zero 240 ∧ sv.sData = .zero 50

/-- Every stock row counts these lines on top of what it started with, and keeps
its texts. -/
def Accumulates (host : Endian) (before after : Key → Option Bytes)
    (lines : UInt32 → UInt32 → List UInt8) : Prop :=
  ∀ w i start, stockRow host before w i = some start → ∃ sv, stockRow host after w i = some sv ∧
    sv.sYtd.toInt = start.sYtd.toInt + ((lines w i).map fun line => (line.toNat : Int)).sum ∧
    sv.sOrderCnt.toInt = start.sOrderCnt.toInt + (lines w i).length ∧
    sv.sDist = start.sDist ∧ sv.sData = start.sData

section Statistics
variable {P : Platform} {base : Store Bytes Bytes} {world : TpccWorld}

private theorem Serial.leftByLines {commit : TpccCommit} {start before after : Key → Option Bytes}
    (serial : Serial P commit before after) {w i : UInt32} {lines : List UInt8}
    (left : LeftByLines P.host start before w i lines) :
    LeftByLines P.host start after w i (lines ++ committedLines [commit] w i) := by
  cases serial with
  | order ctx now placed other fits reads writes becomes =>
    have row := NewOrder.stockRow_after P ctx now before w i
    unfold LeftByLines
    rw [committedLines_order placed, becomes, row, List.getLast?_append, NewOrder.quantitiesFor,
      List.getLast?_map]
    cases (NewOrder.linesFor ctx w i).getLast? with
    | none => exact left
    | some line => exact ⟨_, rfl, rfl, rfl, rfl, rfl⟩
  | payment ctx cv now paid other warehouse district customer writes becomes =>
    have none : committedLines [commit] w i = [] := by simp [committedLines, other]
    have row : stockRow P.host after w i = stockRow P.host before w i := by
      rw [becomes, stockRow, overwrite_unset (Payment.rows_other P ctx cv now (by simp [Key.table]))]
      rfl
    unfold LeftByLines
    rw [none, List.append_nil, row]
    exact left

private theorem stock_left_by_lines (reachable : TpccReachable P base world) (w i : UInt32)
    (within : version ≤ world.db.log.length) :
    LeftByLines P.host (tables P.host base) (tables P.host (world.db.asOf version)) w i
      (committedLines (world.db.log.take version) w i) := by
  refine serial_induction (Q := fun version tables' => LeftByLines P.host (tables P.host base) tables'
    w i (committedLines (world.db.log.take version) w i)) reachable rfl ?_ within
  intro version commit logged after serial left
  rw [take_logged logged]
  simpa only [committedLines, List.flatMap_append] using serial.leftByLines left

/-- **Stock statistics accumulate** exactly when every row that was ordered started
from what the last of its lines writes, less all of its lines: with a single line,
from a row without statistics and without texts. -/
theorem stock_statistics_iff (reachable : TpccReachable P base world) (version : Nat)
    (within : version ≤ world.db.log.length) :
    Accumulates P.host (tables P.host base) (tables P.host (world.db.asOf version))
      (committedLines (world.db.log.take version)) ↔
    ∀ w i start last, stockRow P.host (tables P.host base) w i = some start →
      (committedLines (world.db.log.take version) w i).getLast? = some last →
      start.sYtd.toInt = last.toNat -
        ((committedLines (world.db.log.take version) w i).map fun line => (line.toNat : Int)).sum ∧
      start.sOrderCnt.toInt = 1 - (committedLines (world.db.log.take version) w i).length ∧
      start.sDist = .zero 240 ∧ start.sData = .zero 50 := by
  refine forall₃_congr fun w i start => ?_
  have left := stock_left_by_lines reachable w i within
  generalize committedLines (world.db.log.take version) w i = lines at left
  unfold LeftByLines at left
  constructor
  · intro accumulates last row found
    obtain ⟨sv, row', ytd, count, dist, data⟩ := accumulates row
    rw [found] at left
    obtain ⟨_, row'', ytd', count', dist', data'⟩ := left
    cases row'.symm.trans row''
    rw [ytd', toInt_widened] at ytd
    rw [count', show (1 : Int32).toInt = 1 from rfl] at count
    exact ⟨by omega, by omega, dist.symm.trans dist', data.symm.trans data'⟩
  · intro started row
    cases found : lines.getLast? with
    | none =>
      rw [found] at left
      rw [List.getLast?_eq_none_iff.mp found]
      exact ⟨start, left.trans row, by simp, by simp, rfl, rfl⟩
    | some last =>
      rw [found] at left
      obtain ⟨sv, row', ytd, count, dist, data⟩ := left
      obtain ⟨ytd', count', dist', data'⟩ := started last row found
      refine ⟨sv, row', ?_, ?_, dist.trans dist'.symm, data.trans data'.symm⟩
      · rw [ytd, toInt_widened]
        omega
      · rw [count, show (1 : Int32).toInt = 1 from rfl]
        omega

end Statistics

/-- Six lines of five pieces of one item: the row shows one line and five pieces, since each set
of it starts from zero. -/
theorem statistics_overwritten : ∃ world, TpccReachable plainPlatform smallLoaded world ∧
    committedLines world.db.log 1 1 = [5, 5, 5, 5, 5, 5] ∧
    stockRow .little (tables .little smallLoaded) 1 1 = some PackedRow.zero ∧
    (∃ sv, stockRow .little (tables .little world.db.store) 1 1 = some sv ∧
      sv.sYtd.toInt = 5 ∧ sv.sOrderCnt.toInt = 1) ∧
    ¬ Accumulates .little (tables .little smallLoaded) (tables .little world.db.store)
      (committedLines world.db.log) := by
  obtain ⟨world, commit, ctx, reached, log, placed, lines, quantities, stock⟩ :=
    small_order_stock 6 (by decide)
  have six : committedLines world.db.log 1 1 = [5, 5, 5, 5, 5, 5] := by
    rw [log, committedLines_order placed, quantities]
    decide
  rw [Database.asOf_zero, World.reachable_base reached] at stock
  have left := stock_left_by_lines reached 1 1 (Nat.le_refl _)
  rw [List.take_length, six] at left
  obtain ⟨sv, row, ytd, count, _, _⟩ := left
  refine ⟨world, reached, six, stock, ⟨sv, row, by rw [ytd]; decide, by rw [count]; decide⟩, ?_⟩
  intro accumulates
  obtain ⟨sv', row', ytd', _⟩ := accumulates 1 1 _ stock
  cases row'.symm.trans row
  rw [ytd, six] at ytd'
  exact absurd ytd' (by decide)

/-- A row without statistics and texts, ordered once, meets the condition. -/
theorem stock_statistics_iff_once : ∃ world, TpccReachable plainPlatform smallLoaded world ∧
    committedLines world.db.log 1 1 = [5] ∧
    Accumulates .little (tables .little smallLoaded) (tables .little world.db.store)
      (committedLines world.db.log) := by
  obtain ⟨world, commit, ctx, reached, log, placed, lines, quantities, stock⟩ :=
    small_order_stock 1 (by decide)
  have placedLines (w i : UInt32) : committedLines world.db.log w i =
      NewOrder.quantitiesFor (smallOrder 1 (by decide)).val.ctx w i := by
    rw [log, committedLines_order placed, quantities]
  have once : committedLines world.db.log 1 1 = [5] := by
    rw [placedLines]
    decide
  rw [Database.asOf_zero, World.reachable_base reached] at stock
  have accumulates := (stock_statistics_iff (P := plainPlatform) reached world.db.log.length
    (Nat.le_refl _)).mpr ?_
  · rw [List.take_length] at accumulates
    exact ⟨world, reached, once, accumulates⟩
  · rw [List.take_length]
    intro w i start last row found
    rw [placedLines] at found
    obtain ⟨line, final, _⟩ := NewOrder.quantitiesFor_last.mp found
    obtain ⟨_, supply, item⟩ := NewOrder.mem_linesFor.mp (List.mem_of_getLast? final)
    obtain rfl : 1 = w := supply
    obtain rfl : 1 = i := item
    cases row.symm.trans stock
    rw [← placedLines, once] at found
    rw [once]
    cases found
    exact ⟨by decide, by decide, rfl, rfl⟩

end H2oTpcc

import H2oTpcc.KeyOrder
import H2oTpcc.Loader
import H2oTpcc.ReadTxns

/-! The range read of `fdb_database.c` and its one caller, StockLevel. -/
namespace H2oTpcc

/-! ## What is asked for -/

/-- The rows `fdb_async_get_range` asks for: for both ends it passes 0 as `or_equal`
and 0 as the offset. -/
def requestedRows (store : Store Bytes Bytes) (first last : Bytes) : List (Bytes × Bytes) :=
  rangeRead store { key := first, orEqual := false, offset := 0 }
    { key := last, orEqual := false, offset := 0 }

/-- The rows of the store whose keys lie in the interval, in key order. -/
def intervalRows (store : Store Bytes Bytes) (first last : Bytes) : List (Bytes × Bytes) :=
  store.toList.filter fun row => decide (Within first last row.1)

/-- An offset of 0 stops at the last key below, one row before the first key that
is not. -/
theorem requestedRows_eq (store : Store Bytes Bytes) (first last : Bytes) :
    requestedRows store first last =
      (store.toList.take ((store.toList.countP fun row => compare row.1 last == .lt) - 1)).drop
        ((store.toList.countP fun row => compare row.1 first == .lt) - 1) := by
  have resolved : ∀ key, ({ key, orEqual := false, offset := 0 } : KeySelector Bytes).resolve
      store.toList = (store.toList.countP fun row => compare row.1 key == .lt) - 1 := by
    intro key
    have bound := List.countP_le_length (l := store.toList) (p := fun row => compare row.1 key == .lt)
    simp only [KeySelector.resolve, KeySelector.below, Bool.false_eq_true, if_false]
    omega
  rw [requestedRows, rangeRead, resolved, resolved]

private theorem toList_nodup (store : Store Bytes Bytes) : store.toList.Nodup := by
  apply Std.ExtTreeMap.distinct_keys_toList.imp
  intro a b different same
  rw [same, Std.ReflOrd.compare_self] at different
  exact different rfl

/-- **The range read covers the interval** only if there is nothing in it: the selectors that
the source passes put both ends one row too early, so that the last row is missed and a foreign
one is read. -/
theorem range_read_covers_iff (store : Store Bytes Bytes) (first last : Bytes)
    (order : compare first last ≠ .gt) :
    requestedRows store first last = intervalRows store first last ↔
      ∀ row ∈ store.toList, ¬ Within first last row.1 := by
  have ends : (store.toList.countP fun row => compare row.1 first == .lt) ≤
      store.toList.countP fun row => compare row.1 last == .lt := by
    apply List.countP_mono_left
    intro row _ below
    rw [beq_iff_eq] at below ⊢
    exact Std.TransCmp.lt_of_lt_of_isLE below (Ordering.isLE_iff_ne_gt.mpr order)
  have none : (∀ row ∈ store.toList, ¬ Within first last row.1) ↔
      intervalRows store first last = [] := by
    simp [intervalRows, List.filter_eq_nil_iff]
  rw [none, intervalRows, interval_eq store order, requestedRows_eq,
    shifted_window (toList_nodup store) ends List.countP_le_length, List.drop_eq_nil_iff, List.length_take,
    Nat.min_eq_left List.countP_le_length]
  omega

/-- Between the row of an order and two stock rows, the read of the stock rows
starts at the order and leaves out the last stock row. -/
theorem range_read_one_early :
    let store : Store Bytes Bytes :=
      applyWrites ∅ [(kvOorderKey 1 1 1, [7]), (kvStockKey 1 1, [5]), (kvStockKey 1 2, [6])]
    compare (kvStockRangeBegin 1) (kvStockRangeEnd 1) ≠ .gt ∧
      intervalRows store (kvStockRangeBegin 1) (kvStockRangeEnd 1) =
        [(kvStockKey 1 1, [5]), (kvStockKey 1 2, [6])] ∧
      requestedRows store (kvStockRangeBegin 1) (kvStockRangeEnd 1) =
        [(kvOorderKey 1 1 1, [7]), (kvStockKey 1 1, [5])] := by
  decide +kernel

/-- A store with an item and no stock: there is nothing to miss. -/
theorem range_read_covers_iff_empty :
    compare (kvStockRangeBegin 1) (kvStockRangeEnd 1) ≠ .gt ∧
      requestedRows (applyWrites ∅ [(kvItemKey 1, [5])]) (kvStockRangeBegin 1) (kvStockRangeEnd 1) =
        intervalRows (applyWrites ∅ [(kvItemKey 1, [5])]) (kvStockRangeBegin 1)
          (kvStockRangeEnd 1) :=
  ⟨by decide, (range_read_covers_iff _ _ _ (by decide)).mpr (by decide +kernel)⟩

/-! ## StockLevel -/

/-- A reply to a range read over the rows from `first` to before `last`. The count
of its rows is handed over in an `int`. -/
structure RangeReply (store : Store Bytes Bytes) (first last : Bytes)
    (delivered : List (Bytes × Bytes)) (more : Bool) : Prop where
  inOrder : delivered <+: intervalRows store first last
  progress : delivered = [] → intervalRows store first last = []
  remain : more = true ↔ delivered ≠ intervalRows store first last
  counted : delivered.length < 2 ^ 31

def IsStockKey (wId : UInt32) (key : Bytes) : Prop := ∃ iId, key = kvStockKey wId iId

/-- The stock keys of a warehouse are its prefix and any four bytes. -/
private theorem isStockKey_iff (wId : UInt32) (key : Bytes) :
    IsStockKey wId key ↔ (literal ssStock ++ kvEncodeU32Be wId) <+: key ∧ key.length = 15 := by
  constructor
  · rintro ⟨iId, rfl⟩
    exact ⟨List.prefix_append _ _, rfl⟩
  · rintro ⟨⟨rest, rfl⟩, length⟩
    have four : rest.length = 4 := by
      have front : (literal ssStock ++ kvEncodeU32Be wId).length = 11 := rfl
      rw [List.length_append, front] at length
      omega
    have fits := Endian.big.value_lt rest
    have read := Endian.big.bytes_value rest
    rw [four] at fits read
    refine ⟨UInt32.ofNat (Endian.big.value rest), ?_⟩
    rw [kvStockKey, kvEncodeU32Be_eq (UInt32.ofNat _), UInt32.toNat_ofNat_of_lt' fits, read]

instance (wId : UInt32) (key : Bytes) : Decidable (IsStockKey wId key) :=
  decidable_of_iff' _ (isStockKey_iff wId key)

namespace StockLevel
variable (P : Platform)

/-- The test of the loop in `sl_on_range_read`. -/
def below (threshold : Int32) (row : Bytes × Bytes) : Bool :=
  match (asRow P.host (some row.2) : Option StockVal) with
  | some sv => decide (sv.sQuantity < threshold)
  | none => false

/-- The number of stock rows of the warehouse below the threshold. -/
def stockBelow (store : Store Bytes Bytes) (wId : UInt32) (threshold : Int32) : Nat :=
  store.toList.countP fun row => below P threshold row && decide (IsStockKey wId row.1)

private theorem belowThreshold_eq (threshold : Int32) (rows : List (Bytes × Bytes)) :
    belowThreshold P threshold rows =
      rows.foldl (fun count row => if below P threshold row then count + 1 else count) 0 := by
  unfold belowThreshold
  congr 1
  funext count row
  cases cast : (asRow P.host (some row.2) : Option StockVal) with
  | none => simp [below, cast]
  | some sv => simp [below, cast]

/-- Counting in an `int32_t` is counting, as long as there are not too many rows. -/
theorem foldl_count (p : α → Bool) (rows : List α) (count : Int32) (nonneg : 0 ≤ count.toInt)
    (fits : count.toInt + rows.length < 2 ^ 31) :
    (rows.foldl (fun count row => if p row then count + 1 else count) count).toInt =
      count.toInt + rows.countP p := by
  induction rows generalizing count with
  | nil => simp
  | cons row rest ih =>
    rw [List.length_cons] at fits
    rw [List.foldl_cons, List.countP_cons]
    cases here : p row with
    | true =>
      have next : (count + 1).toInt = count.toInt + 1 := by
        rw [Int32.toInt_add]
        exact Int.bmod_eq_of_le (by simp; omega) (by simp; omega)
      simp only [if_true]
      rw [ih (count + 1) (by omega) (by omega), next]
      omega
    | false =>
      simp only [Bool.false_eq_true, if_false]
      rw [ih count nonneg (by omega), Nat.add_zero]

private theorem belowThreshold_toInt (threshold : Int32) (rows : List (Bytes × Bytes))
    (fits : rows.length < 2 ^ 31) :
    (belowThreshold P threshold rows).toInt = rows.countP (below P threshold) := by
  have zero : (0 : Int32).toInt = 0 := rfl
  rw [belowThreshold_eq, foldl_count _ rows 0 (by rw [zero]) (by rw [zero]; omega), zero,
    Int.zero_add]

/-- The request waits for its one range read, over the stock of warehouse 1. -/
theorem start_waits (seed : UInt32) :
    ((stockLevelChain P).start seed {}).pending =
      some (.getRange (kvStockRangeBegin 1) (kvStockRangeEnd 1), .slOnRangeRead) ∧
    ((stockLevelChain P).start seed {}).ctx.wId = 1 := by
  have warehouse : ((drawCtx P).value { seed }).wId = 1 := rfl
  constructor <;> simp [Chain.start, stockLevelChain, execute, run_openRequest, fdbAsyncGetRange,
    Session.submit, warehouse]

private theorem resume_rows {session : Session StockLevelCtx StockLevelCallback Bytes Bytes Response}
    (waiting : session.pending = some (operation, .slOnRangeRead)) (answers : Answers)
    (delivered : List (Bytes × Bytes)) (more : Bool) :
    ((stockLevelChain P).resume answers session (.rows delivered more)).reply =
      some (.json (.map [("status", .str "ok"), ("below_threshold\x00",
        .int (belowThreshold P session.ctx.threshold delivered).toInt)])) := by
  simp [Chain.resume, waiting, stockLevelChain, slOnRangeRead, Future.getError,
    Future.getKeyvalueArray]

/-- Counting what was delivered of a list without repetitions. -/
private theorem countP_delivered [BEq α] [LawfulBEq α] {rows delivered : List α} (distinct : rows.Nodup)
    (inside : delivered.Sublist rows) (p : α → Bool) :
    (rows.countP fun row => p row && decide (row ∈ delivered)) = delivered.countP p := by
  have same : (rows.filter fun row => decide (row ∈ delivered)).Perm delivered := by
    apply (List.perm_ext_iff_of_nodup (distinct.filter _) (distinct.sublist inside)).mpr
    intro row
    simp only [List.mem_filter, decide_eq_true_eq, and_iff_right_iff_imp]
    exact fun member => inside.subset member
  rw [← List.countP_filter, same.countP_eq]

/-- The answer counts what was delivered, the law what the warehouse holds: they
differ by the rows that are in one of the two only. -/
theorem count_eq_iff {store : Store Bytes Bytes} {delivered : List (Bytes × Bytes)}
    (inside : delivered.Sublist store.toList) (wId : UInt32) (threshold : Int32) :
    delivered.countP (below P threshold) = stockBelow P store wId threshold ↔
      (delivered.countP fun row => below P threshold row && !decide (IsStockKey wId row.1)) =
        store.toList.countP fun row =>
          (below P threshold row && decide (IsStockKey wId row.1)) && !decide (row ∈ delivered) := by
  have answered := List.countP_eq_countP_filter_add delivered (below P threshold)
    fun row => decide (IsStockKey wId row.1)
  have held := List.countP_eq_countP_filter_add store.toList
    (fun row => below P threshold row && decide (IsStockKey wId row.1))
    fun row => decide (row ∈ delivered)
  simp only [List.countP_filter] at answered held
  have kept := countP_delivered (toList_nodup store) inside
    fun row => below P threshold row && decide (IsStockKey wId row.1)
  rw [stockBelow]
  omega

end StockLevel

/-- **StockLevel counts the whole warehouse** exactly when it misses as many of
its rows below the threshold as it counts rows that are not its own. In a store
of this keyspace the latter do not exist: every stock row below the threshold
must have been delivered in the one reply that is looked at. -/
theorem stock_level_counts_iff (P : Platform) (store : Store Bytes Bytes) (answers : Answers)
    (session : Session StockLevelCtx StockLevelCallback Bytes Bytes Response)
    (waiting : session.pending = some (.getRange (kvStockRangeBegin session.ctx.wId)
      (kvStockRangeEnd session.ctx.wId), .slOnRangeRead))
    (delivered : List (Bytes × Bytes)) (more : Bool)
    (reply : RangeReply store (kvStockRangeBegin session.ctx.wId)
      (kvStockRangeEnd session.ctx.wId) delivered more) :
    ∃ belowThreshold : Int,
      ((stockLevelChain P).resume answers session (.rows delivered more)).reply =
        some (.json (.map [("status", .str "ok"), ("below_threshold\x00", .int belowThreshold)])) ∧
      (belowThreshold = StockLevel.stockBelow P store session.ctx.wId session.ctx.threshold ↔
        (delivered.countP fun row => StockLevel.below P session.ctx.threshold row &&
            !decide (IsStockKey session.ctx.wId row.1)) =
          store.toList.countP fun row => (StockLevel.below P session.ctx.threshold row &&
            decide (IsStockKey session.ctx.wId row.1)) && !decide (row ∈ delivered)) ∧
      ((∀ row ∈ store.toList, ∃ key : Key, row.1 = key.build P.host) →
        (belowThreshold = StockLevel.stockBelow P store session.ctx.wId session.ctx.threshold ↔
          ∀ row ∈ store.toList, IsStockKey session.ctx.wId row.1 →
            StockLevel.below P session.ctx.threshold row = true → row ∈ delivered)) := by
  have inside : delivered.Sublist store.toList := reply.inOrder.sublist.trans List.filter_sublist
  refine ⟨_, StockLevel.resume_rows P waiting answers delivered more, ?_, ?_⟩
  · rw [StockLevel.belowThreshold_toInt P _ delivered reply.counted, Int.natCast_inj]
    exact StockLevel.count_eq_iff P inside _ _
  · intro keyspace
    have own : (delivered.countP fun row => StockLevel.below P session.ctx.threshold row &&
        !decide (IsStockKey session.ctx.wId row.1)) = 0 := by
      rw [List.countP_eq_zero]
      intro row member
      have asked := List.of_mem_filter (reply.inOrder.subset member)
      obtain ⟨key, built⟩ := keyspace row (inside.subset member)
      rw [decide_eq_true_eq, built, Key.within_stock_range] at asked
      obtain ⟨iId, rfl, _⟩ := asked
      have stock : IsStockKey session.ctx.wId row.1 := ⟨iId, built⟩
      simp [stock]
    rw [StockLevel.belowThreshold_toInt P _ delivered reply.counted, Int.natCast_inj,
      StockLevel.count_eq_iff P inside, own, eq_comm, List.countP_eq_zero]
    simp only [Bool.and_eq_true, Bool.not_eq_true', decide_eq_true_eq, decide_eq_false_iff_not,
      not_and, not_not]
    exact forall₂_congr fun row _ => ⟨fun all stock low => all ⟨low, stock⟩,
      fun all both => all both.2 both.1⟩

/-- The row of an item that is sold out. -/
def soldOut (iId : UInt32) : Bytes × Bytes :=
  (kvStockKey 1 iId, encode .little (PackedRow.zero : StockVal))

/-- Two items are sold out and the first reply holds one of them: the answer is 1, since the
flag that says there is more is not looked at. -/
theorem stock_level_stops_early :
    let store : Store Bytes Bytes := applyWrites ∅ [soldOut 1, soldOut 2]
    let session := (stockLevelChain plainPlatform).start 0 {}
    session.pending = some (.getRange (kvStockRangeBegin session.ctx.wId)
      (kvStockRangeEnd session.ctx.wId), .slOnRangeRead) ∧
    RangeReply store (kvStockRangeBegin session.ctx.wId) (kvStockRangeEnd session.ctx.wId)
      [soldOut 1] true ∧
    ((stockLevelChain plainPlatform).resume {} session (.rows [soldOut 1] true)).reply =
      some (.json (.map [("status", .str "ok"), ("below_threshold\x00", .int 1)])) ∧
    StockLevel.stockBelow plainPlatform store session.ctx.wId session.ctx.threshold = 2 := by
  intro store session
  obtain ⟨waiting, warehouse⟩ := StockLevel.start_waits plainPlatform 0
  have all : intervalRows store (kvStockRangeBegin 1) (kvStockRangeEnd 1) = [soldOut 1, soldOut 2] := by
    decide +kernel
  have threshold : session.ctx.threshold = 12 := by decide +kernel
  rw [show session.ctx.wId = 1 from warehouse]
  refine ⟨waiting, ⟨?_, ?_, ?_, ?_⟩, ?_, ?_⟩
  · rw [all]
    exact ⟨[soldOut 2], rfl⟩
  · intro none
    cases none
  · rw [all]
    decide +kernel
  · decide
  · rw [StockLevel.resume_rows plainPlatform waiting]
    have counted : (StockLevel.belowThreshold plainPlatform 12 [soldOut 1]).toInt = 1 := by
      decide +kernel
    rw [threshold, counted]
  · rw [threshold]
    decide +kernel

/-- Two items are sold out and the first reply holds both: the answer is 2. -/
theorem stock_level_counts_iff_whole :
    let store : Store Bytes Bytes := applyWrites ∅ [soldOut 1, soldOut 2]
    let session := (stockLevelChain plainPlatform).start 0 {}
    RangeReply store (kvStockRangeBegin session.ctx.wId) (kvStockRangeEnd session.ctx.wId)
      [soldOut 1, soldOut 2] false ∧
    ∃ belowThreshold : Int,
      ((stockLevelChain plainPlatform).resume {} session (.rows [soldOut 1, soldOut 2] false)).reply =
        some (.json (.map [("status", .str "ok"), ("below_threshold\x00", .int belowThreshold)])) ∧
      belowThreshold = StockLevel.stockBelow plainPlatform store session.ctx.wId
        session.ctx.threshold := by
  intro store session
  obtain ⟨waiting, warehouse⟩ := StockLevel.start_waits plainPlatform 0
  have ours : session.ctx.wId = 1 := warehouse
  have all : intervalRows store (kvStockRangeBegin session.ctx.wId) (kvStockRangeEnd session.ctx.wId) =
      [soldOut 1, soldOut 2] := by
    rw [ours]
    decide +kernel
  have threshold : session.ctx.threshold = 12 := by decide +kernel
  have reply : RangeReply store (kvStockRangeBegin session.ctx.wId)
      (kvStockRangeEnd session.ctx.wId) [soldOut 1, soldOut 2] false :=
    ⟨by rw [all], fun none => (by cases none), by simp [all], by decide⟩
  obtain ⟨count, answer, exact_iff, _⟩ := stock_level_counts_iff plainPlatform store {} session
    (by rw [ours]; exact waiting) _ _ reply
  refine ⟨reply, count, answer, exact_iff.mpr ?_⟩
  rw [ours, threshold]
  decide +kernel

end H2oTpcc

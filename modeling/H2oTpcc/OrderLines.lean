import H2oTpcc.OrderIds

/-! Orders and their lines. Each order alone sets an oorder row, a new_order row and
the lines 1 to `ol_cnt`; but orders that get the same id share these keys, and an
order with fewer lines than the one it replaces leaves the old last lines behind. -/
namespace H2oTpcc

def oorderRow (host : Endian) (tables : Key → Option Bytes) (w d o : UInt32) : Option OorderVal :=
  asRow host (tables (.oorder w d o))

/-- The order has its new_order row and exactly the lines it says it has, all set
by the commit that set the oorder row. -/
structure Complete (P : Platform) (past : List TpccCommit) (tables : Key → Option Bytes)
    (w d o : UInt32) (row : OorderVal) : Prop where
  lines : ∀ n, (tables (.orderLine w d o n)).isSome ↔ 1 ≤ n.toNat ∧ (n.toNat : Int) ≤ row.oOlCnt.toInt
  newOrder : (tables (.newOrder w d o)).isSome
  together : ∃ index, LastSetBy past ((Key.oorder w d o).build P.host) index ∧
    ∀ n, (tables (.orderLine w d o n)).isSome →
      LastSetBy past ((Key.orderLine w d o n).build P.host) index

/-- Every oorder row of the store is complete. -/
def OrdersComplete (P : Platform) (past : List TpccCommit) (tables : Key → Option Bytes) : Prop :=
  ∀ w d o, (tables (.oorder w d o)).isSome →
    ∃ row, oorderRow P.host tables w d o = some row ∧ Complete P past tables w d o row

/-- No rows in the order tables. -/
def NoOrders (tables : Key → Option Bytes) : Prop :=
  ∀ key : Key, key.table ∈ [Table.oorder, .newOrder, .orderLine] → tables key = none

/-- The order overwrites none with more lines than itself. -/
def Covers (P : Platform) (tables : Key → Option Bytes) (ctx : NewOrderCtx) : Prop :=
  ∀ dv row, districtRow P.host tables ctx.wId ctx.dId = some dv →
    oorderRow P.host tables ctx.wId ctx.dId dv.dNextOId.toUInt32 = some row →
    row.oOlCnt.toInt ≤ ctx.olCnt.toNat

/-- The number of lines survives its way through `int16_t`. -/
theorem oOlCnt_toInt (count : UInt8) : count.toUInt16.toInt16.toInt = count.toNat := by
  have small := count.toNat_lt
  rw [← Int16.toInt_toBitVec, UInt16.toBitVec_toInt16, BitVec.toInt_eq_toNat_of_lt]
  · simp
  · simp only [UInt16.toNat_toBitVec, UInt8.toNat_toUInt16]
    omega

section Step
variable {P : Platform} {commit : TpccCommit} {before after : Key → Option Bytes} {past : List TpccCommit}

/-- A commit that sets no row of the order leaves it complete, with as many lines as its header
says. -/
theorem Complete.append {w d o : UInt32} {row : OorderVal} (complete : Complete P past before w d o row)
    (oorder : ∀ value, ((Key.oorder w d o).build P.host, value) ∉ commit.writes)
    (newOrder : after (.newOrder w d o) = before (.newOrder w d o))
    (lines : ∀ n, after (.orderLine w d o n) = before (.orderLine w d o n) ∧
      ∀ value, ((Key.orderLine w d o n).build P.host, value) ∉ commit.writes) :
    Complete P (past ++ [commit]) after w d o row where
  lines n := by rw [(lines n).1]; exact complete.lines n
  newOrder := by rw [newOrder]; exact complete.newOrder
  together := by
    obtain ⟨index, set, with_lines⟩ := complete.together
    refine ⟨index, set.append oorder, fun n present => ?_⟩
    rw [(lines n).1] at present
    exact (with_lines n present).append (lines n).2

/-- What holds of the order tables in every store: besides, no line is without its
order. -/
structure OrdersInv (P : Platform) (past : List TpccCommit) (tables : Key → Option Bytes) : Prop where
  complete : OrdersComplete P past tables
  owned : ∀ w d o n, (tables (.orderLine w d o n)).isSome → (tables (.oorder w d o)).isSome

/-- The order just placed is complete if it covers the one it replaces. -/
theorem OrdersInv.placed {ctx : NewOrderCtx} {now : Int64} (inv : OrdersInv P past before)
    (reads : NewOrder.ReadFrom P ctx ctx.olCnt.toNat before)
    (writes : commit.writes = built P.host (NewOrder.rows P ctx now)) (covers : Covers P before ctx) :
    Complete P (past ++ [commit]) (overwrite before (NewOrder.rows P ctx now)) ctx.wId ctx.dId
      ctx.dNextOId.toUInt32 (NewOrder.oorderVal ctx now) := by
  have count : (NewOrder.oorderVal ctx now).oOlCnt.toInt = ctx.olCnt.toNat := oOlCnt_toInt ctx.olCnt
  -- every line still there from an earlier order is one of the lines just set
  have old (n : UInt32)
      (present : (before (.orderLine ctx.wId ctx.dId ctx.dNextOId.toUInt32 n)).isSome) :
      1 ≤ n.toNat ∧ n.toNat ≤ ctx.olCnt.toNat := by
    obtain ⟨row, found, complete⟩ := inv.complete _ _ _ (inv.owned _ _ _ n present)
    obtain ⟨dv, district, id⟩ := reads.district
    have bound := covers dv row district (by rw [← id]; exact found)
    obtain ⟨first, last⟩ := (complete.lines n).mp present
    omega
  have set (n : UInt32) (own : 1 ≤ n.toNat ∧ n.toNat ≤ ctx.olCnt.toNat) :
      lastWrite (NewOrder.rows P ctx now) (.orderLine ctx.wId ctx.dId ctx.dNextOId.toUInt32 n) =
        some (encode P.host (NewOrder.orderLineVal ctx (n.toNat - 1))) := by
    rw [NewOrder.rows_orderLine, if_pos ⟨⟨rfl, rfl, rfl⟩, own⟩]
  have lines (n : UInt32) : (overwrite before (NewOrder.rows P ctx now)
      (.orderLine ctx.wId ctx.dId ctx.dNextOId.toUInt32 n)).isSome ↔
        1 ≤ n.toNat ∧ n.toNat ≤ ctx.olCnt.toNat := by
    by_cases own : 1 ≤ n.toNat ∧ n.toNat ≤ ctx.olCnt.toNat
    · simp [overwrite_set (set n own), own]
    · rw [overwrite_unset (by rw [NewOrder.rows_orderLine, if_neg (fun both => own both.2)])]
      exact ⟨old n, fun inside => absurd inside own⟩
  refine ⟨fun n => ?_, ?_, past.length, ?_, fun n present => ?_⟩
  · rw [lines, count, Int.ofNat_le]
  · rw [overwrite_set (by rw [NewOrder.rows_newOrder, if_pos ⟨rfl, rfl, rfl⟩])]
    rfl
  · have own : lastWrite (NewOrder.rows P ctx now) (.oorder ctx.wId ctx.dId ctx.dNextOId.toUInt32) =
        some (encode P.host (NewOrder.oorderVal ctx now)) := by
      rw [NewOrder.rows_oorder, if_pos ⟨rfl, rfl, rfl⟩]
    exact .of_append (by rw [writes]; exact mem_built.mpr (mem_of_lastWrite own))
  · have own := set n ((lines n).mp present)
    exact .of_append (by rw [writes]; exact mem_built.mpr (mem_of_lastWrite own))

/-- The rows leave the order and its lines alone. -/
structure Spares (rows : List (Key × Bytes)) (w d o : UInt32) : Prop where
  oorder : lastWrite rows (.oorder w d o) = none
  newOrder : lastWrite rows (.newOrder w d o) = none
  orderLine : ∀ n, lastWrite rows (.orderLine w d o n) = none

private theorem NewOrder.spares (P : Platform) (now : Int64) {ctx : NewOrderCtx}
    (apart : ¬ (ctx.wId = w ∧ ctx.dId = d ∧ ctx.dNextOId.toUInt32 = o)) :
    Spares (NewOrder.rows P ctx now) w d o where
  oorder := by rw [NewOrder.rows_oorder, if_neg apart]
  newOrder := by rw [NewOrder.rows_newOrder, if_neg apart]
  orderLine n := by rw [NewOrder.rows_orderLine, if_neg (fun both => apart both.1)]

private theorem Payment.spares (P : Platform) (ctx : PaymentCtx) (cv : CustomerVal) (now : Int64)
    (w d o : UInt32) :
    Spares (Payment.rows P ctx cv now) w d o where
  oorder := Payment.rows_other P ctx cv now (by simp [Key.table])
  newOrder := Payment.rows_other P ctx cv now (by simp [Key.table])
  orderLine _ := Payment.rows_other P ctx cv now (by simp [Key.table])

section Spared
variable {rows : List (Key × Bytes)} {w d o : UInt32}

/-- An order that is left alone stays as complete as it was. -/
private theorem OrdersInv.spared (inv : OrdersInv P past before) (spares : Spares rows w d o)
    (writes : commit.writes = built P.host rows)
    (present : (overwrite before rows (.oorder w d o)).isSome) :
    ∃ row, oorderRow P.host (overwrite before rows) w d o = some row ∧
      Complete P (past ++ [commit]) (overwrite before rows) w d o row := by
  rw [overwrite_unset spares.oorder] at present
  obtain ⟨row, found, complete⟩ := inv.complete w d o present
  refine ⟨row, by rw [oorderRow, overwrite_unset spares.oorder]; exact found, complete.append ?_ ?_ ?_⟩
  · rw [writes]
    exact not_mem_built spares.oorder
  · exact overwrite_unset spares.newOrder
  · intro n
    rw [writes]
    exact ⟨overwrite_unset (spares.orderLine n), not_mem_built (spares.orderLine n)⟩

private theorem OrdersInv.spared_owner (inv : OrdersInv P past before) (spares : Spares rows w d o)
    (present : (overwrite before rows (.orderLine w d o n)).isSome) :
    (overwrite before rows (.oorder w d o)).isSome := by
  rw [overwrite_unset (spares.orderLine n)] at present
  exact overwrite_isSome (inv.owned w d o n present)

end Spared

/-- One commit more. An order that reuses a number must have at least as many lines as the one
it replaces, or some of the old lines are left. -/
theorem OrdersInv.step (inv : OrdersInv P past before) (serial : Serial P commit before after)
    (covers : ∀ ctx, orderOf commit = some ctx → Covers P before ctx) :
    OrdersInv P (past ++ [commit]) after := by
  cases serial with
  | order ctx now placed other fits reads writes becomes =>
    subst becomes
    constructor
    · intro w d o present
      by_cases own : ctx.wId = w ∧ ctx.dId = d ∧ ctx.dNextOId.toUInt32 = o
      · obtain ⟨rfl, rfl, rfl⟩ := own
        refine ⟨NewOrder.oorderVal ctx now, ?_, inv.placed reads writes (covers ctx placed)⟩
        rw [oorderRow, overwrite_set (by rw [NewOrder.rows_oorder, if_pos ⟨rfl, rfl, rfl⟩]), asRow_encode]
      · exact inv.spared (NewOrder.spares P now own) writes present
    · intro w d o n present
      by_cases own : ctx.wId = w ∧ ctx.dId = d ∧ ctx.dNextOId.toUInt32 = o
      · rw [overwrite_set (by rw [NewOrder.rows_oorder, if_pos own])]
        rfl
      · exact inv.spared_owner (NewOrder.spares P now own) present
  | payment ctx cv now paid other warehouse district customer writes becomes =>
    subst becomes
    exact ⟨fun w d o present => inv.spared (Payment.spares P ctx cv now w d o) writes present,
      fun w d o n present => inv.spared_owner (Payment.spares P ctx cv now w d o) present⟩

/-- An order that replaces one with more lines leaves the last of them behind. -/
theorem covers_of_complete {ctx : NewOrderCtx} {now : Int64}
    (earlier : OrdersComplete P past before)
    (later : OrdersComplete P (past ++ [commit]) (overwrite before (NewOrder.rows P ctx now)))
    (reads : NewOrder.ReadFrom P ctx ctx.olCnt.toNat before) : Covers P before ctx := by
  intro dv row district found
  obtain ⟨dv', district', id⟩ := reads.district
  cases district.symm.trans district'
  rw [← id] at found
  obtain ⟨row', found', complete⟩ := earlier ctx.wId ctx.dId ctx.dNextOId.toUInt32 (by
    unfold oorderRow at found
    cases present : before (.oorder ctx.wId ctx.dId ctx.dNextOId.toUInt32) with
    | none => rw [present] at found; cases found
    | some value => rfl)
  cases found.symm.trans found'
  by_contra more
  have range := row.oOlCnt.toInt_lt
  have wide : UInt32.size = 4294967296 := rfl
  -- the last line of the order that is replaced
  have number : (UInt32.ofNat row.oOlCnt.toInt.toNat).toNat = row.oOlCnt.toInt.toNat :=
    UInt32.toNat_ofNat_of_lt' (by omega)
  have present := (complete.lines (UInt32.ofNat row.oOlCnt.toInt.toNat)).mpr (by omega)
  have own : lastWrite (NewOrder.rows P ctx now) (.oorder ctx.wId ctx.dId ctx.dNextOId.toUInt32) =
      some (encode P.host (NewOrder.oorderVal ctx now)) := by
    rw [NewOrder.rows_oorder, if_pos ⟨rfl, rfl, rfl⟩]
  obtain ⟨row'', replaced, complete'⟩ := later ctx.wId ctx.dId ctx.dNextOId.toUInt32 (by
    rw [overwrite_set own]; rfl)
  rw [oorderRow, overwrite_set own, asRow_encode] at replaced
  cases replaced
  have count : (NewOrder.oorderVal ctx now).oOlCnt.toInt = ctx.olCnt.toNat := oOlCnt_toInt ctx.olCnt
  have still := ((complete'.lines _).mp (overwrite_isSome present)).2
  omega

end Step

section Runs
variable {P : Platform} {base : Store Bytes Bytes} {world : TpccWorld}

private theorem OrdersInv.of_noOrders {tables : Key → Option Bytes} (empty : NoOrders tables) :
    OrdersInv P [] tables where
  complete w d o present := by
    rw [empty _ (by simp [Key.table])] at present
    cases present
  owned w d o n present := by
    rw [empty _ (by simp [Key.table])] at present
    cases present

/-- **Orders and their lines.** From a store without orders, every order of every
store of the run is complete exactly if every order covers the one it replaces. -/
theorem orders_complete_iff (empty : NoOrders (tables P.host base))
    (reachable : TpccReachable P base world) :
    (∀ version ≤ world.db.log.length,
      OrdersComplete P (world.db.log.take version) (tables P.host (world.db.asOf version))) ↔
    ∀ version commit ctx, world.db.log[version]? = some commit → orderOf commit = some ctx →
      Covers P (tables P.host (world.db.asOf version)) ctx := by
  constructor
  · intro complete version commit ctx logged placed
    obtain ⟨inside, _⟩ := List.getElem?_eq_some_iff.mp logged
    have earlier := complete version (Nat.le_of_lt inside)
    have later := complete (version + 1) inside
    rw [take_logged logged] at later
    obtain ⟨_, reads, now, _, becomes⟩ := (serial_step reachable logged).of_order placed
    rw [becomes] at later
    exact covers_of_complete earlier later reads
  · intro covers version within
    refine (serial_induction (Q := fun version => OrdersInv P (world.db.log.take version)) reachable
      (.of_noOrders empty) ?_ within).complete
    intro version commit logged after serial inv
    rw [take_logged logged]
    exact inv.step serial fun ctx placed => covers version commit ctx logged placed

end Runs

private theorem smallLoaded_noOrders : NoOrders (tables plainPlatform.host smallLoaded) := by
  intro key ours
  cases found : tables plainPlatform.host smallLoaded key with
  | none => rfl
  | some value =>
    have present : (tables plainPlatform.host (loaded plainPlatform 2 smallStore) key).isSome := by
      rw [← smallLoaded, found]; rfl
    simp only [List.mem_cons, List.not_mem_nil, or_false] at ours
    obtain ⟨_, _, rfl | ⟨_, _, rfl | rfl⟩⟩ := loaded_present smallStore_unloaded present (by
      rcases ours with ours | ours | ours <;> rw [ours] <;> decide) <;> simp [Key.table] at ours

/-- An order of seven lines, then one of six under the same number: the seventh line of the
first stays, and belongs to no order. -/
theorem stale_line_left : NoOrders (tables plainPlatform.host smallLoaded) ∧
    ∃ world row, TpccReachable plainPlatform smallLoaded world ∧ world.db.log.length = 2 ∧
      oorderRow plainPlatform.host (tables plainPlatform.host world.db.store) 1 1 3001 = some row ∧
      row.oOlCnt = 6 ∧ (tables plainPlatform.host world.db.store (.orderLine 1 1 3001 7)).isSome ∧
      ¬ OrdersComplete plainPlatform world.db.log (tables plainPlatform.host world.db.store) := by
  obtain ⟨world, first, second, ctx, ctx', reached, log, placed, placed', w, d, id, lines, w', d', id',
    lines'⟩ := small_orders 7 6 (by decide) (by decide)
  have line : (tables plainPlatform.host (world.db.asOf 1) (.orderLine 1 1 3001 7)).isSome := by
    have logged : world.db.log[0]? = some first := by rw [log]; rfl
    obtain ⟨_, _, now, _, becomes⟩ := (serial_step reached logged).of_order placed
    have number : (7 : UInt32).toNat ≤ ctx.olCnt.toNat := by rw [lines]; decide
    have set := NewOrder.rows_orderLine plainPlatform ctx now 1 1 3001 7
    rw [if_pos ⟨⟨w, d, by rw [id]; decide⟩, by decide, number⟩] at set
    rw [becomes, overwrite_set set]
    rfl
  have logged' : world.db.log[1]? = some second := by rw [log]; rfl
  have length : world.db.log.length = 2 := by rw [log]; rfl
  have serial := serial_step reached logged'
  rw [show 1 + 1 = world.db.log.length from length.symm, ← Database.store] at serial
  obtain ⟨_, _, now, _, becomes⟩ := serial.of_order placed'
  have set := NewOrder.rows_oorder plainPlatform ctx' now 1 1 3001
  rw [if_pos ⟨w', d', by rw [id']; decide⟩] at set
  have row : oorderRow plainPlatform.host (tables plainPlatform.host world.db.store) 1 1 3001 =
      some (NewOrder.oorderVal ctx' now) := by
    rw [becomes, oorderRow, overwrite_set set, asRow_encode]
  have count : (NewOrder.oorderVal ctx' now).oOlCnt = 6 := by
    change ctx'.olCnt.toUInt16.toInt16 = 6
    rw [lines']
    decide
  have stale : (tables plainPlatform.host world.db.store (.orderLine 1 1 3001 7)).isSome := by
    rw [becomes]
    exact overwrite_isSome line
  refine ⟨smallLoaded_noOrders, world, _, reached, length, row, count, stale, fun complete => ?_⟩
  obtain ⟨row', found, whole⟩ := complete 1 1 3001 (by rw [becomes, overwrite_set set]; rfl)
  cases row.symm.trans found
  have last := ((whole.lines 7).mp stale).2
  rw [count] at last
  exact absurd last (by decide)

/-- A single order has nothing to cover, so it is complete. -/
theorem orders_complete_iff_single :
    ∃ world commit, TpccReachable plainPlatform smallLoaded world ∧ world.db.log = [commit] ∧
      (orderOf commit).isSome ∧ ∀ version ≤ world.db.log.length, OrdersComplete plainPlatform
        (world.db.log.take version) (tables plainPlatform.host (world.db.asOf version)) := by
  obtain ⟨world, commit, ctx, reached, grown, placed, _⟩ := small_order 6 (by decide)
  have log : world.db.log = [commit] := by rw [grown]; rfl
  refine ⟨world, commit, reached, log, by rw [placed]; rfl, ?_⟩
  refine (orders_complete_iff smallLoaded_noOrders reached).mpr ?_
  intro version commit' ctx' logged placed' dv row district found
  rw [log, List.getElem?_singleton] at logged
  split at logged
  · subst version
    rw [Database.asOf_zero, World.reachable_base reached, oorderRow,
      smallLoaded_noOrders _ (by simp [Key.table])] at found
    cases found
  · cases logged

end H2oTpcc

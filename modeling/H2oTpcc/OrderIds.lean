import H2oTpcc.Loader
import H2oTpcc.Serial

/-! Where order ids come from. An order takes its id from the district row and moves
on only the separate counter under `tpcc/nid/`; a payment rewrites the district row
with the id zeroed. So every order of a district gets 3001, or 0 after a payment
into it, and the two copies of the next id part at the first transaction that
touches the district. -/
namespace H2oTpcc

/-- The commit placed an order in this district. -/
def OrdersIn (w d : UInt32) (commit : TpccCommit) : Prop :=
  ∃ ctx, orderOf commit = some ctx ∧ ctx.wId = w ∧ ctx.dId = d

/-- The commit was a payment of a customer of this district. -/
def PaysInto (w d : UInt32) (commit : TpccCommit) : Prop :=
  ∃ ctx, paymentOf commit = some ctx ∧ ctx.cWId = w ∧ ctx.cDId = d

/-- The commit set the oorder row of this order. -/
def PlacesOrder (P : Platform) (w d : UInt32) (o : Int32) (commit : TpccCommit) : Prop :=
  ∃ value, ((Key.oorder w d o.toUInt32).build P.host, value) ∈ commit.writes

/-- What `kv_decode_next_o_id` gives for the district's counter. -/
def counterOf (tables : Key → Option Bytes) (w d : UInt32) : Option Int32 :=
  (tables (.nextOId w d)).map fun value => kvDecodeNextOId value value.length

/-! ## What one transaction does to a district -/

section Step
variable {P : Platform} {commit : TpccCommit} {before after : Key → Option Bytes}

private theorem Serial.placesOrder (serial : Serial P commit before after) (w d : UInt32) (o : Int32) :
    PlacesOrder P w d o commit ↔
      ∃ ctx, orderOf commit = some ctx ∧ ctx.wId = w ∧ ctx.dId = d ∧ ctx.dNextOId = o := by
  unfold PlacesOrder
  cases serial with
  | order ctx now placed other fits reads writes becomes =>
    have same : ctx.dNextOId.toUInt32 = o.toUInt32 ↔ ctx.dNextOId = o :=
      ⟨fun ids => by simpa using congrArg UInt32.toInt32 ids, congrArg Int32.toUInt32⟩
    simp only [writes, mem_built, placed, Option.some.injEq, exists_eq_left', ← same]
    simp [NewOrder.rows, eq_comm]
  | payment ctx cv now paid other warehouse district customer writes becomes =>
    simp only [writes, mem_built, other]
    simp [Payment.rows]

/-- The district row changes only by a payment into the district, which needs the
row and zeroes its `d_next_o_id`. -/
theorem Serial.district (serial : Serial P commit before after) (w d : UInt32) :
    (¬ PaysInto w d commit ∧ districtRow P.host after w d = districtRow P.host before w d) ∨
    (PaysInto w d commit ∧ (districtRow P.host before w d).isSome ∧
      ∃ dv, districtRow P.host after w d = some dv ∧ dv.dNextOId = 0) := by
  cases serial with
  | order ctx now placed other fits reads writes becomes =>
    refine .inl ⟨?_, ?_⟩
    · rintro ⟨_, paid, _⟩
      rw [other] at paid
      cases paid
    · rw [becomes, districtRow, overwrite, NewOrder.rows_other P ctx now (by simp [Key.table])]
      rfl
  | payment ctx cv now paid other warehouse district customer writes becomes =>
    by_cases into : ctx.cWId = w ∧ ctx.cDId = d
    · obtain ⟨dv, row, _⟩ := district
      refine .inr ⟨⟨ctx, paid, into⟩, ?_, Payment.districtVal ctx, ?_, rfl⟩
      · rw [districtRow, ← into.1, ← into.2, row]
        rfl
      · rw [becomes, districtRow, overwrite, Payment.rows_district, if_pos into]
        simp
    · refine .inl ⟨?_, ?_⟩
      · rintro ⟨ctx', paid', into'⟩
        cases paid.symm.trans paid'
        exact into into'
      · rw [becomes, districtRow, overwrite, Payment.rows_district, if_neg into]
        rfl

/-- The counter changes only by an order in the district, to one more than the id
in the district row. -/
theorem Serial.counter (serial : Serial P commit before after) (w d : UInt32) :
    (¬ OrdersIn w d commit ∧ counterOf after w d = counterOf before w d) ∨
    (OrdersIn w d commit ∧ ∃ dv, districtRow P.host before w d = some dv ∧
      counterOf after w d = some (kvDecodeNextOId (kvEncodeNextOId (dv.dNextOId + 1)) 8)) := by
  cases serial with
  | order ctx now placed other fits reads writes becomes =>
    by_cases here : ctx.wId = w ∧ ctx.dId = d
    · obtain ⟨dv, row, id⟩ := reads.district
      refine .inr ⟨⟨ctx, placed, here⟩, dv, ?_, ?_⟩
      · rw [districtRow, ← here.1, ← here.2, row]
      · rw [becomes, counterOf, overwrite, NewOrder.rows_nextOId, if_pos here, id]
        rfl
    · refine .inl ⟨?_, ?_⟩
      · rintro ⟨ctx', placed', here'⟩
        cases placed.symm.trans placed'
        exact here here'
      · rw [becomes, counterOf, overwrite, NewOrder.rows_nextOId, if_neg here]
        rfl
  | payment ctx cv now paid other warehouse district customer writes becomes =>
    refine .inl ⟨?_, ?_⟩
    · rintro ⟨_, placed, _⟩
      rw [other] at placed
      cases placed
    · rw [becomes, counterOf, overwrite, Payment.rows_other P ctx cv now (by simp [Key.table])]
      rfl

/-- Orders of other districts, and payments, leave the orders of a district alone. -/
theorem Serial.oorder (serial : Serial P commit before after) {w d : UInt32}
    (elsewhere : ¬ OrdersIn w d commit) (o : UInt32) : after (.oorder w d o) = before (.oorder w d o) := by
  cases serial with
  | order ctx now placed other fits reads writes becomes =>
    have apart : ¬ (ctx.wId = w ∧ ctx.dId = d ∧ ctx.dNextOId.toUInt32 = o) :=
      fun ⟨warehouse, district, _⟩ => elsewhere ⟨ctx, placed, warehouse, district⟩
    rw [becomes, overwrite, NewOrder.rows_oorder, if_neg apart]
    rfl
  | payment ctx cv now paid other warehouse district customer writes becomes =>
    rw [becomes, overwrite, Payment.rows_other P ctx cv now (by simp [Key.table])]
    rfl

/-- An order whose rows are all there stays so until a payment resets its
district's row. -/
theorem NewOrder.Supplied.step {ctx : NewOrderCtx} {dv : DistrictVal}
    (supplied : NewOrder.Supplied P ctx dv before) (serial : Serial P commit before after)
    (unpaid : ¬ PaysInto ctx.wId ctx.dId commit) : NewOrder.Supplied P ctx dv after where
  fits := supplied.fits
  district := by
    rcases serial.district ctx.wId ctx.dId with ⟨_, same⟩ | ⟨paid, _⟩
    · exact same.trans supplied.district
    · exact absurd paid unpaid
  customer := by
    obtain ⟨cv, row⟩ := supplied.customer
    exact Option.isSome_iff_exists.mp (serial.customer_stays (by rw [customerRow, row]; rfl))
  stock := by
    intro i below
    obtain ⟨sv, row⟩ := supplied.stock i below
    exact Option.isSome_iff_exists.mp (serial.stock_stays (by rw [row]; rfl))

end Step

/-! ## A district over a whole run -/

/-- Every district starts with both copies of its next id at 3001, and no orders. -/
def FreshOrders (P : Platform) (tables : Key → Option Bytes) : Prop :=
  ∀ w d dv, districtRow P.host tables w d = some dv →
    dv.dNextOId = 3001 ∧ counterOf tables w d = some 3001 ∧ ∀ o, tables (.oorder w d o) = none

private theorem loaded_freshOrders {P : Platform} {W : Nat} {before : Store Bytes Bytes}
    (unloaded : Unloaded P before) : FreshOrders P (tables P.host (loaded P W before)) := by
  intro w d dv row
  obtain ⟨w', inside, key | ⟨d', within, key | key⟩⟩ :=
    loaded_present unloaded (isSome_of_asRow row) (by simp [Key.table])
  · cases key
  · cases key
    obtain ⟨counter, dv', row', _, id⟩ := loaded_district (P := P) before inside within
    cases row.symm.trans row'
    refine ⟨id, by rw [counterOf, counter]; decide, fun o => ?_⟩
    cases order : tables P.host (loaded P W before) (.oorder w d o) with
    | none => rfl
    | some value =>
      have present : (tables P.host (loaded P W before) (.oorder w d o)).isSome := by rw [order]; rfl
      obtain ⟨_, _, key | ⟨_, _, key | key⟩⟩ :=
        loaded_present unloaded present (by simp [Key.table]) <;>
        cases key
  · cases key

/-- What the commits so far have made of a district. -/
structure DistrictHistory (P : Platform) (past : List TpccCommit) (tables : Key → Option Bytes)
    (w d : UInt32) (dv : DistrictVal) (o : Int32) : Prop where
  row : districtRow P.host tables w d = some dv
  counter : counterOf tables w d = some o
  unpaid : (∀ commit ∈ past, ¬ PaysInto w d commit) → dv.dNextOId = 3001
  paid : ∀ commit ∈ past, PaysInto w d commit → dv.dNextOId = 0
  unordered : (∀ commit ∈ past, ¬ OrdersIn w d commit) →
    o = 3001 ∧ ∀ o, tables (.oorder w d o) = none
  ordered : ∀ commit ∈ past, OrdersIn w d commit → o = 3002 ∨ o = 1

/-- A district row shows 3001, or 0 once a payment has overwritten it; an order never changes
it. -/
theorem DistrictHistory.id {P : Platform} {past : List TpccCommit} {tables : Key → Option Bytes}
    {w d : UInt32} {dv : DistrictVal} {o : Int32} (history : DistrictHistory P past tables w d dv o) :
    dv.dNextOId = 3001 ∨ dv.dNextOId = 0 := by
  by_cases paid : ∃ commit ∈ past, PaysInto w d commit
  · obtain ⟨commit, member, into⟩ := paid
    exact .inr (history.paid commit member into)
  · exact .inl (history.unpaid fun commit member into => paid ⟨commit, member, into⟩)

/-- The copy of the counter shows 3001 until an order has set it to one more than what that
order read. -/
theorem DistrictHistory.moved {P : Platform} {past : List TpccCommit} {tables : Key → Option Bytes}
    {w d : UInt32} {dv : DistrictVal} {o : Int32} (history : DistrictHistory P past tables w d dv o) :
    o = 3001 ∨ o = 3002 ∨ o = 1 := by
  by_cases ordered : ∃ commit ∈ past, OrdersIn w d commit
  · obtain ⟨commit, member, placed⟩ := ordered
    exact .inr (history.ordered commit member placed)
  · exact .inl (history.unordered fun commit member placed => ordered ⟨commit, member, placed⟩).1

section History
variable {P : Platform} {base : Store Bytes Bytes} {world : TpccWorld} {w d : UInt32}

/-- One commit more. The district row and the counter move independently: a payment
resets the first, an order sets the second from the first. -/
theorem DistrictHistory.step {past : List TpccCommit} {commit : TpccCommit}
    {before after : Key → Option Bytes} {dv : DistrictVal} {o : Int32}
    (history : DistrictHistory P past before w d dv o) (serial : Serial P commit before after) :
    ∃ dv' o', DistrictHistory P (past ++ [commit]) after w d dv' o' := by
  obtain ⟨dv', row', unpaid', paid'⟩ : ∃ dv', districtRow P.host after w d = some dv' ∧
      ((∀ earlier ∈ past ++ [commit], ¬ PaysInto w d earlier) → dv'.dNextOId = 3001) ∧
      ∀ earlier ∈ past ++ [commit], PaysInto w d earlier → dv'.dNextOId = 0 := by
    rcases serial.district w d with ⟨elsewhere, same⟩ | ⟨into, _, dv', row', zero⟩
    · refine ⟨dv, same.trans history.row, ?_, ?_⟩
      · exact fun never => history.unpaid fun earlier member =>
          never earlier (List.mem_append_left _ member)
      · intro earlier member into
        rcases List.mem_append.mp member with old | new
        · exact history.paid earlier old into
        · cases List.mem_singleton.mp new
          exact absurd into elsewhere
    · refine ⟨dv', row', fun never => ?_, fun _ _ _ => zero⟩
      exact absurd into (never commit (List.mem_append_right _ List.mem_cons_self))
  rcases serial.counter w d with ⟨elsewhere, same⟩ | ⟨here, dv₀, row₀, becomes⟩
  · refine ⟨dv', o, row', same.trans history.counter, unpaid', paid', ?_, ?_⟩
    · intro never
      obtain ⟨counter, empty⟩ := history.unordered fun earlier member =>
        never earlier (List.mem_append_left _ member)
      exact ⟨counter, fun o => (serial.oorder elsewhere o).trans (empty o)⟩
    · intro earlier member placed
      rcases List.mem_append.mp member with old | new
      · exact history.ordered earlier old placed
      · cases List.mem_singleton.mp new
        exact absurd placed elsewhere
  · cases history.row.symm.trans row₀
    refine ⟨dv', _, row', becomes, unpaid', paid', fun never => ?_, fun _ _ _ => ?_⟩
    · exact absurd here (never commit (List.mem_append_right _ List.mem_cons_self))
    · rcases history.id with id | id <;> rw [id]
      · exact .inl (by decide)
      · exact .inr (by decide)

private theorem district_history (fresh : FreshOrders P (tables P.host base))
    (reachable : TpccReachable P base world) (within : version ≤ world.db.log.length)
    (row : (districtRow P.host (tables P.host (world.db.asOf version)) w d).isSome) :
    ∃ dv o, DistrictHistory P (world.db.log.take version) (tables P.host (world.db.asOf version))
      w d dv o := by
  refine serial_induction (Q := fun version tables => (districtRow P.host tables w d).isSome →
    ∃ dv o, DistrictHistory P (world.db.log.take version) tables w d dv o) reachable ?_ ?_ within row
  · intro present
    obtain ⟨dv, row⟩ := Option.isSome_iff_exists.mp present
    obtain ⟨id, counter, empty⟩ := fresh w d dv row
    exact ⟨dv, 3001, row, counter, fun _ => id, (by simp), fun _ => ⟨rfl, empty⟩, (by simp)⟩
  · intro version commit logged after serial ih present
    have earlier : (districtRow P.host (tables P.host (world.db.asOf version)) w d).isSome := by
      rcases serial.district w d with ⟨_, same⟩ | ⟨_, before, _⟩
      · rwa [← same]
      · exact before
    obtain ⟨dv, o, history⟩ := ih earlier
    rw [take_logged logged]
    exact history.step serial

/-- An order takes the id that its district's row holds. -/
private theorem order_history (fresh : FreshOrders P (tables P.host base))
    (reachable : TpccReachable P base world)
    (logged : world.db.log[version]? = some commit) (placed : orderOf commit = some ctx) :
    ∃ dv o, ctx.dNextOId = dv.dNextOId ∧ DistrictHistory P (world.db.log.take version)
      (tables P.host (world.db.asOf version)) ctx.wId ctx.dId dv o := by
  obtain ⟨inside, _⟩ := List.getElem?_eq_some_iff.mp logged
  obtain ⟨_, reads, _⟩ := (serial_step reachable logged).of_order placed
  obtain ⟨dv, row, id⟩ := reads.district
  obtain ⟨dv', o, history⟩ := district_history fresh reachable (Nat.le_of_lt inside)
    (w := ctx.wId) (d := ctx.dId) (by rw [districtRow, row]; rfl)
  cases row.symm.trans history.row
  exact ⟨dv, o, id, history⟩

end History

private theorem mem_take_iff {log : List α} {a : α} : a ∈ log.take n ↔ ∃ i < n, log[i]? = some a := by
  rw [List.mem_iff_getElem?]
  constructor
  · rintro ⟨i, found⟩
    rw [List.getElem?_take] at found
    split at found
    · exact ⟨i, ‹_›, found⟩
    · cases found
  · rintro ⟨i, below, found⟩
    exact ⟨i, by rw [List.getElem?_take, if_pos below, found]⟩

/-- No two orders of a district have the same id, and later ones have greater ids;
in particular no order's row is set twice. -/
def OrderIdsIncrease (P : Platform) (world : TpccWorld) : Prop :=
  ∀ (i j : Nat) first second w d (o o' : Int32), i < j →
    world.db.log[i]? = some first → world.db.log[j]? = some second →
    PlacesOrder P w d o first → PlacesOrder P w d o' second → o < o'

/-- **Order ids.** From the loaded store, order ids increase exactly as long as
every order finds its district's counter where the loader left it. -/
theorem order_ids_increase_iff {P : Platform} {W : Nat} {before : Store Bytes Bytes}
    {world : TpccWorld} (unloaded : Unloaded P before)
    (reachable : TpccReachable P (loaded P W before) world) :
    OrderIdsIncrease P world ↔
      ∀ version commit ctx, world.db.log[version]? = some commit → orderOf commit = some ctx →
        counterOf (tables P.host (world.db.asOf version)) ctx.wId ctx.dId = some 3001 := by
  have fresh := loaded_freshOrders (W := W) unloaded
  constructor
  · intro increase version commit ctx logged placed
    obtain ⟨dv, o, id, history⟩ := order_history fresh reachable logged placed
    by_cases earlier : ∃ commit ∈ world.db.log.take version, OrdersIn ctx.wId ctx.dId commit
    · exfalso
      obtain ⟨commit', member, ctx', placed', warehouse, district⟩ := earlier
      obtain ⟨version', below, logged'⟩ := mem_take_iff.mp member
      obtain ⟨dv', o', id', history'⟩ := order_history fresh reachable logged' placed'
      have less : ctx'.dNextOId < ctx.dNextOId := increase version' version commit' commit ctx.wId ctx.dId
        _ _ below logged' logged
        (((serial_step reachable logged').placesOrder ..).mpr ⟨ctx', placed', warehouse, district, rfl⟩)
        (((serial_step reachable logged).placesOrder ..).mpr ⟨ctx, placed, rfl, rfl, rfl⟩)
      rw [id, id'] at less
      rcases history'.id with old | old <;> rcases history.id with new | new <;> rw [old, new] at less
      · exact absurd less (by decide)
      · exact absurd less (by decide)
      · -- a payment reset the earlier order's id, and no later one can restore it
        have unpaid : ∀ commit ∈ world.db.log.take version', ¬ PaysInto ctx'.wId ctx'.dId commit := by
          intro paying before into
          obtain ⟨i, small, found⟩ := mem_take_iff.mp before
          rw [warehouse, district] at into
          have zero := history.paid paying (mem_take_iff.mpr ⟨i, Nat.lt_trans small below, found⟩) into
          exact absurd (new.symm.trans zero) (by decide)
        exact absurd (old.symm.trans (history'.unpaid unpaid)) (by decide)
      · exact absurd less (by decide)
    · have none : ∀ commit ∈ world.db.log.take version, ¬ OrdersIn ctx.wId ctx.dId commit :=
        fun commit member placed => earlier ⟨commit, member, placed⟩
      rw [history.counter, (history.unordered none).1]
  · intro untouched i j first second w d o o' less logged logged' places places'
    obtain ⟨ctx, placed, warehouse, district, _⟩ :=
      ((serial_step reachable logged).placesOrder ..).mp places
    obtain ⟨ctx', placed', rfl, rfl, _⟩ := ((serial_step reachable logged').placesOrder ..).mp places'
    obtain ⟨dv, counter, _, history⟩ := order_history fresh reachable logged' placed'
    have still := history.counter.symm.trans (untouched j second ctx' logged' placed')
    rcases history.ordered first (mem_take_iff.mpr ⟨i, less, logged⟩)
      ⟨ctx, placed, warehouse, district⟩ with moved | moved <;>
      rw [moved] at still <;> exact absurd (Option.some.inj still) (by decide)

/-- A request for some lines of item 1, all from warehouse 1. -/
def smallOrder (lines : UInt8) (fits : lines.toNat ≤ maxOrderLines) : NewOrderRequest :=
  ⟨{ seed := 0, wId := 1, dId := 1, cId := 1, olCnt := lines, olSupplyW := fun _ => 1,
     olIId := fun _ => 1, olQuantity := fun _ => 5, allLocal := true }, fits⟩

/-- The small store has every row that such an order reads. -/
theorem smallOrder_supplied (lines : UInt8) (fits : lines.toNat ≤ maxOrderLines) :
    ∃ dv, dv.dNextOId = 3001 ∧ NewOrder.Supplied plainPlatform (smallOrder lines fits).val.ctx dv
      (tables .little smallLoaded) := by
  obtain ⟨dv, row, _, id⟩ := smallLoaded_district 1 (.inl rfl)
  exact ⟨dv, id, fits, row, ⟨_, smallLoaded_customer 1 (.inl rfl)⟩, fun _ _ => ⟨_, smallLoaded_stock⟩⟩

/-- The first order of a district on the small store: it reads the number 3001 and leaves the
copy at 3002. -/
theorem small_order (lines : UInt8) (fits : lines.toNat ≤ maxOrderLines) :
    ∃ world commit ctx, TpccReachable plainPlatform smallLoaded world ∧
      world.db = (World.initial smallLoaded : TpccWorld).db.append commit ∧ orderOf commit = some ctx ∧
      ctx.wId = 1 ∧ ctx.dId = 1 ∧ ctx.dNextOId = 3001 ∧ ctx.olCnt = lines := by
  have start : TpccReachable plainPlatform smallLoaded (World.initial smallLoaded) := ⟨[], rfl⟩
  obtain ⟨dv, id, supplied⟩ := smallOrder_supplied lines fits
  rw [← World.initial_store (L := TpccState) smallLoaded] at supplied
  obtain ⟨world, commit, _, _, _, reached, grown, placed⟩ :=
    order_commits start (smallOrder lines fits) 0 supplied
  exact ⟨world, commit, _, reached, grown, placed, rfl, rfl, id, rfl⟩

/-- A second order of the same district takes the same number, since the district row is as it
was. -/
theorem small_orders (lines lines' : UInt8) (fits : lines.toNat ≤ maxOrderLines)
    (fits' : lines'.toNat ≤ maxOrderLines) :
    ∃ world first second ctx ctx', TpccReachable plainPlatform smallLoaded world ∧
      world.db.log = [first, second] ∧ orderOf first = some ctx ∧ orderOf second = some ctx' ∧
      ctx.wId = 1 ∧ ctx.dId = 1 ∧ ctx.dNextOId = 3001 ∧ ctx.olCnt = lines ∧
      ctx'.wId = 1 ∧ ctx'.dId = 1 ∧ ctx'.dNextOId = 3001 ∧ ctx'.olCnt = lines' := by
  obtain ⟨middle, first, ctx, reached, grown, placed, facts⟩ := small_order lines fits
  obtain ⟨dv, id, supplied⟩ := smallOrder_supplied lines' fits'
  rw [← World.initial_store (L := TpccState) smallLoaded] at supplied
  have unpaid : ¬ PaysInto 1 1 first := fun ⟨_, paid, _⟩ => by
    rw [paymentOf_order placed] at paid
    cases paid
  obtain ⟨world, second, _, _, _, reached', grown', placed'⟩ :=
    order_commits reached (smallOrder lines' fits') 0 (supplied.step (serial_last reached grown) unpaid)
  obtain ⟨w, d, first_id, lines_eq⟩ := facts
  refine ⟨world, first, second, ctx, _, reached', ?_, placed, placed', w, d, first_id, lines_eq, rfl,
    rfl, id, rfl⟩
  rw [grown', grown]
  rfl

/-- Two orders of six lines of one district share the number 3001: the second replaces the
first. -/
theorem order_id_reused : Unloaded plainPlatform smallStore ∧
    ∃ world, TpccReachable plainPlatform (loaded plainPlatform 2 smallStore) world ∧
      ∃ first second, world.db.log = [first, second] ∧ PlacesOrder plainPlatform 1 1 3001 first ∧
        PlacesOrder plainPlatform 1 1 3001 second ∧ ¬ OrderIdsIncrease plainPlatform world := by
  obtain ⟨world, first, second, ctx, ctx', reached, log, placed, placed', w, d, id, _, w', d', id', _⟩ :=
    small_orders 6 6 (by decide) (by decide)
  have logged : world.db.log[0]? = some first := by rw [log]; rfl
  have logged' : world.db.log[1]? = some second := by rw [log]; rfl
  have places : PlacesOrder plainPlatform 1 1 3001 first :=
    ((serial_step reached logged).placesOrder ..).mpr ⟨ctx, placed, w, d, id⟩
  have places' : PlacesOrder plainPlatform 1 1 3001 second :=
    ((serial_step reached logged').placesOrder ..).mpr ⟨ctx', placed', w', d', id'⟩
  refine ⟨smallStore_unloaded, world, reached, first, second, log, places, places', fun increase => ?_⟩
  exact absurd (increase 0 1 first second 1 1 3001 3001 Nat.zero_lt_one logged logged' places places')
    (by decide)

/-- A single order meets the condition, as there is nothing for it to differ from. -/
theorem order_ids_increase_iff_single :
    ∃ world commit, TpccReachable plainPlatform (loaded plainPlatform 2 smallStore) world ∧
      world.db.log = [commit] ∧ (orderOf commit).isSome ∧ OrderIdsIncrease plainPlatform world := by
  obtain ⟨world, commit, ctx, reached, grown, placed, w, d, _⟩ := small_order 6 (by decide)
  have log : world.db.log = [commit] := by rw [grown]; rfl
  refine ⟨world, commit, reached, log, by rw [placed]; rfl, ?_⟩
  refine (order_ids_increase_iff smallStore_unloaded reached).mpr ?_
  intro version commit' ctx' logged placed'
  rw [log, List.getElem?_singleton] at logged
  split at logged
  · cases logged
    cases placed.symm.trans placed'
    obtain ⟨dv, row, _⟩ := smallLoaded_district 1 (.inl rfl)
    obtain ⟨_, counter, _⟩ := loaded_freshOrders smallStore_unloaded 1 1 dv row
    subst version
    rw [Database.asOf_zero, World.reachable_base reached, w, d]
    exact counter
  · cases logged

/-! ## The two copies of the next id -/

/-- The commit placed an order in the district or paid into it. -/
def Touches (w d : UInt32) (commit : TpccCommit) : Prop :=
  OrdersIn w d commit ∨ PaysInto w d commit

/-- The counter decodes to the district row's `d_next_o_id`, and every order of the
district is below it. -/
def CopiesAgree (tables : Key → Option Bytes) (w d : UInt32) (dv : DistrictVal) : Prop :=
  counterOf tables w d = some dv.dNextOId ∧
    ∀ o : Int32, (tables (.oorder w d o.toUInt32)).isSome → o < dv.dNextOId

/-- **Next-id copies.** From the loaded store, a district's two copies agree exactly
as long as no order and no payment has touched the district. -/
theorem copies_agree_iff {P : Platform} {W : Nat} {before : Store Bytes Bytes} {world : TpccWorld}
    (unloaded : Unloaded P before) (reachable : TpccReachable P (loaded P W before) world)
    {w d : UInt32} {dv : DistrictVal}
    (row : districtRow P.host (tables P.host world.db.store) w d = some dv) :
    CopiesAgree (tables P.host world.db.store) w d dv ↔
      ∀ commit ∈ world.db.log, ¬ Touches w d commit := by
  have fresh := loaded_freshOrders (W := W) unloaded
  obtain ⟨dv', o, history⟩ := district_history fresh reachable (Nat.le_refl _) (w := w) (d := d)
    (by rw [← Database.store, row]; rfl)
  rw [List.take_length, ← Database.store] at history
  cases row.symm.trans history.row
  constructor
  · rintro ⟨agree, _⟩ commit member (placed | paid)
    · have same := Option.some.inj (history.counter.symm.trans agree)
      rcases history.ordered commit member placed with moved | moved <;>
        rcases history.id with id | id <;> rw [moved, id] at same <;> exact absurd same (by decide)
    · have same := Option.some.inj (history.counter.symm.trans agree)
      rw [history.paid commit member paid] at same
      rcases history.moved with at3001 | moved | moved
      · exact absurd (at3001.symm.trans same) (by decide)
      · exact absurd (moved.symm.trans same) (by decide)
      · exact absurd (moved.symm.trans same) (by decide)
  · intro untouched
    obtain ⟨counter, empty⟩ := history.unordered fun commit member placed =>
      untouched commit member (.inl placed)
    have id := history.unpaid fun commit member paid => untouched commit member (.inr paid)
    refine ⟨by rw [history.counter, counter, id], fun o present => ?_⟩
    rw [empty] at present
    cases present

/-- One order leaves the copies at 3001 and 3002: it sets the counter, and not the district row. -/
theorem copies_part_after_order : Unloaded plainPlatform smallStore ∧
    ∃ world dv, TpccReachable plainPlatform (loaded plainPlatform 2 smallStore) world ∧
      districtRow .little (tables .little world.db.store) 1 1 = some dv ∧ dv.dNextOId = 3001 ∧
      counterOf (tables .little world.db.store) 1 1 = some 3002 ∧
      ¬ CopiesAgree (tables .little world.db.store) 1 1 dv := by
  obtain ⟨world, commit, ctx, reached, grown, placed, w, d, _⟩ := small_order 6 (by decide)
  have serial := serial_last reached grown
  rw [World.initial_store] at serial
  obtain ⟨dv, row, _, id⟩ := smallLoaded_district 1 (.inl rfl)
  have row' : districtRow .little (tables .little world.db.store) 1 1 = some dv := by
    rcases serial.district 1 1 with ⟨_, same⟩ | ⟨⟨_, paid, _⟩, _⟩
    · exact same.trans row
    · rw [paymentOf_order placed] at paid
      cases paid
  have counter : counterOf (tables .little world.db.store) 1 1 = some 3002 := by
    rcases serial.counter 1 1 with ⟨elsewhere, _⟩ | ⟨_, dv', found, becomes⟩
    · exact absurd ⟨ctx, placed, w, d⟩ elsewhere
    · cases row.symm.trans found
      exact becomes.trans (by rw [id]; decide)
  refine ⟨smallStore_unloaded, world, dv, reached, row', id, counter, fun ⟨agree, _⟩ => ?_⟩
  rw [counter, id] at agree
  exact absurd (Option.some.inj agree) (by decide)

/-- The district of the other warehouse is untouched by that order, and its copies agree. -/
theorem copies_agree_iff_elsewhere :
    ∃ world dv, TpccReachable plainPlatform (loaded plainPlatform 2 smallStore) world ∧
      world.db.log.length = 1 ∧
      districtRow plainPlatform.host (tables plainPlatform.host world.db.store) 2 1 = some dv ∧
      CopiesAgree (tables plainPlatform.host world.db.store) 2 1 dv := by
  obtain ⟨world, commit, ctx, reached, grown, placed, w, _⟩ := small_order 6 (by decide)
  have serial := serial_last reached grown
  rw [World.initial_store] at serial
  obtain ⟨dv, row, _, _⟩ := smallLoaded_district 2 (.inr rfl)
  have row' : districtRow plainPlatform.host (tables plainPlatform.host world.db.store) 2 1 = some dv := by
    rcases serial.district 2 1 with ⟨_, same⟩ | ⟨⟨_, paid, _⟩, _⟩
    · exact same.trans row
    · rw [paymentOf_order placed] at paid
      cases paid
  refine ⟨world, dv, reached, by rw [grown]; rfl, row', ?_⟩
  refine (copies_agree_iff smallStore_unloaded reached row').mpr ?_
  intro other member
  have log : world.db.log = [commit] := by rw [grown]; rfl
  rw [log] at member
  cases List.mem_singleton.mp member
  rintro (⟨ctx', placed', w', _⟩ | ⟨_, paid, _⟩)
  · cases placed.symm.trans placed'
    exact absurd (w.symm.trans w') (by decide)
  · rw [paymentOf_order placed] at paid
    cases paid

end H2oTpcc

import H2oTpcc.Ledger
import Mathlib.Algebra.BigOperators.Group.Finset.Basic
import Mathlib.Algebra.BigOperators.Group.Finset.Piecewise
import Mathlib.Data.FinEnum

/-! Warehouse totals against district totals. A payment adds to the total of the
terminal's warehouse and to the total of a district of the customer's warehouse, so
the books balance as long as the two are the same. -/
namespace H2oTpcc

/-- `int64_t` under its wrapping addition. -/
instance int64AddCommGroup : AddCommGroup Int64 where
  add_assoc := Int64.add_assoc
  zero_add := Int64.zero_add
  add_zero := Int64.add_zero
  add_comm := Int64.add_comm
  neg_add_cancel := Int64.add_left_neg
  sub_eq_add_neg := Int64.sub_eq_add_neg
  nsmul := nsmulRec
  zsmul := zsmulRec

/-- The sum of `d_ytd` over the districts that a warehouse has. -/
def districtsTotal (host : Endian) (tables : Key → Option Bytes) (w : UInt32) : Int64 :=
  ∑ d : UInt32, ((districtRow host tables w d).map (·.dYtd)).getD 0

/-- Every warehouse's total is the sum of its districts' totals. -/
def Balanced (host : Endian) (tables : Key → Option Bytes) : Prop :=
  ∀ w, ∀ wv ∈ warehouseRow host tables w, wv.wYtd = districtsTotal host tables w

/-- The payment is by a customer of the terminal's own warehouse, or of nothing. -/
def PaidLocally (ctx : PaymentCtx) : Prop := ctx.cWId = ctx.wId ∨ ctx.hAmount = 0

section Step
variable {P : Platform} {before after : Key → Option Bytes}

private theorem Serial.districts_total (w : UInt32) (serial : Serial P commit before after) :
    districtsTotal P.host after w =
      districtsTotal P.host before w + paid (fun ctx => ctx.cWId = w) [commit] := by
  have moved (d : UInt32) := serial.district_ytd w d
  unfold districtsTotal
  cases serial with
  | order ctx now placed other fits reads writes becomes =>
    simp only [paid_order _ other, add_zero] at moved ⊢
    exact Finset.sum_congr rfl fun d _ => by rw [moved]
  | payment ctx cv now made other warehouse district customer writes becomes =>
    simp only [paid_payment _ made] at moved ⊢
    have each (d : UInt32) : ((districtRow P.host after w d).map (·.dYtd)).getD 0 =
        ((districtRow P.host before w d).map (·.dYtd)).getD 0 +
          if ctx.cDId = d then (if ctx.cWId = w then ctx.hAmount.toInt64 else 0) else 0 := by
      rw [moved]
      by_cases own : ctx.cWId = w ∧ ctx.cDId = d
      · obtain ⟨rfl, rfl⟩ := own
        obtain ⟨dv, row, _⟩ := district
        simp [districtRow, row]
      · cases row : districtRow P.host before w d <;> grind
    rw [Finset.sum_congr rfl fun d _ => each d, Finset.sum_add_distrib, Finset.sum_ite_eq]
    simp

/-- On a balanced store, a transaction keeps the balance of the warehouses for which
it adds to both sides alike. -/
theorem Serial.balanced_iff_paid (serial : Serial P commit before after)
    (balanced : Balanced P.host before) :
    Balanced P.host after ↔ ∀ w, (warehouseRow P.host before w).isSome →
      paid (fun ctx => ctx.wId = w) [commit] = paid (fun ctx => ctx.cWId = w) [commit] := by
  have sides (w : UInt32) {wv wv' : WarehouseVal} (row : warehouseRow P.host before w = some wv)
      (row' : warehouseRow P.host after w = some wv') :
      wv'.wYtd = districtsTotal P.host after w ↔
        paid (fun ctx => ctx.wId = w) [commit] = paid (fun ctx => ctx.cWId = w) [commit] := by
    have moved := serial.warehouse_ytd w
    rw [row, row', Option.map_some, Option.map_some, Option.some_inj] at moved
    rw [serial.districts_total, moved, balanced w wv row, add_right_inj]
  have rows (w : UInt32) :
      (warehouseRow P.host after w).isSome = (warehouseRow P.host before w).isSome := by
    simpa using congrArg Option.isSome (serial.warehouse_ytd w)
  constructor
  · intro after w present
    obtain ⟨wv, row⟩ := Option.isSome_iff_exists.mp present
    obtain ⟨wv', row'⟩ := Option.isSome_iff_exists.mp ((rows w).trans present)
    exact (sides w row row').mp (after w wv' row')
  · intro alike w wv' row'
    have present : (warehouseRow P.host before w).isSome := by
      rw [← rows, Option.isSome_iff_exists]
      exact ⟨wv', row'⟩
    obtain ⟨wv, row⟩ := Option.isSome_iff_exists.mp present
    exact (sides w row row').mpr (alike w present)

/-- A transaction on a balanced store keeps it balanced exactly if it pays locally. -/
theorem Serial.balanced_iff (serial : Serial P commit before after) (balanced : Balanced P.host before) :
    Balanced P.host after ↔ ∀ ctx, paymentOf commit = some ctx → PaidLocally ctx := by
  rw [serial.balanced_iff_paid balanced]
  cases serial with
  | order ctx now placed other fits reads writes becomes =>
    simp [paid_order _ other, other]
  | payment ctx cv now made other warehouse district customer writes becomes =>
    simp only [paid_payment _ made, made, Option.some.injEq, forall_eq', decide_eq_true_eq]
    constructor
    · intro alike
      obtain ⟨wv, row, _⟩ := warehouse
      have own := alike ctx.wId (by rw [warehouseRow, row]; rfl)
      by_cases local' : ctx.cWId = ctx.wId
      · exact .inl local'
      · rw [if_pos rfl, if_neg local'] at own
        exact .inr (by simpa using congrArg Int64.toInt32 own)
    · rintro (same | free) w _
      · rw [same]
      · simp [free]

end Step

/-- **The books.** From a balanced store, every store of a run is balanced exactly if
every payment of the run was by a customer of the terminal's own warehouse. -/
theorem books_balance_iff {P : Platform} {base : Store Bytes Bytes} {world : TpccWorld}
    (balanced : Balanced P.host (tables P.host base)) (reachable : TpccReachable P base world) :
    (∀ version ≤ world.db.log.length, Balanced P.host (tables P.host (world.db.asOf version))) ↔
      ∀ commit ∈ world.db.log, ∀ ctx, paymentOf commit = some ctx → PaidLocally ctx := by
  constructor
  · intro always commit member
    obtain ⟨version, logged⟩ := List.mem_iff_getElem?.mp member
    obtain ⟨within, _⟩ := List.getElem?_eq_some_iff.mp logged
    rw [← (serial_step reachable logged).balanced_iff (always version (Nat.le_of_lt within))]
    exact always (version + 1) within
  · intro locally version within
    refine serial_induction (Q := fun _ tables => Balanced P.host tables) reachable balanced ?_ within
    intro version commit logged after serial before
    exact (serial.balanced_iff before).mpr (locally commit (List.mem_of_getElem? logged))

/-! ## The loaded store -/

private theorem loaded_districtsTotal {P : Platform} {W : Nat} {before : Store Bytes Bytes} {w : UInt32}
    (unloaded : Unloaded P before) (inside : w ∈ oneTo W) :
    districtsTotal P.host (tables P.host (loaded P W before)) w = 30000000 := by
  have each (d : UInt32) :
      ((districtRow P.host (tables P.host (loaded P W before)) w d).map (·.dYtd)).getD 0 =
        if d ∈ (oneTo districtsPerWarehouse.toNat).toFinset then 3000000 else 0 := by
    by_cases within : d ∈ oneTo districtsPerWarehouse.toNat
    · obtain ⟨_, dv, row, ytd, _⟩ := loaded_district (P := P) before inside within
      simp [row, ytd, within]
    · have absent : tables P.host (loaded P W before) (.district w d) = none := by
        rw [← Option.not_isSome_iff_eq_none]
        intro present
        obtain ⟨w', _, impossible | ⟨d', within', same | impossible⟩⟩ :=
          loaded_present unloaded present (by simp [Key.table])
        · cases impossible
        · cases same
          exact within within'
        · cases impossible
      simp [districtRow, absent, within]
  rw [districtsTotal, Finset.sum_congr rfl fun d _ => each d, Finset.sum_ite_mem, Finset.univ_inter]
  decide

/-- The loader leaves a balanced store: ten districts of 3000000 in each warehouse. -/
theorem loaded_balanced {P : Platform} {W : Nat} {before : Store Bytes Bytes}
    (unloaded : Unloaded P before) : Balanced P.host (tables P.host (loaded P W before)) := by
  intro w wv row
  obtain ⟨w', inside, same | ⟨d, _, impossible | impossible⟩⟩ :=
    loaded_present unloaded (isSome_of_asRow row) (by simp [Key.table])
  · cases same
    obtain ⟨wv', row', ytd⟩ := loaded_warehouse (P := P) before inside
    cases row'.symm.trans row
    rw [ytd, loaded_districtsTotal unloaded inside]
  · cases impossible
  · cases impossible

/-- A payment by a customer of the other warehouse unbalances the loaded store: it adds to the
warehouse paid at and to a district of the other one. -/
theorem remote_payment_unbalances :
    Balanced .little (tables .little smallLoaded) ∧
      ∃ world commit ctx, TpccReachable plainPlatform smallLoaded world ∧ world.db.log = [commit] ∧
        paymentOf commit = some ctx ∧ ctx.wId = 1 ∧ ctx.cWId = 2 ∧
        ¬ Balanced .little (tables .little world.db.store) := by
  have balanced : Balanced .little (tables .little smallLoaded) :=
    loaded_balanced (P := plainPlatform) smallStore_unloaded
  obtain ⟨world, commit, ctx, reached, grown, made, w, cw, _, _, amount⟩ := small_payment 2 (.inr rfl)
  refine ⟨balanced, world, commit, ctx, reached, by rw [grown]; rfl, made, w, cw, fun after => ?_⟩
  have serial := serial_last reached grown
  rw [World.initial_store] at serial
  rcases (serial.balanced_iff balanced).mp after ctx made with same | free
  · rw [w, cw] at same
    exact absurd same (by decide)
  · rw [amount] at free
    exact absurd free (by decide)

/-- A local payment keeps the loaded store balanced: warehouse and district grow by the same
amount. -/
theorem books_balance_iff_local :
    ∃ world commit, TpccReachable plainPlatform smallLoaded world ∧ world.db.log = [commit] ∧
      (paymentOf commit).isSome ∧
      ∀ version ≤ world.db.log.length, Balanced .little (tables .little (world.db.asOf version)) := by
  obtain ⟨world, commit, ctx, reached, grown, made, w, cw, _⟩ := small_payment 1 (.inl rfl)
  have log : world.db.log = [commit] := by rw [grown]; rfl
  refine ⟨world, commit, reached, log, by rw [made]; rfl, ?_⟩
  refine (books_balance_iff (P := plainPlatform) (loaded_balanced smallStore_unloaded) reached).mpr ?_
  intro commit' member ctx' made'
  rw [log, List.mem_singleton] at member
  subst member
  cases made.symm.trans made'
  exact .inl (cw.trans w.symm)

end H2oTpcc

import H2oTpcc.OrderLines
import H2oTpcc.OrderRetries

/-! Everything a committed order changes. Its sets go through one buffer, in two
loops and three single calls, under keys of five tables; no other key of the store
moves, and what stands under the keys of the order is what the request asked for. -/
namespace H2oTpcc

/-- The keys an order with the id `oId` may set. -/
def NewOrderParams.keys (request : NewOrderParams) (oId : UInt32) : List Key :=
  [.oorder request.wId request.dId oId, .newOrder request.wId request.dId oId,
    .nextOId request.wId request.dId] ++
  (List.range request.olCnt.toNat).map (fun i =>
    .orderLine request.wId request.dId oId (UInt32.ofNat (i + 1))) ++
  (List.range request.olCnt.toNat).map fun i =>
    .stock (request.olSupplyW i).toUInt32 (request.olIId i)

/-- What a committed order with the id `oId` does to the store. -/
structure OrderDelta (host : Endian) (request : NewOrderParams) (oId : Int32)
    (before after : Store Bytes Bytes) : Prop where
  frame : ∀ key, (∀ own ∈ request.keys oId.toUInt32, key ≠ own.build host) → after[key]? = before[key]?
  oorder : ∃ row : OorderVal,
    asRow host (tables host after (.oorder request.wId request.dId oId.toUInt32)) = some row ∧
    row.oCId = request.cId ∧ row.oOlCnt.toInt = request.olCnt.toNat ∧
    row.oAllLocal = if request.allLocal then 1 else 0
  lines : ∀ j, 1 ≤ j → j ≤ request.olCnt.toNat → ∃ row : OrderLineVal,
    asRow host (tables host after
      (.orderLine request.wId request.dId oId.toUInt32 (UInt32.ofNat j))) = some row ∧
    row.olIId = request.olIId (j - 1) ∧
    row.olSupplyWId.toNat = (request.olSupplyW (j - 1)).toNat ∧
    row.olQuantity.toInt = (request.olQuantity (j - 1)).toNat
  counter : ∃ value, after[kvNextOIdKey request.wId request.dId]? = some value ∧
    (kvDecodeNextOId value value.length).toInt = oId.toInt + 1

namespace NewOrder
variable {P : Platform}

private theorem rows_keys (P : Platform) (ctx : NewOrderCtx) (now : Int64) :
    ∀ row ∈ rows P ctx now, row.1 ∈ ctx.params.keys ctx.dNextOId.toUInt32 := by
  intro row member
  simp only [rows, List.mem_append, List.mem_cons, List.mem_map, List.not_mem_nil, or_false] at member
  rcases member with (((rfl | rfl) | ⟨i, below, rfl⟩) | rfl) | ⟨i, below, rfl⟩
  · simp [NewOrderParams.keys, NewOrderCtx.params]
  · simp [NewOrderParams.keys, NewOrderCtx.params]
  · exact List.mem_append_left _ (List.mem_append_right _ (List.mem_map.mpr ⟨i, below, rfl⟩))
  · simp [NewOrderParams.keys, NewOrderCtx.params]
  · exact List.mem_append_right _ (List.mem_map.mpr ⟨i, below, rfl⟩)

/-- The sets of an order, applied to any store. -/
private theorem delta (P : Platform) (ctx : NewOrderCtx) (now : Int64) (before : Store Bytes Bytes)
    (room : ctx.dNextOId.toInt < 2 ^ 31 - 1) :
    OrderDelta P.host ctx.params ctx.dNextOId before
      (applyWrites before (built P.host (rows P ctx now))) where
  frame := by
    intro key apart
    apply applyWrites_other
    intro write member same
    obtain ⟨row, inside, rfl⟩ := List.mem_map.mp member
    exact apart row.1 (rows_keys P ctx now row inside) same.symm
  oorder := by
    refine ⟨oorderVal ctx now, ?_, rfl, oOlCnt_toInt ctx.olCnt, rfl⟩
    rw [tables_applyWrites, rows_oorder, if_pos ⟨rfl, rfl, rfl⟩, Option.some_or, asRow_encode]
  lines := by
    intro j first last
    have few := ctx.olCnt.toNat_lt
    have last' : j ≤ ctx.olCnt.toNat := last
    have number : (UInt32.ofNat j).toNat = j := UInt32.toNat_ofNat_of_lt' (by
      have : UInt32.size = 4294967296 := rfl
      omega)
    refine ⟨orderLineVal ctx (j - 1), ?_, rfl, UInt8.toNat_toUInt32 _, oOlCnt_toInt _⟩
    rw [tables_applyWrites, rows_orderLine, number, if_pos ⟨⟨rfl, rfl, rfl⟩, first, last⟩,
      Option.some_or, asRow_encode]
  counter := by
    have next : (ctx.dNextOId + 1).toInt = ctx.dNextOId.toInt + 1 := by
      have least := ctx.dNextOId.le_toInt
      rw [Int32.toInt_add]
      exact Int.bmod_eq_of_le (by simp; omega) (by simp; omega)
    refine ⟨kvEncodeNextOId (ctx.dNextOId + 1), ?_, ?_⟩
    · have set := tables_applyWrites P.host before (rows P ctx now) (.nextOId ctx.wId ctx.dId)
      rw [rows_nextOId, if_pos ⟨rfl, rfl⟩, Option.some_or] at set
      exact set
    · exact (congrArg Int32.toInt (kvDecodeNextOId_encode _)).trans next

end NewOrder

/-- **NewOrder's store delta is exact.** A commit of an order is that of a request of
its connection; it took its id from the district's row, and it left everything but
the rows of the order, its counter and its stock as it was. -/
theorem new_order_delta_exact {P : Platform} {base : Store Bytes Bytes} {world : TpccWorld}
    {events : List (Event (NewOrderRequest ⊕ PaymentParams))}
    (ran : (World.initial base).run (tpccClient P) events = some world)
    (logged : world.db.log[version]? = some commit) (placed : orderOf commit = some ctx) :
    ∃ (request : NewOrderRequest) (dv : DistrictVal),
      asked events commit.author.1 = some (.inl request) ∧ ctx.params = request.val ∧
      districtRow P.host (tables P.host (world.db.asOf version)) request.val.wId request.val.dId =
        some dv ∧
      (dv.dNextOId.toInt < 2 ^ 31 - 1 →
        OrderDelta P.host request.val dv.dNextOId (world.db.asOf version)
          (world.db.asOf (version + 1))) := by
  obtain ⟨_, reads, _⟩ := (serial_step ⟨events, ran⟩ logged).of_order placed
  obtain ⟨inputs, request, _, _, known, own, writes⟩ := order_request ran logged placed
  obtain ⟨dv, row, id⟩ := reads.district
  refine ⟨request, dv, known, own, own ▸ row, fun room => ?_⟩
  rw [← id] at room ⊢
  rw [← own, world.db.asOf_succ logged, writes]
  exact NewOrder.delta P ctx _ _ room

/-- An order on the small store changes exactly its own rows, under the number 3001. -/
theorem new_order_delta_exact_small : ∃ world commit request,
    TpccReachable plainPlatform smallLoaded world ∧ world.db.log[0]? = some commit ∧
    (orderOf commit).isSome ∧
    OrderDelta .little request 3001 (world.db.asOf 0) (world.db.asOf 1) := by
  obtain ⟨world, commit, ctx, reached, grown, placed, warehouse, district, _⟩ :=
    small_order 6 (by decide)
  have logged : world.db.log[0]? = some commit := by rw [grown]; rfl
  have base := World.reachable_base reached
  obtain ⟨events, ran⟩ := reached
  obtain ⟨request, dv, _, own, row, delta⟩ := new_order_delta_exact ran logged placed
  obtain ⟨dv', row', _, id⟩ := smallLoaded_district 1 (.inl rfl)
  have same : dv = dv' := by
    rw [← own, Database.asOf_zero, base] at row
    change districtRow .little _ ctx.wId ctx.dId = some dv at row
    rw [warehouse, district] at row
    exact Option.some_inj.mp (row.symm.trans row')
  rw [same, id] at delta
  exact ⟨world, commit, request.val, ⟨events, ran⟩, logged, by rw [placed]; rfl,
    delta (by decide)⟩

end H2oTpcc

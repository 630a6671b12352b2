import H2oTpcc.OrderLineDraws
import H2oTpcc.Payment

/-! The parameters that NewOrder and Payment draw. Every draw from a positive maximum
stays in the range it is meant for; the warehouses are drawn from the maximum 0, which
divides by zero, at every NewOrder and at every Payment that is to be a remote one. -/
namespace H2oTpcc

/-! ## NewOrder -/

/-- The parameters of a NewOrder are in their ranges. -/
structure NewOrderParams.InRange (params : NewOrderParams) : Prop where
  wId : 1 ≤ params.wId.toNat
  dId : 1 ≤ params.dId.toNat ∧ params.dId.toNat ≤ 10
  cId : 1 ≤ params.cId.toNat ∧ params.cId.toNat ≤ 3000
  olCnt : 5 ≤ params.olCnt.toNat ∧ params.olCnt.toNat ≤ 15
  olIId : ∀ i < params.olCnt.toNat, 1 ≤ (params.olIId i).toNat ∧ (params.olIId i).toNat ≤ 100000
  olQuantity : ∀ i < params.olCnt.toNat, 1 ≤ (params.olQuantity i).toNat ∧ (params.olQuantity i).toNat ≤ 10
  olSupplyW : ∀ i < params.olCnt.toNat, 1 ≤ (params.olSupplyW i).toNat

namespace NewOrder
variable (P : Platform)

/-- The draws that follow the one of the home warehouse. -/
private def drawOthers (seed w : UInt32) : Draw NewOrderParams := do
  let d ← getRandomNumber P (districtsPerWarehouse - 1)
  let cId ← nurandCustomer P
  let lines ← getRandomNumber P (UInt32.ofNat (maxOrderLines - minOrderLines))
  let olCnt := (UInt32.ofNat minOrderLines + lines).toUInt8
  drawLines P {
    seed, wId := 1 + w, dId := 1 + d, cId, olCnt, allLocal := true
    olSupplyW := fun _ => 0, olIId := fun _ => 0, olQuantity := fun _ => 0 }
    (List.range olCnt.toNat)

private theorem drawParams_apply (seed : UInt32) : drawParams P seed { seed } =
    drawOthers P seed (getRandomNumber P 0 { seed }).1 (getRandomNumber P 0 { seed }).2 := rfl

/-- In range but for the warehouses: every line is supplied by the home warehouse. -/
private structure Sound (params : NewOrderParams) : Prop where
  dId : 1 ≤ params.dId.toNat ∧ params.dId.toNat ≤ 10
  cId : 1 ≤ params.cId.toNat ∧ params.cId.toNat ≤ 3000
  olCnt : 5 ≤ params.olCnt.toNat ∧ params.olCnt.toNat ≤ 15
  lines : ∀ i < params.olCnt.toNat, (1 ≤ (params.olIId i).toNat ∧ (params.olIId i).toNat ≤ 100000) ∧
    (1 ≤ (params.olQuantity i).toNat ∧ (params.olQuantity i).toNat ≤ 10) ∧
    params.olSupplyW i = params.wId.toUInt8

private theorem nurandCustomer_meets : (nurandCustomer P).Meets fun r => 1 ≤ r.toNat ∧ r.toNat ≤ 3000 :=
  (randR_meets P).bind fun r _ => (rem_meets P r (by decide)).bind fun C _ =>
    nurand_meets P C (by decide) (by decide) (by decide)

private theorem withLines_sound {params : NewOrderParams}
    (dId : 1 ≤ params.dId.toNat ∧ params.dId.toNat ≤ 10)
    (cId : 1 ≤ params.cId.toNat ∧ params.cId.toNat ≤ 3000)
    (olCnt : 5 ≤ params.olCnt.toNat ∧ params.olCnt.toNat ≤ 15) {lines : List LineDraw}
    (counted : lines.length = params.olCnt.toNat)
    (fine : ∀ line ∈ lines, (1 ≤ line.iId.toNat ∧ line.iId.toNat ≤ 100000) ∧ line.remote = none ∧
      1 ≤ line.quantity.toNat ∧ line.quantity.toNat ≤ 9) : Sound (withLines params 0 lines) := by
  obtain ⟨sameW, sameD, sameC, sameCnt, -⟩ := withLines_frame params 0 lines
  refine ⟨by rwa [sameD], by rwa [sameC], by rwa [sameCnt], fun i inside => ?_⟩
  rw [sameCnt, ← counted] at inside
  obtain ⟨item, supply, quantity⟩ := withLines_line params 0 (List.getElem?_eq_getElem inside)
  rw [Nat.zero_add] at item supply quantity
  obtain ⟨iRange, alone, least, most⟩ := fine _ (List.getElem_mem inside)
  have small : (1 + lines[i].quantity).toUInt8.toNat = 1 + lines[i].quantity.toNat := by
    rw [UInt32.toNat_toUInt8, toNat_one_add most (by decide)]
    omega
  rw [item, supply, quantity, small, sameW, LineDraw.supplyW, alone]
  exact ⟨iRange, by omega, rfl⟩

private theorem drawOthers_meets (seed w : UInt32) :
    (drawOthers P seed w).Meets fun params => params.wId = 1 + w ∧ Sound params := by
  refine (getRandomNumber_meets P (by decide)).bind fun d (dRange : _ ∧ d.toNat ≤ 9) =>
    (nurandCustomer_meets P).bind fun cId cRange => (getRandomNumber_meets P (by decide)).bind
      fun lines (lRange : _ ∧ lines.toNat ≤ 10) => ?_
  have district := toNat_one_add dRange.2 (by decide)
  have count : (UInt32.ofNat minOrderLines + lines).toUInt8.toNat = 5 + lines.toNat := by
    have five : (UInt32.ofNat minOrderLines).toNat = 5 := rfl
    rw [UInt32.toNat_toUInt8, UInt32.toNat_add, five]
    omega
  dsimp only
  rw [List.range_eq_range', drawLines_eq]
  refine (drawLineDraws_meets P _).map fun drawn ⟨counted, fine⟩ =>
    ⟨(withLines_frame _ 0 drawn).1, withLines_sound ?_ cRange ?_ counted fine⟩
  · rw [district]
    omega
  · rw [count]
    omega

/-- The home warehouse is drawn from the maximum 0 at every seed. -/
private theorem drawParams_undefined (seed : UInt32) :
    (drawParams P seed { seed }).2.undefined = true := by
  rw [drawParams_apply, (drawOthers_meets P seed _ _).2, getRandomNumber_zero]

/-- Whatever the division gives, all else is in range; the lines are supplied by the last
eight bits of the home warehouse. -/
theorem drawParams_inRange_iff (seed : UInt32) :
    ((drawParams P seed).value { seed }).InRange ↔
      ((drawParams P seed).value { seed }).wId.toNat % 256 ≠ 0 := by
  have sound : Sound ((drawParams P seed).value { seed }) := by
    rw [Draw.value, drawParams_apply]
    exact (drawOthers_meets P seed _ _).1.2
  generalize (drawParams P seed).value { seed } = params at sound ⊢
  have supply {i : Nat} (inside : i < params.olCnt.toNat) :
      (params.olSupplyW i).toNat = params.wId.toNat % 256 := by
    rw [(sound.lines i inside).2.2, UInt32.toNat_toUInt8]
  constructor
  · intro inRange
    have first : 0 < params.olCnt.toNat := Nat.lt_of_lt_of_le (by decide) sound.olCnt.1
    rw [← supply first]
    exact Nat.one_le_iff_ne_zero.mp (inRange.olSupplyW 0 first)
  · intro nonzero
    refine ⟨by omega, sound.dId, sound.cId, sound.olCnt, fun i inside => (sound.lines i inside).1,
      fun i inside => (sound.lines i inside).2.1, fun i inside => ?_⟩
    rw [supply inside]
    exact Nat.one_le_iff_ne_zero.mpr nonzero

end NewOrder

/-! ## Payment -/

/-- The parameters of a Payment are in their ranges, the customer chosen once the district
is read among them. -/
structure PaymentParams.InRange (P : Platform) (params : PaymentParams) : Prop where
  wId : 1 ≤ params.wId.toNat
  dId : 1 ≤ params.dId.toNat ∧ params.dId.toNat ≤ 10
  cWId : 1 ≤ params.cWId.toNat
  cDId : 1 ≤ params.cDId.toNat ∧ params.cDId.toNat ≤ 10
  cId : ∀ dv, 1 ≤ (Payment.withDistrict P dv params.ctx).cId.toNat ∧
    (Payment.withDistrict P dv params.ctx).cId.toNat ≤ 3000
  hAmount : 100 ≤ params.hAmount.toInt ∧ params.hAmount.toInt ≤ 500000

namespace Payment
variable (P : Platform)

/-- The draws that follow the one of the customer's warehouse. -/
private def drawOthers (seed dId cWId : UInt32) : Draw PaymentParams := do
  let cd ← getRandomNumber P (districtsPerWarehouse - 1)
  let (cId, cLast, byName) ← drawCustomer P
  let amount ← getRandomNumber P 4999
  return { seed, wId := 1, dId, cWId, cDId := 1 + cd, cId, cLast, byName,
           hAmount := (100 + amount * 100).toInt32 }

private theorem drawParams_apply (seed : UInt32) : drawParams P seed { seed } =
    drawOthers P seed (1 + (getRandomNumber P (districtsPerWarehouse - 1)).value { seed })
      ((drawCWId P 1).value (getRandomNumber P (districtsPerWarehouse - 1) { seed }).2)
      (drawCWId P 1 (getRandomNumber P (districtsPerWarehouse - 1) { seed }).2).2 := rfl

private theorem drawCustomer_meets : (drawCustomer P).Meets fun drawn =>
    drawn.2.2 = true ∨ 1 ≤ drawn.1.toNat ∧ drawn.1.toNat ≤ 3000 := by
  refine (getRandomNumber_meets P (by decide)).bind fun percent _ => ?_
  split
  · exact (randR_meets P).bind fun r _ => (rem_meets P r (by decide)).bind fun C _ =>
      (nurand_meets P C (by decide) (by decide) (by decide)).bind fun n _ => .pure (.inl rfl)
  · exact (nurand_meets P 0 (by decide) (by decide) (by decide)).bind fun cId inRange =>
      .pure (.inr inRange)

/-- The customer of a payment by name is drawn when the district is read. -/
private theorem withDistrict_cId {ctx : PaymentCtx}
    (chosen : ctx.byName = true ∨ 1 ≤ ctx.cId.toNat ∧ ctx.cId.toNat ≤ 3000) (dv : DistrictVal) :
    1 ≤ (withDistrict P dv ctx).cId.toNat ∧ (withDistrict P dv ctx).cId.toNat ≤ 3000 := by
  unfold withDistrict chooseCustomer
  split
  · rename_i byName
    have drawn := (getRandomNumber_meets P (show customersPerDistrict - 1 ≠ 0 by decide)
      { seed := ctx.seed }).1
    have most : (customersPerDistrict - 1).toNat = 2999 := rfl
    change 1 ≤ (1 + (getRandomNumber P (customersPerDistrict - 1)).value { seed := ctx.seed }).toNat ∧
      (1 + (getRandomNumber P (customersPerDistrict - 1)).value { seed := ctx.seed }).toNat ≤ 3000
    rw [toNat_one_add drawn.2 (by decide)]
    omega
  · rename_i direct
    exact chosen.resolve_left direct

private theorem amount_toInt {amount : UInt32} (small : amount.toNat ≤ 4999) :
    (100 + amount * 100).toInt32.toInt = 100 + amount.toNat * 100 := by
  have wide : (100 + amount * 100).toNat = 100 + amount.toNat * 100 := by
    have hundred : (100 : UInt32).toNat = 100 := rfl
    rw [UInt32.toNat_add, UInt32.toNat_mul, hundred]
    omega
  rw [← Int32.toInt_toBitVec, UInt32.toBitVec_toInt32, BitVec.toInt_eq_toNat_of_lt]
  · change ((100 + amount * 100).toNat : Int) = _
    rw [wide]
    rfl
  · change 2 * (100 + amount * 100).toNat < 2 ^ 32
    omega

private theorem drawOthers_meets (seed : UInt32) {dId : UInt32}
    (district : 1 ≤ dId.toNat ∧ dId.toNat ≤ 10)
    (cWId : UInt32) :
    (drawOthers P seed dId cWId).Meets fun params => 1 ≤ cWId.toNat → params.InRange P := by
  refine (getRandomNumber_meets P (by decide)).bind fun cd (cdRange : _ ∧ cd.toNat ≤ 9) =>
    (drawCustomer_meets P).bind fun customer chosen =>
      (getRandomNumber_meets P (by decide)).bind fun amount (aRange : _ ∧ amount.toNat ≤ 4999) =>
        .pure fun warehouse => ?_
  have small := amount_toInt aRange.2
  refine ⟨Nat.le_refl 1, district, warehouse, ?_, withDistrict_cId P chosen, ?_⟩
  · rw [toNat_one_add cdRange.2 (by decide)]
    omega
  · change 100 ≤ (100 + amount * 100).toInt32.toInt ∧ (100 + amount * 100).toInt32.toInt ≤ 500000
    omega

/-- The percentage that makes a Payment a remote one, drawn after its district. -/
def remotePercent (seed : UInt32) : UInt32 :=
  (getRandomNumber P 99).value (getRandomNumber P (districtsPerWarehouse - 1) { seed }).2

private theorem drawCWId_apply (wId : UInt32) (generator : Generator) : drawCWId P wId generator =
    (if (getRandomNumber P 99).value generator < 15 then
      getRandomNumber P 0 >>= fun w => pure (if 1 + w = wId then 2 else 1 + w)
    else pure wId : Draw UInt32) (getRandomNumber P 99 generator).2 := rfl

/-- The warehouse of a remote customer is drawn from the maximum 0. -/
private theorem drawCWId_remote (wId : UInt32) {generator : Generator}
    (remote : (getRandomNumber P 99).value generator < 15) :
    (drawCWId P wId generator).2.undefined = true := by
  rw [drawCWId_apply, if_pos remote]
  rfl

private theorem drawCWId_local (wId : UInt32) {generator : Generator}
    (near : ¬ (getRandomNumber P 99).value generator < 15) :
    (drawCWId P wId).value generator = wId ∧
      (drawCWId P wId generator).2.undefined = generator.undefined := by
  rw [Draw.value, drawCWId_apply, if_neg near]
  exact ⟨rfl, (getRandomNumber_meets P (show (99 : UInt32) ≠ 0 by decide) generator).2⟩

/-- All is in range, without a division by zero, exactly when the Payment is a local one. -/
theorem drawParams_valid_iff (seed : UInt32) :
    (drawParams P seed { seed }).2.undefined = false ∧ ((drawParams P seed).value { seed }).InRange P ↔
      15 ≤ (remotePercent P seed).toNat := by
  obtain ⟨drawn, kept⟩ := getRandomNumber_meets P (show districtsPerWarehouse - 1 ≠ 0 by decide) { seed }
  have nine : (districtsPerWarehouse - 1).toNat = 9 := rfl
  have next := toNat_one_add drawn.2 (by decide)
  have district : 1 ≤ (1 + (getRandomNumber P (districtsPerWarehouse - 1)).value { seed }).toNat ∧
      (1 + (getRandomNumber P (districtsPerWarehouse - 1)).value { seed }).toNat ≤ 10 := by omega
  have after (generator : Generator) (cWId : UInt32) := drawOthers_meets P seed district cWId generator
  rw [Draw.value, drawParams_apply]
  by_cases remote : remotePercent P seed < 15
  · have large : ¬ 15 ≤ (remotePercent P seed).toNat := Nat.not_le.mpr (UInt32.lt_iff_toNat_lt.mp remote)
    refine iff_of_false (fun valid => ?_) large
    have undefined := valid.1
    rw [(after _ _).2, drawCWId_remote P 1 remote] at undefined
    cases undefined
  · have small : 15 ≤ (remotePercent P seed).toNat := UInt32.le_iff_toNat_le.mp (UInt32.not_lt.mp remote)
    obtain ⟨home, untouched⟩ := drawCWId_local P 1 remote
    refine iff_of_true ⟨?_, (after _ _).1 ?_⟩ small
    · rw [(after _ _).2, untouched, kept]
    · rw [home]
      exact Nat.le_refl 1

end Payment

/-- **Generated transaction parameters are valid** for a Payment that is a local one, and
for no other: the warehouse of a remote customer, and the home warehouse of every
NewOrder, are drawn by a division by zero. All other parameters of a NewOrder are in
range at every seed, and the customer that a Payment by name draws later is drawn
without such a division. -/
theorem generated_parameters_valid_iff (P : Platform) (seed : UInt32) :
    ((Payment.drawParams P seed { seed }).2.undefined = false ∧
        ((Payment.drawParams P seed).value { seed }).InRange P ↔
      15 ≤ (Payment.remotePercent P seed).toNat) ∧
    (∀ generator, (getRandomNumber P (customersPerDistrict - 1) generator).2.undefined =
      generator.undefined) ∧
    (NewOrder.drawParams P seed { seed }).2.undefined = true ∧
    (((NewOrder.drawParams P seed).value { seed }).InRange ↔
      ((NewOrder.drawParams P seed).value { seed }).wId.toNat % 256 ≠ 0) :=
  ⟨Payment.drawParams_valid_iff P seed, fun generator => (getRandomNumber_meets P (by decide) generator).2,
    NewOrder.drawParams_undefined P seed, NewOrder.drawParams_inRange_iff P seed⟩

/-- With outputs of 5 the percentage drawn is 6, so the Payment is a remote one, and its
warehouse is drawn from the maximum 0: the source divides by zero. -/
theorem warehouse_draws_divide_by_zero :
    let P := steadyPlatform 5 (by decide)
    (NewOrder.drawParams P 0 { seed := 0 }).2.undefined = true ∧
      Payment.remotePercent P 0 = 6 ∧ (Payment.drawParams P 0 { seed := 0 }).2.undefined = true :=
  ⟨NewOrder.drawParams_undefined _ 0, rfl, rfl⟩

end H2oTpcc

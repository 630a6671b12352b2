import H2oTpcc.NewOrderProofs
import H2oTpcc.RandomRange

/-! The line loop of `tpcc_new_order_execute`, taken apart into what the draws decide
and what is stored of it. The supply warehouse of a line is kept in eight bits: a home
warehouse that does not fit in them is cut, while `all_local` stays true. -/
namespace H2oTpcc.NewOrder

/-- What the draws of one line decide. -/
structure LineDraw where
  iId : UInt32
  /-- The number drawn for the supply warehouse, if the line is a remote one. -/
  remote : Option UInt32
  quantity : UInt32

/-- What is stored as the supply warehouse of the line. -/
def LineDraw.supplyW (wId : UInt32) (line : LineDraw) : UInt8 :=
  match line.remote with
  | some w => (1 + w).toUInt8
  | none => wId.toUInt8

/-- The line leaves the flag as it is. -/
def LineDraw.passes (wId : UInt32) (line : LineDraw) : Bool :=
  line.remote.isNone || (line.supplyW wId).toUInt32 == wId

/-- The parameters after line `i`. -/
def withLine (params : NewOrderParams) (i : Nat) (line : LineDraw) : NewOrderParams :=
  { params with
    olIId := Function.update params.olIId i line.iId
    olSupplyW := Function.update params.olSupplyW i (line.supplyW params.wId)
    allLocal := params.allLocal && line.passes params.wId
    olQuantity := Function.update params.olQuantity i (1 + line.quantity).toUInt8 }

/-- The parameters after some lines, the first of which is line `i`. -/
def withLines (params : NewOrderParams) (i : Nat) : List LineDraw → NewOrderParams
  | [] => params
  | line :: rest => withLines (withLine params i line) (i + 1) rest

/-! ## The loop draws such lines -/

section Draws
variable (P : Platform)

/-- The draws of one iteration. -/
def drawLineDraw : Draw LineDraw := do
  let iId ← nurandItem P
  let percent ← getRandomNumber P 99
  let remote ← if percent = 0 then some <$> getRandomNumber P 0 else pure none
  let quantity ← getRandomNumber P 9
  return { iId, remote, quantity }

def drawLineDraws : Nat → Draw (List LineDraw)
  | 0 => pure []
  | count + 1 => do
    let line ← drawLineDraw P
    let rest ← drawLineDraws count
    return line :: rest

private theorem drawLine_eq (params : NewOrderParams) (i : Nat) :
    drawLine P params i = withLine params i <$> drawLineDraw P := by
  unfold drawLine drawLineDraw drawSupplyW
  simp only [map_eq_pure_bind, bind_assoc, pure_bind]
  refine bind_congr fun iId => bind_congr fun percent => ?_
  split
  · simp only [bind_assoc, pure_bind]
    refine bind_congr fun w => bind_congr fun quantity => ?_
    have flag : (if (1 + w).toUInt8.toUInt32 ≠ params.wId then false else params.allLocal) =
        (params.allLocal && LineDraw.passes params.wId ⟨iId, some w, quantity⟩) := by
      change _ = (params.allLocal && ((1 + w).toUInt8.toUInt32 == params.wId))
      by_cases same : (1 + w).toUInt8.toUInt32 = params.wId
      · rw [if_neg (not_not.mpr same), beq_iff_eq.mpr same, Bool.and_true]
      · rw [if_pos same, beq_eq_false_iff_ne.mpr same, Bool.and_false]
    rw [flag]
    rfl
  · simp only [bind_assoc, pure_bind]
    refine bind_congr fun quantity => ?_
    simp only [withLine, LineDraw.passes, Option.isNone_none, Bool.true_or, Bool.and_true]
    rfl

/-- The loop over the lines is a loop that draws them, followed by putting them in their places. -/
theorem drawLines_eq (params : NewOrderParams) (i count : Nat) :
    drawLines P params (List.range' i count) = withLines params i <$> drawLineDraws P count := by
  induction count generalizing params i with
  | zero => rfl
  | succ count ih =>
    rw [List.range'_succ, drawLines, drawLine_eq, drawLineDraws]
    simp only [map_eq_pure_bind, bind_assoc, pure_bind, withLines] at ih ⊢
    exact bind_congr fun line => ih ..

private theorem nurandItem_meets : (nurandItem P).Meets fun r => 1 ≤ r.toNat ∧ r.toNat ≤ 100000 :=
  (randR_meets P).bind fun r _ => (rem_meets P r (by decide)).bind fun C _ =>
    nurand_meets P C (by decide) (by decide) (by decide)

/-- The percentage drawn is never 0, so every line is a local one. -/
private theorem drawLineDraw_meets : (drawLineDraw P).Meets fun line =>
    (1 ≤ line.iId.toNat ∧ line.iId.toNat ≤ 100000) ∧ line.remote = none ∧
      1 ≤ line.quantity.toNat ∧ line.quantity.toNat ≤ 9 := by
  refine (nurandItem_meets P).bind fun iId inRange => ?_
  refine (getRandomNumber_meets P (by decide)).bind fun percent drawn => ?_
  have positive : percent ≠ 0 := by
    rintro rfl
    exact absurd drawn.1 (by decide)
  rw [if_neg positive, pure_bind]
  exact (getRandomNumber_meets P (by decide)).bind fun quantity few =>
    Draw.Meets.pure ⟨inRange, rfl, few⟩

/-- What the lines of an order are drawn from: items of the catalogue, no remote warehouse, and
quantities from 1 to 9. -/
theorem drawLineDraws_meets (count : Nat) : (drawLineDraws P count).Meets fun lines =>
    lines.length = count ∧ ∀ line ∈ lines, (1 ≤ line.iId.toNat ∧ line.iId.toNat ≤ 100000) ∧
      line.remote = none ∧ 1 ≤ line.quantity.toNat ∧ line.quantity.toNat ≤ 9 := by
  induction count with
  | zero => exact Draw.Meets.pure ⟨rfl, by simp⟩
  | succ count ih =>
    refine (drawLineDraw_meets P).bind fun line fine => ih.bind fun rest ⟨counted, all⟩ =>
      Draw.Meets.pure ⟨by simp [counted], ?_⟩
    rintro line' (_ | ⟨_, later⟩)
    · exact fine
    · exact all line' later

end Draws

/-! ## What the lines leave -/

section Lines
variable (params : NewOrderParams)

/-- Putting the lines in their places touches only their arrays and the flag. -/
theorem withLines_frame (i : Nat) (lines : List LineDraw) :
    let after := withLines params i lines
    after.wId = params.wId ∧ after.dId = params.dId ∧ after.cId = params.cId ∧
      after.olCnt = params.olCnt ∧
      ∀ j < i, after.olIId j = params.olIId j ∧ after.olSupplyW j = params.olSupplyW j ∧
        after.olQuantity j = params.olQuantity j := by
  induction lines generalizing params i with
  | nil => exact ⟨rfl, rfl, rfl, rfl, fun _ _ => ⟨rfl, rfl, rfl⟩⟩
  | cons line rest ih =>
    obtain ⟨wId, dId, cId, olCnt, before⟩ := ih (withLine params i line) (i + 1)
    refine ⟨wId, dId, cId, olCnt, fun j below => ?_⟩
    obtain ⟨iId, supplyW, quantity⟩ := before j (Nat.lt_succ_of_lt below)
    have other : j ≠ i := Nat.ne_of_lt below
    exact ⟨iId.trans (Function.update_of_ne other ..), supplyW.trans (Function.update_of_ne other ..),
      quantity.trans (Function.update_of_ne other ..)⟩

/-- Every line is stored at its place. -/
theorem withLines_line (i : Nat) {lines : List LineDraw} {j : Nat} {line : LineDraw}
    (found : lines[j]? = some line) :
    let after := withLines params i lines
    after.olIId (i + j) = line.iId ∧ after.olSupplyW (i + j) = line.supplyW params.wId ∧
      after.olQuantity (i + j) = (1 + line.quantity).toUInt8 := by
  induction lines generalizing params i j with
  | nil => cases found
  | cons first rest ih =>
    cases j with
    | zero =>
      cases found
      obtain ⟨_, _, _, _, before⟩ := withLines_frame (withLine params i line) (i + 1) rest
      obtain ⟨iId, supplyW, quantity⟩ := before i (Nat.lt_succ_self i)
      exact ⟨iId.trans (Function.update_self ..), supplyW.trans (Function.update_self ..),
        quantity.trans (Function.update_self ..)⟩
    | succ j =>
      have later := ih (withLine params i first) (i + 1) (j := j) found
      rwa [Nat.succ_add_eq_add_succ] at later

private theorem withLines_allLocal (i : Nat) (lines : List LineDraw) :
    (withLines params i lines).allLocal = (params.allLocal && lines.all (LineDraw.passes params.wId)) := by
  induction lines generalizing params i with
  | nil => simp [withLines]
  | cons line rest ih =>
    rw [withLines, ih, List.all_cons, ← Bool.and_assoc]
    rfl

end Lines

/-! ## The flag -/

/-- Line `i` reads the stock row of its item in warehouse `w`, and writes it. -/
structure UsesStockOf (P : Platform) (ctx : NewOrderCtx) (i : Nat) (w : UInt32) : Prop where
  reads : ∀ answers : Answers, answers.accept = true →
    ((startStockReads P).run answers { ctx := { ctx with currentOl := UInt8.ofNat i } }).2.pending =
      some (.get (kvStockKey w (ctx.olIId i)), .onStockRead)
  writes : ∀ answers,
    ((writeOrder P ctx).run answers { ctx }).2.sets[ctx.olCnt.toNat + 3 + i]?.map Prod.fst =
    some (kvStockKey w (ctx.olIId i))

private theorem kvStockKey_warehouse {w w' i : UInt32} (same : kvStockKey w i = kvStockKey w' i) :
    w = w' := by
  unfold kvStockKey at same
  exact kvEncodeU32Be_injective (List.append_cancel_left (List.append_cancel_right same))

private theorem usesStockOf_iff (P : Platform) {ctx : NewOrderCtx} {i : Nat}
    (inside : i < ctx.olCnt.toNat)
    (w : UInt32) : UsesStockOf P ctx i w ↔ (ctx.olSupplyW i).toUInt32 = w := by
  have reads {answers : Answers} (accepts : answers.accept = true) :
      ((startStockReads P).run answers { ctx := { ctx with currentOl := UInt8.ofNat i } }).2.pending =
        some (.get (kvStockKey (ctx.olSupplyW i).toUInt32 (ctx.olIId i)), .onStockRead) := by
    have fits : (UInt8.ofNat i).toNat = i := by
      rw [UInt8.toNat_ofNat', Nat.mod_eq_of_lt (Nat.lt_trans inside ctx.olCnt.toNat_lt)]
    have more : ¬ UInt8.ofNat i ≥ ctx.olCnt := by
      rw [ge_iff_le, UInt8.le_iff_toNat_le, fits]
      omega
    rw [run_startStockReads, if_neg more, Session.submit_pending, if_pos accepts, fits]
  constructor
  · intro uses
    have same := (@reads {} rfl).symm.trans (uses.reads {} rfl)
    simp only [Option.some.injEq, Prod.mk.injEq, Operation.get.injEq] at same
    exact kvStockKey_warehouse same.1
  · rintro rfl
    refine ⟨fun answers accepts => reads accepts, fun answers => ?_⟩
    -- The two rows of the order, the lines and the counter come before the stock rows.
    have place (front : List (Key × Bytes)) (length : front.length = ctx.olCnt.toNat + 3) :
        ctx.olCnt.toNat + 3 + i - front.length = i := by omega
    rw [run_writeOrder, Session.submit_sets, List.nil_append, built, List.getElem?_map, rows,
      List.getElem?_append_right (by simp), place _ (by simp), List.getElem?_map,
      List.getElem?_range inside]
    rfl

/-- What the flag and the local lines of these parameters are to be. -/
structure TellsTruth (P : Platform) (params : NewOrderParams) (lines : List LineDraw) : Prop where
  flag : params.allLocal = true ↔ ∀ i < lines.length, (params.olSupplyW i).toUInt32 = params.wId
  stock : ∀ i line, lines[i]? = some line → line.remote = none → UsesStockOf P params.ctx i params.wId

section Flag
variable (P : Platform) {params : NewOrderParams}

private theorem toUInt8_toUInt32_eq_iff (wId : UInt32) :
    wId.toUInt8.toUInt32 = wId ↔ wId.toNat < 256 := by
  rw [← UInt32.toNat_inj, UInt8.toNat_toUInt32, UInt32.toNat_toUInt8]
  omega

private theorem tellsTruth_iff (fresh : params.allLocal = true) {lines : List LineDraw}
    (counted : params.olCnt.toNat = lines.length) :
    TellsTruth P (withLines params 0 lines) lines ↔
      params.wId.toNat < 256 ∨ ∀ line ∈ lines, line.remote.isSome := by
  obtain ⟨wId, _, _, olCnt, _⟩ := withLines_frame params 0 lines
  have stored {i : Nat} {line : LineDraw} (found : lines[i]? = some line) :
      (withLines params 0 lines).olSupplyW i = line.supplyW params.wId := by
    have at_i := (withLines_line params 0 found).2.1
    rwa [Nat.zero_add] at at_i
  have uses {i : Nat} {line : LineDraw} (found : lines[i]? = some line) :
      UsesStockOf P (withLines params 0 lines).ctx i params.wId ↔
        (line.supplyW params.wId).toUInt32 = params.wId := by
    have inside : i < (withLines params 0 lines).ctx.olCnt.toNat := by
      change i < (withLines params 0 lines).olCnt.toNat
      rw [olCnt, counted]
      exact (List.getElem?_eq_some_iff.mp found).1
    rw [usesStockOf_iff P inside]
    change ((withLines params 0 lines).olSupplyW i).toUInt32 = _ ↔ _
    rw [stored found]
  have all_equal : (∀ i < lines.length, ((withLines params 0 lines).olSupplyW i).toUInt32 = params.wId) ↔
      ∀ line ∈ lines, (line.supplyW params.wId).toUInt32 = params.wId := by
    constructor
    · intro equal line member
      obtain ⟨i, found⟩ := List.mem_iff_getElem?.mp member
      rw [← stored found]
      exact equal i (List.getElem?_eq_some_iff.mp found).1
    · intro equal i inside
      have found := List.getElem?_eq_getElem inside
      rw [stored found]
      exact equal _ (List.getElem_mem inside)
  constructor
  · intro truth
    refine or_iff_not_imp_left.mpr fun large line member => ?_
    obtain ⟨i, found⟩ := List.mem_iff_getElem?.mp member
    by_contra local_line
    have here := truth.stock i line found (by simpa using local_line)
    rw [wId, uses found, LineDraw.supplyW, Option.not_isSome_iff_eq_none.mp local_line,
      toUInt8_toUInt32_eq_iff] at here
    exact large here
  · intro fine
    have locals {line : LineDraw} (member : line ∈ lines) (alone : line.remote = none) :
        (line.supplyW params.wId).toUInt32 = params.wId := by
      rcases fine with small | remote
      · rw [LineDraw.supplyW, alone]
        exact (toUInt8_toUInt32_eq_iff _).mpr small
      · have := remote line member
        rw [alone] at this
        cases this
    constructor
    · rw [wId, all_equal, withLines_allLocal, fresh, Bool.true_and, List.all_eq_true]
      refine forall₂_congr fun line member => ?_
      simp only [LineDraw.passes, Bool.or_eq_true, Option.isNone_iff_eq_none, beq_iff_eq]
      exact ⟨fun passes => passes.elim (locals member) id, .inr⟩
    · intro i line found alone
      rw [wId, uses found]
      exact locals (List.mem_of_getElem? found) alone

/-- **The all-local flag tells the truth**, and local lines use the stock of their home
warehouse, exactly when the home warehouse fits in eight bits or no line is a local one.
With the numbers that the loop really draws every line is a local one. -/
theorem all_local_truth_iff (params : NewOrderParams) (fresh : params.allLocal = true) :
    (∀ lines : List LineDraw, params.olCnt.toNat = lines.length →
      (TellsTruth P (withLines params 0 lines) lines ↔
        params.wId.toNat < 256 ∨ ∀ line ∈ lines, line.remote.isSome)) ∧
    ∀ generator,
      let lines := (drawLineDraws P params.olCnt.toNat).value generator
      let drawn := (drawLines P params (List.range params.olCnt.toNat)).value generator
      drawn = withLines params 0 lines ∧
        (TellsTruth P drawn lines ↔ params.wId.toNat < 256 ∨ params.olCnt = 0) := by
  refine ⟨fun lines counted => tellsTruth_iff P fresh counted, fun generator => ?_⟩
  intro lines drawn
  obtain ⟨counted, all⟩ := (drawLineDraws_meets P params.olCnt.toNat generator).1
  have same : drawn = withLines params 0 lines := by
    change (drawLines P params (List.range params.olCnt.toNat)).value generator = _
    rw [List.range_eq_range', drawLines_eq]
    rfl
  refine ⟨same, ?_⟩
  rw [same, tellsTruth_iff P fresh counted.symm]
  refine or_congr_right ⟨fun remote => ?_, fun none line member => ?_⟩
  · apply UInt8.toNat_inj.mp
    cases found : lines with
    | nil => exact (congrArg List.length found ▸ counted).symm
    | cons line rest =>
      have member : line ∈ lines := found ▸ List.mem_cons_self
      have isRemote := remote line member
      rw [(all line member).2.1] at isRemote
      cases isRemote
  · have empty := List.length_eq_zero_iff.mp (counted.trans (by rw [none]; rfl))
    rw [empty] at member
    cases member

end Flag

/-- Parameters before a loop of one line. -/
def oneLine (wId : UInt32) : NewOrderParams where
  seed := 0
  wId := wId
  dId := 1
  cId := 1
  olCnt := 1
  olSupplyW := fun _ => 0
  olIId := fun _ => 0
  olQuantity := fun _ => 0
  allLocal := true

/-- The line of an order of warehouse 256 is stored as one of warehouse 0 and uses the
stock of that, and the order is said to be local. -/
theorem large_warehouse_cut :
    let drawn := (drawLines (steadyPlatform 5 (by decide)) (oneLine 256) [0]).value { seed := 0 }
    drawn.wId = 256 ∧ drawn.allLocal = true ∧ drawn.olSupplyW 0 = 0 ∧
      UsesStockOf (steadyPlatform 5 (by decide)) drawn.ctx 0 0 := by
  intro drawn
  have stored : drawn.olSupplyW 0 = 0 := rfl
  exact ⟨rfl, rfl, stored, (usesStockOf_iff _ (show 0 < 1 by decide) 0).mpr rfl⟩

/-- An order of the largest warehouse whose number fits in a byte. -/
theorem all_local_truth_iff_largest :
    let P := steadyPlatform 5 (by decide)
    (oneLine 255).allLocal = true ∧
      TellsTruth P ((drawLines P (oneLine 255) [0]).value { seed := 0 })
        ((drawLineDraws P 1).value { seed := 0 }) :=
  ⟨rfl, (((all_local_truth_iff _ (oneLine 255) rfl).2 { seed := 0 }).2).mpr (.inl (by decide))⟩

end H2oTpcc.NewOrder

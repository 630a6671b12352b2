import Mathlib.Logic.Function.Basic
import H2oTpcc.FdbDatabase
import H2oTpcc.Keyspace
import H2oTpcc.Random
import H2oTpcc.Rows

/-! The NewOrder chain of `tpcc_new_order.c`: district, customer, one stock row per
order line, then all sets and the commit. A failed future goes through
`fdb_handle_error`, and a retry starts over at the district. -/
namespace H2oTpcc
open Stmt

def maxOrderLines : Nat := 15
def minOrderLines : Nat := 5

/-- `new_order_ctx_t`. The arrays have `maxOrderLines` elements; what lies beyond
is never looked at, see `olIndex`. -/
structure NewOrderCtx where
  seed : UInt32 := 0
  wId : UInt32 := 0
  dId : UInt32 := 0
  cId : UInt32 := 0
  olCnt : UInt8 := 0
  olSupplyW : Nat → UInt8 := fun _ => 0
  olIId : Nat → UInt32 := fun _ => 0
  olQuantity : Nat → UInt8 := fun _ => 0
  allLocal : Bool := false
  dTax : Int32 := 0
  dNextOId : Int32 := 0
  cDiscount : Int32 := 0
  sQuantity : Nat → Int32 := fun _ => 0
  sAmount : Nat → Int32 := fun _ => 0
  currentOl : UInt8 := 0
  committed : Bool := false

inductive NewOrderCallback where
  | onDistrictRead | onCustomerRead | onStockRead | onCommit | onErrorRetry
  deriving DecidableEq

abbrev NewOrderProg := Prog NewOrderCtx NewOrderCallback Bytes Bytes Response

namespace NewOrder

/-- The arrays of the lines, `olCnt` of whose elements are in use, are accessed at `i`. -/
def olIndex (ctx : NewOrderCtx) (i : Nat) : NewOrderProg Unit := index i ctx.olCnt.toNat

/-- `finish_new_order`. -/
def finishNewOrder (status : Nat) (body : String) : NewOrderProg Unit :=
  finish (if status = 200 then .inline body else .error status "Error" body)

/-- The oorder row of the order the context describes. -/
def oorderVal (ctx : NewOrderCtx) (now : Int64) : OorderVal where
  oCId := ctx.cId
  oCarrierId := -1
  oOlCnt := ctx.olCnt.toUInt16.toInt16
  oAllLocal := if ctx.allLocal then 1 else 0
  oEntryD := now

def orderLineVal (ctx : NewOrderCtx) (i : Nat) : OrderLineVal where
  olIId := ctx.olIId i
  olSupplyWId := (ctx.olSupplyW i).toUInt32
  olDeliveryD := 0
  olQuantity := (ctx.olQuantity i).toUInt16.toInt16
  olAmount := ctx.sAmount i
  olDistInfo := .zero 24

def stockVal (ctx : NewOrderCtx) (i : Nat) : StockVal :=
  { (PackedRow.zero : StockVal) with
    sQuantity := ctx.sQuantity i
    sOrderCnt := 1
    sYtd := (ctx.olQuantity i).toUInt32.toInt32 }

variable (P : Platform)

/-- The district's key and row are not among the sets: `d_next_o_id` moves on only
in the separate counter. -/
def writeOrder (ctx : NewOrderCtx) : NewOrderProg Unit := do
  let oId := ctx.dNextOId
  let now ← time
  fdbSyncSet (kvOorderKey ctx.wId ctx.dId oId.toUInt32) (encode P.host (oorderVal ctx now))
  fdbSyncSet (kvNewOrderKey ctx.wId ctx.dId oId.toUInt32) [0]
  forRange ctx.olCnt.toNat fun i => do
    olIndex ctx i
    fdbSyncSet (kvOrderLineKey ctx.wId ctx.dId oId.toUInt32 (UInt32.ofNat (i + 1)))
      (encode P.host (orderLineVal ctx i))
  fdbSyncSet (kvNextOIdKey ctx.wId ctx.dId) (kvEncodeNextOId (oId + 1))
  forRange ctx.olCnt.toNat fun i => do
    olIndex ctx i
    fdbSyncSet (kvStockKey (ctx.olSupplyW i).toUInt32 (ctx.olIId i)) (encode P.host (stockVal ctx i))
  fdbAsyncCommit .onCommit

/-- `start_stock_reads`. -/
def startStockReads : NewOrderProg Unit := do
  let ctx ← load
  if ctx.currentOl ≥ ctx.olCnt then
    writeOrder P ctx
  else
    olIndex ctx ctx.currentOl.toNat
    fdbAsyncGet (kvStockKey (ctx.olSupplyW ctx.currentOl.toNat).toUInt32
      (ctx.olIId ctx.currentOl.toNat)) .onStockRead

/-- The context with what is kept of the district row. -/
def withDistrict (dv : DistrictVal) (ctx : NewOrderCtx) : NewOrderCtx :=
  { ctx with dTax := dv.dTax, dNextOId := dv.dNextOId }

/-- `on_district_read` once it has the row. -/
def onDistrict (dv : DistrictVal) : NewOrderProg Unit := do
  store (withDistrict dv)
  let ctx ← load
  fdbAsyncGet (kvCustomerKey ctx.wId ctx.dId ctx.cId) .onCustomerRead

def onDistrictRead : Future Bytes Bytes → NewOrderProg Unit :=
  onRowRead P.host .onErrorRetry (finishNewOrder 500 "district not found") onDistrict

/-- The context with what is kept of the customer row, before the first line. -/
def withCustomer (cv : CustomerVal) (ctx : NewOrderCtx) : NewOrderCtx :=
  { ctx with cDiscount := cv.cDiscount, currentOl := 0 }

/-- `on_customer_read` once it has the row. -/
def onCustomer (cv : CustomerVal) : NewOrderProg Unit := do
  store (withCustomer cv)
  startStockReads P

def onCustomerRead : Future Bytes Bytes → NewOrderProg Unit :=
  onRowRead P.host .onErrorRetry (finishNewOrder 500 "customer not found") (onCustomer P)

/-- The quantity left after a line: below 10 the warehouse restocks 91. -/
def newQty (sQuantity : Int32) (olQuantity : UInt8) : Int32 :=
  let left := sQuantity - olQuantity.toUInt32.toInt32
  if left < 10 then left + 91 else left

def lineAmount (olQuantity : UInt8) : Int32 := olQuantity.toUInt32.toInt32 * 100

/-- The context after the current line's stock row, at the next line. -/
def withStock (sv : StockVal) (ctx : NewOrderCtx) : NewOrderCtx :=
  let idx := ctx.currentOl.toNat
  { ctx with
    sQuantity := Function.update ctx.sQuantity idx (newQty sv.sQuantity (ctx.olQuantity idx))
    sAmount := Function.update ctx.sAmount idx (lineAmount (ctx.olQuantity idx))
    currentOl := ctx.currentOl + 1 }

/-- `on_stock_read` once it has the row. -/
def onStock (sv : StockVal) : NewOrderProg Unit := do
  let ctx ← load
  olIndex ctx ctx.currentOl.toNat
  store (withStock sv)
  startStockReads P

def onStockRead : Future Bytes Bytes → NewOrderProg Unit :=
  onRowRead P.host .onErrorRetry (finishNewOrder 500 "stock not found") (onStock P)

def onCommit (future : Future Bytes Bytes) : NewOrderProg Unit :=
  orRetry .onErrorRetry future do
    store fun ctx => { ctx with committed := true }
    let ctx ← load
    finish (.json (.map [("status", .str "ok"), ("o_id", .int ctx.dNextOId.toInt)]))

def onErrorRetry (future : Future Bytes Bytes) : NewOrderProg Unit := do
  if future.getError ≠ 0 then
    finishNewOrder 503 "transaction retry exhausted"
  else
    store fun ctx => { ctx with currentOl := 0 }
    let ctx ← load
    fdbAsyncGet (kvDistrictKey ctx.wId ctx.dId) .onDistrictRead

end NewOrder

/-! ## The entry point -/

/-- The parameters of a request. -/
structure NewOrderParams where
  seed : UInt32
  wId : UInt32
  dId : UInt32
  cId : UInt32
  olCnt : UInt8
  olSupplyW : Nat → UInt8
  olIId : Nat → UInt32
  olQuantity : Nat → UInt8
  allLocal : Bool

/-- The zeroed context with the parameters filled in. -/
def NewOrderParams.ctx (params : NewOrderParams) : NewOrderCtx where
  seed := params.seed
  wId := params.wId
  dId := params.dId
  cId := params.cId
  olCnt := params.olCnt
  olSupplyW := params.olSupplyW
  olIId := params.olIId
  olQuantity := params.olQuantity
  allLocal := params.allLocal

/-- Requests whose lines fit the arrays of the context. -/
abbrev NewOrderRequest := { params : NewOrderParams // params.olCnt.toNat ≤ maxOrderLines }

namespace NewOrder
variable (P : Platform)

/-- `nurand_item`. -/
def nurandItem : Draw UInt32 := do
  let C ← rem P (← randR P) (nurandOlIIdA + 1)
  nurand P nurandOlIIdA 1 itemCount C

/-- `nurand_customer`. -/
def nurandCustomer : Draw UInt32 := do
  let C ← rem P (← randR P) (nurandCIdA + 1)
  nurand P nurandCIdA 1 customersPerDistrict C

/-- The supply warehouse of a line and the flag after it. The id is cut to the
eight bits of its field before it is compared. -/
def drawSupplyW (params : NewOrderParams) : Draw (UInt8 × Bool) := do
  let percent ← getRandomNumber P 99
  if percent = 0 then do
    let w ← getRandomNumber P 0
    let supplyW := (1 + w).toUInt8
    return (supplyW, if supplyW.toUInt32 ≠ params.wId then false else params.allLocal)
  else return (params.wId.toUInt8, params.allLocal)

/-- One iteration of the loop over the order lines. -/
def drawLine (params : NewOrderParams) (i : Nat) : Draw NewOrderParams := do
  let iId ← nurandItem P
  let supply ← drawSupplyW P params
  let quantity ← getRandomNumber P 9
  return { params with
    olIId := Function.update params.olIId i iId
    olSupplyW := Function.update params.olSupplyW i supply.1
    allLocal := supply.2
    olQuantity := Function.update params.olQuantity i (1 + quantity).toUInt8 }

def drawLines (params : NewOrderParams) : List Nat → Draw NewOrderParams
  | [] => pure params
  | i :: rest => do drawLines (← drawLine P params i) rest

/-- The parameter generation of `tpcc_new_order_execute`. -/
def drawParams (seed : UInt32) : Draw NewOrderParams := do
  let w ← getRandomNumber P 0
  let d ← getRandomNumber P (districtsPerWarehouse - 1)
  let cId ← nurandCustomer P
  let lines ← getRandomNumber P (UInt32.ofNat (maxOrderLines - minOrderLines))
  let olCnt := (UInt32.ofNat minOrderLines + lines).toUInt8
  drawLines P {
    seed, wId := 1 + w, dId := 1 + d, cId, olCnt, allLocal := true
    olSupplyW := fun _ => 0, olIId := fun _ => 0, olQuantity := fun _ => 0 }
    (List.range olCnt.toNat)

/-- `tpcc_new_order_execute` for the parameters it has drawn. -/
def start (request : NewOrderRequest) : NewOrderProg Unit :=
  openRequest "out of memory" "fdb transaction creation failed"
    (do
      store fun _ => request.val.ctx
      let ctx ← load
      forRange ctx.olCnt.toNat (olIndex ctx))
    (fdbAsyncGet (kvDistrictKey request.val.wId request.val.dId) .onDistrictRead)

private theorem drawLines_olCnt (params : NewOrderParams) (lines : List Nat) (generator : Generator) :
    ((drawLines P params lines).value generator).olCnt = params.olCnt := by
  induction lines generalizing params generator with
  | nil => rfl
  | cons i rest ih => simp [drawLines, drawLine, ih]

/-- The lines drawn fit the arrays. -/
private theorem drawParams_olCnt_le (seed : UInt32) (generator : Generator) :
    ((drawParams P seed).value generator).olCnt.toNat ≤ maxOrderLines := by
  simp only [drawParams, Draw.value_bind, drawLines_olCnt]
  generalize ((nurandCustomer P) _).2 = before
  have span : UInt32.ofNat (maxOrderLines - minOrderLines) ≠ 0 := by decide
  have drawn := getRandomNumber_le P span before
  have ten : (UInt32.ofNat (maxOrderLines - minOrderLines)).toNat = 10 := rfl
  have five : (UInt32.ofNat minOrderLines).toNat = 5 := rfl
  have most : maxOrderLines = 15 := rfl
  rw [UInt32.toNat_toUInt8, UInt32.toNat_add]
  omega

/-- `tpcc_new_order_execute`. -/
def execute (seed : UInt32) : NewOrderProg Unit :=
  start ⟨(drawParams P seed).value { seed }, drawParams_olCnt_le P seed _⟩

end NewOrder

def newOrderChain (P : Platform) :
    Chain NewOrderRequest NewOrderCtx NewOrderCallback Bytes Bytes Response where
  zero := {}
  entry := NewOrder.start
  body
    | .onDistrictRead => NewOrder.onDistrictRead P
    | .onCustomerRead => NewOrder.onCustomerRead P
    | .onStockRead => NewOrder.onStockRead P
    | .onCommit => NewOrder.onCommit
    | .onErrorRetry => NewOrder.onErrorRetry

end H2oTpcc

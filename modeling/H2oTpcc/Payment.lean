import H2oTpcc.FdbDatabase
import H2oTpcc.Keyspace
import H2oTpcc.Random
import H2oTpcc.Rows

/-! The Payment chain of `tpcc_payment.c`: warehouse, district and customer are
read, then written back with a history row. The district is the customer's, not
the terminal's: `d_id` is drawn and never used. -/
namespace H2oTpcc
open Stmt

/-- `payment_ctx_t`. -/
structure PaymentCtx where
  seed : UInt32 := 0
  wId : UInt32 := 0
  dId : UInt32 := 0
  cWId : UInt32 := 0
  cDId : UInt32 := 0
  cId : UInt32 := 0
  cLast : String := ""
  byName : Bool := false
  hAmount : Int32 := 0
  wYtd : Int64 := 0
  dYtd : Int64 := 0
  cBalance : Int64 := 0
  cPaymentCnt : Int16 := 0

inductive PaymentCallback where
  | onWarehouseRead | onDistrictRead | onCustomerRead | onCommit | onErrorRetry
  deriving DecidableEq

abbrev PaymentProg := Prog PaymentCtx PaymentCallback Bytes Bytes Response

namespace Payment

/-- `finish_payment`. -/
def finishPayment (status : Nat) (body : String) : PaymentProg Unit :=
  finish (if status = 200 then .inline body else .error status "Error" body)

/-- The rows written back are rebuilt from zero; only these fields are carried over. -/
def warehouseVal (ctx : PaymentCtx) : WarehouseVal :=
  { (PackedRow.zero : WarehouseVal) with wYtd := ctx.wYtd + ctx.hAmount.toInt64 }

def districtVal (ctx : PaymentCtx) : DistrictVal :=
  { (PackedRow.zero : DistrictVal) with dYtd := ctx.dYtd + ctx.hAmount.toInt64 }

def customerVal (ctx : PaymentCtx) (cv : CustomerVal) : CustomerVal :=
  { (PackedRow.zero : CustomerVal) with
    cBalance := ctx.cBalance - ctx.hAmount.toInt64
    cYtdPayment := cv.cYtdPayment + ctx.hAmount.toInt64
    cPaymentCnt := ctx.cPaymentCnt + 1 }

def historyVal (ctx : PaymentCtx) (now : Int64) : HistoryVal where
  hDate := now
  hAmount := ctx.hAmount
  hData := .zero 24

/-- `(uint32_t)(now & 0xFFFFFFFF)`. -/
def stamp (now : Int64) : UInt32 := (now &&& 0xFFFFFFFF).toUInt64.toUInt32

variable (P : Platform)

def writePayment (ctx : PaymentCtx) (cv : CustomerVal) : PaymentProg Unit := do
  let now ← time
  fdbSyncSet (kvWarehouseKey ctx.wId) (encode P.host (warehouseVal ctx))
  fdbSyncSet (kvDistrictKey ctx.cWId ctx.cDId) (encode P.host (districtVal ctx))
  fdbSyncSet (kvCustomerKey ctx.cWId ctx.cDId ctx.cId) (encode P.host (customerVal ctx cv))
  fdbSyncSet (historyKey ctx.wId ctx.cWId ctx.cDId ctx.cId (stamp now))
    (encode P.host (historyVal ctx now))
  fdbAsyncCommit .onCommit

/-- The context with what is kept of the warehouse row. -/
def withWarehouse (wv : WarehouseVal) (ctx : PaymentCtx) : PaymentCtx := { ctx with wYtd := wv.wYtd }

/-- `on_warehouse_read` once it has the row. -/
def onWarehouse (wv : WarehouseVal) : PaymentProg Unit := do
  store (withWarehouse wv)
  let ctx ← load
  fdbAsyncGet (kvDistrictKey ctx.cWId ctx.cDId) .onDistrictRead

def onWarehouseRead : Future Bytes Bytes → PaymentProg Unit :=
  onRowRead P.host .onErrorRetry (finishPayment 500 "warehouse not found") onWarehouse

/-- The customer of a payment by name: a fresh id at every attempt. -/
def chooseCustomer (ctx : PaymentCtx) : PaymentCtx :=
  if ctx.byName then
    let drawn := getRandomNumber P (customersPerDistrict - 1) { seed := ctx.seed }
    { ctx with cId := 1 + drawn.1, seed := drawn.2.seed }
  else ctx

/-- The context with what is kept of the district row, and the customer chosen. -/
def withDistrict (dv : DistrictVal) (ctx : PaymentCtx) : PaymentCtx :=
  chooseCustomer P { ctx with dYtd := dv.dYtd }

/-- `on_district_read` once it has the row. -/
def onDistrict (dv : DistrictVal) : PaymentProg Unit := do
  store (withDistrict P dv)
  let ctx ← load
  fdbAsyncGet (kvCustomerKey ctx.cWId ctx.cDId ctx.cId) .onCustomerRead

def onDistrictRead : Future Bytes Bytes → PaymentProg Unit :=
  onRowRead P.host .onErrorRetry (finishPayment 500 "district not found") (onDistrict P)

/-- The context with what is kept of the customer row. -/
def withCustomer (cv : CustomerVal) (ctx : PaymentCtx) : PaymentCtx :=
  { ctx with cBalance := cv.cBalance, cPaymentCnt := cv.cPaymentCnt }

/-- `on_customer_read` once it has the row. -/
def onCustomer (cv : CustomerVal) : PaymentProg Unit := do
  store (withCustomer cv)
  writePayment P (← load) cv

def onCustomerRead : Future Bytes Bytes → PaymentProg Unit :=
  onRowRead P.host .onErrorRetry (finishPayment 500 "customer not found") (onCustomer P)

def onCommit (future : Future Bytes Bytes) : PaymentProg Unit :=
  orRetry .onErrorRetry future do
    let ctx ← load
    finish (.json (.map [("status", .str "ok"), ("amount", .int ctx.hAmount.toInt)]))

def onErrorRetry (future : Future Bytes Bytes) : PaymentProg Unit := do
  if future.getError ≠ 0 then
    finishPayment 503 "transaction retry exhausted"
  else
    let ctx ← load
    fdbAsyncGet (kvWarehouseKey ctx.wId) .onWarehouseRead

end Payment

/-! ## The entry point -/

/-- The parameters of a request. -/
structure PaymentParams where
  seed : UInt32
  wId : UInt32
  dId : UInt32
  cWId : UInt32
  cDId : UInt32
  cId : UInt32
  cLast : String
  byName : Bool
  hAmount : Int32

/-- The zeroed context with the parameters filled in. -/
def PaymentParams.ctx (params : PaymentParams) : PaymentCtx where
  seed := params.seed
  wId := params.wId
  dId := params.dId
  cWId := params.cWId
  cDId := params.cDId
  cId := params.cId
  cLast := params.cLast
  byName := params.byName
  hAmount := params.hAmount

namespace Payment
variable (P : Platform)

def syllables : List String :=
  ["BAR", "OUGHT", "ABLE", "PRI", "PRES", "ESE", "ANTI", "CALLY", "ATION", "EING"]

/-- `gen_c_last`, appending to an empty buffer. -/
def genCLast (n : UInt32) : String :=
  let syllable (place : UInt32) := syllables.getD ((n / place) % 10).toNat ""
  syllable 100 ++ syllable 10 ++ syllable 1

/-- The warehouse of the customer: a remote one in 15 cases of a hundred. -/
def drawCWId (wId : UInt32) : Draw UInt32 := do
  let percent ← getRandomNumber P 99
  if percent < 15 then do
    let w ← getRandomNumber P 0
    return if 1 + w = wId then 2 else 1 + w
  else return wId

/-- By name in 40 cases of a hundred. -/
def drawCustomer : Draw (UInt32 × String × Bool) := do
  let percent ← getRandomNumber P 99
  if percent < 40 then do
    let C ← rem P (← randR P) (nurandCLastA + 1)
    let n ← nurand P nurandCLastA 0 999 C
    return (0, genCLast n, true)
  else do
    let cId ← nurand P nurandCIdA 1 customersPerDistrict 0
    return (cId, "", false)

/-- The parameter generation of `tpcc_payment_execute`. -/
def drawParams (seed : UInt32) : Draw PaymentParams := do
  let wId := 1
  let d ← getRandomNumber P (districtsPerWarehouse - 1)
  let cWId ← drawCWId P wId
  let cd ← getRandomNumber P (districtsPerWarehouse - 1)
  let (cId, cLast, byName) ← drawCustomer P
  let amount ← getRandomNumber P 4999
  return { seed, wId, dId := 1 + d, cWId, cDId := 1 + cd, cId, cLast, byName,
           hAmount := (100 + amount * 100).toInt32 }

/-- `tpcc_payment_execute` for the parameters it has drawn. -/
def start (params : PaymentParams) : PaymentProg Unit :=
  openRequest "out of memory" "fdb transaction failed" (store fun _ => params.ctx)
    (fdbAsyncGet (kvWarehouseKey params.wId) .onWarehouseRead)

/-- `tpcc_payment_execute`. -/
def execute (seed : UInt32) : PaymentProg Unit :=
  start ((drawParams P seed).value { seed })

end Payment

def paymentChain (P : Platform) :
    Chain PaymentParams PaymentCtx PaymentCallback Bytes Bytes Response where
  zero := {}
  entry := Payment.start
  body
    | .onWarehouseRead => Payment.onWarehouseRead P
    | .onDistrictRead => Payment.onDistrictRead P
    | .onCustomerRead => Payment.onCustomerRead P
    | .onCommit => Payment.onCommit
    | .onErrorRetry => Payment.onErrorRetry

end H2oTpcc

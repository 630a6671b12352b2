import H2oTpcc.FdbDatabase
import H2oTpcc.Keyspace
import H2oTpcc.Random
import H2oTpcc.Rows

/-! OrderStatus, Delivery and StockLevel of `tpcc_read_txns.c`. The first two submit an
empty commit and answer "ok" whatever becomes of it; StockLevel counts the rows of one
range read. -/
namespace H2oTpcc
open Stmt

/-! ## OrderStatus -/

/-- `order_status_ctx_t`. -/
structure OrderStatusCtx where
  wId : UInt32 := 0
  dId : UInt32 := 0
  cId : UInt32 := 0
  byName : Bool := false

inductive OrderStatusCallback where
  | osOnCommit

namespace OrderStatus
variable (P : Platform)

/-- The context `tpcc_order_status_execute` fills in; a customer by name has no id. -/
def drawCtx : Draw OrderStatusCtx := do
  let d ← getRandomNumber P (districtsPerWarehouse - 1)
  let percent ← getRandomNumber P 99
  let byName := percent < 60
  if byName then return { wId := 1, dId := 1 + d, byName }
  else
    let c ← getRandomNumber P (customersPerDistrict - 1)
    return { wId := 1, dId := 1 + d, byName, cId := 1 + c }

/-- The future is not looked at. -/
def osOnCommit (_ : Future Bytes Bytes) :
    Prog OrderStatusCtx OrderStatusCallback Bytes Bytes Response Unit :=
  finish (.json (.map [("status", .str "ok")]))

/-- `tpcc_order_status_execute`. -/
def execute (seed : UInt32) : Prog OrderStatusCtx OrderStatusCallback Bytes Bytes Response Unit :=
  openRequest "oom" "fdb failed" (store fun _ => (drawCtx P).value { seed }) (fdbAsyncCommit .osOnCommit)

end OrderStatus

def orderStatusChain (P : Platform) :
    Chain UInt32 OrderStatusCtx OrderStatusCallback Bytes Bytes Response where
  zero := {}
  entry := OrderStatus.execute P
  body
    | .osOnCommit => OrderStatus.osOnCommit

/-! ## Delivery -/

/-- `delivery_ctx_t`. -/
structure DeliveryCtx where
  wId : UInt32 := 0
  carrierId : Int32 := 0

inductive DeliveryCallback where
  | dlOnCommit

namespace Delivery
variable (P : Platform)

/-- The context `tpcc_delivery_execute` fills in. -/
def drawCtx : Draw DeliveryCtx := do
  let carrier ← getRandomNumber P 9
  return { wId := 1, carrierId := (1 + carrier).toInt32 }

/-- The future is not looked at. -/
def dlOnCommit (_ : Future Bytes Bytes) :
    Prog DeliveryCtx DeliveryCallback Bytes Bytes Response Unit := do
  let ctx ← load
  finish (.json (.map [("status", .str "ok"), ("carrier", .int ctx.carrierId.toInt)]))

/-- `tpcc_delivery_execute`. -/
def execute (seed : UInt32) : Prog DeliveryCtx DeliveryCallback Bytes Bytes Response Unit :=
  openRequest "oom" "fdb failed" (store fun _ => (drawCtx P).value { seed }) (fdbAsyncCommit .dlOnCommit)

end Delivery

def deliveryChain (P : Platform) : Chain UInt32 DeliveryCtx DeliveryCallback Bytes Bytes Response where
  zero := {}
  entry := Delivery.execute P
  body
    | .dlOnCommit => Delivery.dlOnCommit

/-! ## StockLevel -/

/-- `stock_level_ctx_t`. -/
structure StockLevelCtx where
  wId : UInt32 := 0
  dId : UInt32 := 0
  threshold : Int32 := 0

inductive StockLevelCallback where
  | slOnRangeRead

namespace StockLevel
variable (P : Platform)

/-- The context `tpcc_stock_level_execute` fills in. -/
def drawCtx : Draw StockLevelCtx := do
  let d ← getRandomNumber P (districtsPerWarehouse - 1)
  let threshold ← getRandomNumber P 10
  return { wId := 1, dId := 1 + d, threshold := (10 + threshold).toInt32 }

/-- The loop over the rows: those too short for a stock row do not count. -/
def belowThreshold (threshold : Int32) (rows : List (Bytes × Bytes)) : Int32 :=
  rows.foldl (fun count row =>
    match (asRow P.host (some row.2) : Option StockVal) with
    | some sv => if sv.sQuantity < threshold then count + 1 else count
    | none => count) 0

/-- The length given for the second name is one more than the name has, so its
terminator is rendered with it. -/
def slOnRangeRead (future : Future Bytes Bytes) :
    Prog StockLevelCtx StockLevelCallback Bytes Bytes Response Unit := do
  if future.getError ≠ 0 then
    finish (serviceUnavailable "fdb error")
  else
    let ctx ← load
    let count := belowThreshold P ctx.threshold future.getKeyvalueArray
    finish (.json (.map [("status", .str "ok"), ("below_threshold\x00", .int count.toInt)]))

/-- `tpcc_stock_level_execute`. -/
def execute (seed : UInt32) : Prog StockLevelCtx StockLevelCallback Bytes Bytes Response Unit :=
  openRequest "oom" "fdb failed" (store fun _ => (drawCtx P).value { seed }) (do
    let ctx ← load
    fdbAsyncGetRange (kvStockRangeBegin ctx.wId) (kvStockRangeEnd ctx.wId) .slOnRangeRead)

end StockLevel

def stockLevelChain (P : Platform) :
    Chain UInt32 StockLevelCtx StockLevelCallback Bytes Bytes Response where
  zero := {}
  entry := StockLevel.execute P
  body
    | .slOnRangeRead => StockLevel.slOnRangeRead P

end H2oTpcc

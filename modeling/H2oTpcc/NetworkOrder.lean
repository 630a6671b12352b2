import H2oTpcc.FieldLayout
import H2oTpcc.Loader
import H2oTpcc.Serial

/-! The byte order of stored rows. The header declares the value structs to be in network
byte order, but the loader and the handlers store a struct as it lies in memory and cast
what they read, without a conversion on either side. -/
namespace H2oTpcc

/-! ## The fields of the structs -/

/-- A packed struct, field by field. -/
class RowFields (ρ : Type) [PackedRow ρ] where
  fields : ρ → List Field
  encode_eq : ∀ host (row : ρ), encode host row = layout host (fields row)
  reader_other_iff : ∀ host host' (row : ρ) rest,
    ((PackedRow.reader host').run (encode host row ++ rest)).1 = row ↔
      ∀ field ∈ fields row, field.bytes host = field.bytes host'

export RowFields (fields)

instance : RowFields WarehouseVal where
  fields row := [.chars row.wName.toList, .chars row.wStreet1.toList, .chars row.wStreet2.toList,
    .chars row.wCity.toList, .chars row.wState.toList, .chars row.wZip.toList, .int32 row.wTax,
    .int64 row.wYtd]
  encode_eq host row := by simp [encode]
  reader_other_iff host host' row rest := by
    cases row
    simp [encode, PackedRow.reader, readInt32_other, readInt64_other, int32_other_iff,
      int64_other_iff]

instance : RowFields DistrictVal where
  fields row := [.chars row.dName.toList, .chars row.dStreet1.toList, .chars row.dStreet2.toList,
    .chars row.dCity.toList, .chars row.dState.toList, .chars row.dZip.toList, .int32 row.dTax,
    .int64 row.dYtd, .int32 row.dNextOId]
  encode_eq host row := by simp [encode]
  reader_other_iff host host' row rest := by
    cases row
    simp [encode, PackedRow.reader, readInt32_other, readInt64_other, int32_other_iff,
      int64_other_iff]

instance : RowFields CustomerVal where
  fields row := [.chars row.cFirst.toList, .chars row.cMiddle.toList, .chars row.cLast.toList,
    .chars row.cStreet1.toList, .chars row.cStreet2.toList, .chars row.cCity.toList,
    .chars row.cState.toList, .chars row.cZip.toList, .chars row.cPhone.toList, .int64 row.cSince,
    .chars row.cCredit.toList, .int64 row.cCreditLim, .int32 row.cDiscount, .int64 row.cBalance,
    .int64 row.cYtdPayment, .int16 row.cPaymentCnt, .int16 row.cDeliveryCnt,
    .chars row.cData.toList]
  encode_eq host row := by simp [encode]
  reader_other_iff host host' row rest := by
    cases row
    simp [encode, PackedRow.reader, readInt64_other, readInt32_other, readInt16_other,
      int64_other_iff, int32_other_iff, int16_other_iff]

instance : RowFields HistoryVal where
  fields row := [.int64 row.hDate, .int32 row.hAmount, .chars row.hData.toList]
  encode_eq host row := by simp [encode]
  reader_other_iff host host' row rest := by
    cases row
    simp [encode, PackedRow.reader, readInt64_other, readInt32_other, int64_other_iff,
      int32_other_iff]

instance : RowFields ItemVal where
  fields row := [.chars row.iName.toList, .int32 row.iPrice, .chars row.iData.toList,
    .int32 row.iImId]
  encode_eq host row := by simp [encode]
  reader_other_iff host host' row rest := by
    cases row
    simp [encode, PackedRow.reader, readInt32_other, int32_other_iff]

instance : RowFields StockVal where
  fields row := [.int32 row.sQuantity, .chars row.sDist.toList, .int32 row.sYtd,
    .int32 row.sOrderCnt, .int32 row.sRemoteCnt, .chars row.sData.toList]
  encode_eq host row := by simp [encode]
  reader_other_iff host host' row rest := by
    cases row
    simp [encode, PackedRow.reader, readInt32_other, int32_other_iff]

instance : RowFields OorderVal where
  fields row := [.uint32 row.oCId, .int32 row.oCarrierId, .int16 row.oOlCnt, .int16 row.oAllLocal,
    .int64 row.oEntryD]
  encode_eq host row := by simp [encode]
  reader_other_iff host host' row rest := by
    cases row
    simp [encode, PackedRow.reader, readUInt32_other, readInt32_other, readInt16_other,
      readInt64_other, uint32_other_iff, int32_other_iff, int16_other_iff, int64_other_iff]

instance : RowFields OrderLineVal where
  fields row := [.uint32 row.olIId, .uint32 row.olSupplyWId, .int64 row.olDeliveryD,
    .int16 row.olQuantity, .int32 row.olAmount, .chars row.olDistInfo.toList]
  encode_eq host row := by simp [encode]
  reader_other_iff host host' row rest := by
    cases row
    simp [encode, PackedRow.reader, readUInt32_other, readInt64_other, readInt16_other,
      readInt32_other, uint32_other_iff, int64_other_iff, int16_other_iff, int32_other_iff]

section Rows
variable {ρ : Type} [PackedRow ρ] [RowFields ρ] (host host' : Endian) (row : ρ)

/-- A stored row is in network byte order on a big-endian host, and on the other only if
its integers do not show the difference. -/
theorem encode_placedIn_big_iff : PlacedIn .big (encode host row) (fields row) ↔
    host = .big ∨ ∀ field ∈ fields row, field.Symmetric := by
  rw [RowFields.encode_eq, layout_placedIn_iff, Field.all_bytes_eq_iff]

/-- The cast on another host finds the same struct under the same condition. -/
theorem asRow_other_iff : asRow host' (some (encode host row)) = some row ↔
    host = host' ∨ ∀ field ∈ fields row, field.Symmetric := by
  have long : ¬ (encode host row).length < PackedRow.size ρ := by simp
  have read := RowFields.reader_other_iff host host' row []
  rw [List.append_nil] at read
  rw [asRow, if_neg long, Option.some_inj, decode, read, Field.all_bytes_eq_iff]

end Rows

/-! ## The rows that are written -/

/-- A value of one of the eight structs. -/
inductive RowVal where
  | warehouse (row : WarehouseVal)
  | district (row : DistrictVal)
  | customer (row : CustomerVal)
  | history (row : HistoryVal)
  | item (row : ItemVal)
  | stock (row : StockVal)
  | oorder (row : OorderVal)
  | orderLine (row : OrderLineVal)

namespace RowVal

/-- The tables whose values are structs. -/
def tables : List Table :=
  [.warehouse, .district, .customer, .history, .item, .stock, .oorder, .orderLine]

def table : RowVal → Table
  | warehouse _ => .warehouse
  | district _ => .district
  | customer _ => .customer
  | history _ => .history
  | item _ => .item
  | stock _ => .stock
  | oorder _ => .oorder
  | orderLine _ => .orderLine

def encode (host : Endian) : RowVal → Bytes
  | warehouse row => H2oTpcc.encode host row
  | district row => H2oTpcc.encode host row
  | customer row => H2oTpcc.encode host row
  | history row => H2oTpcc.encode host row
  | item row => H2oTpcc.encode host row
  | stock row => H2oTpcc.encode host row
  | oorder row => H2oTpcc.encode host row
  | orderLine row => H2oTpcc.encode host row

def fields : RowVal → List Field
  | warehouse row => H2oTpcc.fields row
  | district row => H2oTpcc.fields row
  | customer row => H2oTpcc.fields row
  | history row => H2oTpcc.fields row
  | item row => H2oTpcc.fields row
  | stock row => H2oTpcc.fields row
  | oorder row => H2oTpcc.fields row
  | orderLine row => H2oTpcc.fields row

/-- A callback that reads this value on this host finds this row. -/
def ReadBack (host : Endian) (value : Bytes) : RowVal → Prop
  | warehouse row => asRow host (some value) = some row
  | district row => asRow host (some value) = some row
  | customer row => asRow host (some value) = some row
  | history row => asRow host (some value) = some row
  | item row => asRow host (some value) = some row
  | stock row => asRow host (some value) = some row
  | oorder row => asRow host (some value) = some row
  | orderLine row => asRow host (some value) = some row

private theorem placedIn_big_iff (host : Endian) (row : RowVal) :
    PlacedIn .big (row.encode host) row.fields ↔
    host = .big ∨ ∀ field ∈ row.fields, field.Symmetric := by
  cases row <;> exact encode_placedIn_big_iff host _

private theorem readBack_iff (host host' : Endian) (row : RowVal) :
    row.ReadBack host' (row.encode host) ↔
    host = host' ∨ ∀ field ∈ row.fields, field.Symmetric := by
  cases row <;> exact asRow_other_iff host host' _

end RowVal

/-- The loader on this machine, or a server there that runs NewOrder and Payment, sets
this value under this key. -/
inductive WrittenOn (P : Platform) (key : Key) (value : Bytes) : Prop where
  | loader (W : Nat) (set : (key, value) ∈ loaderRows P W)
  | server (base : Store Bytes Bytes) (world : TpccWorld) (reachable : TpccReachable P base world)
      (commit : TpccCommit) (logged : commit ∈ world.db.log)
      (set : (key.build P.host, value) ∈ commit.writes)

section Written
variable {P : Platform} {key : Key} {value : Bytes}

/-- The value set under a key of these tables is the memory of a struct. -/
def IsMemory (host : Endian) (key : Key) (value : Bytes) : Prop :=
  key.table ∈ RowVal.tables → ∃ row : RowVal, row.table = key.table ∧ value = row.encode host

private theorem loaderRows_memory (set : (key, value) ∈ loaderRows P W) : IsMemory P.host key value := by
  intro stores
  rcases loadIds_cases set with ⟨i, rfl, row, rfl⟩ | ⟨i, rfl⟩ | ⟨w, _, rfl, row, rfl, _⟩ |
    ⟨w, _, d, _, rfl, row, rfl, _⟩ | ⟨w, _, d, _, rfl, _⟩
  · exact ⟨.item row, rfl, rfl⟩
  · simp [Key.table, RowVal.tables] at stores
  · exact ⟨.warehouse row, rfl, rfl⟩
  · exact ⟨.district row, rfl, rfl⟩
  · simp [Key.table, RowVal.tables] at stores

private theorem NewOrder.rows_memory (set : (key, value) ∈ NewOrder.rows P ctx now) :
    IsMemory P.host key value := by
  intro stores
  simp only [NewOrder.rows, List.mem_append, List.mem_cons, List.mem_map, List.not_mem_nil, or_false,
    Prod.mk.injEq] at set
  rcases set with (((⟨rfl, rfl⟩ | ⟨rfl, _⟩) | ⟨i, _, rfl, rfl⟩) | ⟨rfl, _⟩) | ⟨i, _, rfl, rfl⟩
  · exact ⟨.oorder (NewOrder.oorderVal ctx now), rfl, rfl⟩
  · simp [Key.table, RowVal.tables] at stores
  · exact ⟨.orderLine (NewOrder.orderLineVal ctx i), rfl, rfl⟩
  · simp [Key.table, RowVal.tables] at stores
  · exact ⟨.stock (NewOrder.stockVal ctx i), rfl, rfl⟩

private theorem Payment.rows_memory (set : (key, value) ∈ Payment.rows P ctx cv now) :
    IsMemory P.host key value := by
  intro _
  simp only [Payment.rows, List.mem_cons, List.not_mem_nil, or_false, Prod.mk.injEq] at set
  rcases set with ⟨rfl, same⟩ | ⟨rfl, same⟩ | ⟨rfl, same⟩ | ⟨rfl, same⟩
  · exact ⟨.warehouse (Payment.warehouseVal ctx), rfl, same⟩
  · exact ⟨.district (Payment.districtVal ctx), rfl, same⟩
  · exact ⟨.customer (Payment.customerVal ctx cv), rfl, same⟩
  · exact ⟨.history (Payment.historyVal ctx now), rfl, same⟩

/-- Whoever has written a row, it is the memory of its struct on that machine. -/
theorem WrittenOn.memory (written : WrittenOn P key value) : IsMemory P.host key value := by
  cases written with
  | loader W set => exact loaderRows_memory set
  | server base world reachable commit logged set =>
    obtain ⟨version, found⟩ := List.getElem?_of_mem logged
    cases serial_step reachable found with
    | order ctx now placed other fits reads writes becomes =>
      rw [writes, mem_built] at set
      exact NewOrder.rows_memory set
    | payment ctx cv now paid other warehouse district customer writes becomes =>
      rw [writes, mem_built] at set
      exact Payment.rows_memory set

end Written

/-- The loader's row of the first warehouse. -/
private theorem loader_warehouse (P : Platform) : ∃ row : WarehouseVal,
    (.warehouse 1, encode P.host row) ∈ loaderRows P 1 ∧ row.wYtd = 30000000 := by
  have first : (1 : UInt32) ∈ oneTo 1 := by decide
  obtain ⟨⟨⟨key, value⟩, set, rfl⟩, _⟩ := loadIds_sets (P := P) _ first
  rcases loadIds_cases set with ⟨_, key, _⟩ | ⟨_, key⟩ | ⟨_, _, key, row, rfl, ytd⟩ | ⟨_, _, _, _, key, _⟩ |
    ⟨_, _, _, _, key, _⟩
  all_goals cases key
  exact ⟨row, set, ytd⟩

end H2oTpcc

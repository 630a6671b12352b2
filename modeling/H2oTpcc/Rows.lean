import H2oTpcc.PackedLayout

/-! The value structs of `tpcc_kv.h`. The handlers and the loader store a struct
by writing its memory and read it by casting the stored bytes, so a row's bytes
depend on the byte order of the host and a cast ignores whatever follows the
struct. -/
namespace H2oTpcc

/-- A packed struct: how it lies in memory and how a cast reads it back. -/
class PackedRow (ρ : Type) where
  /-- `sizeof`. -/
  size : Nat
  /-- The struct after `memset(&v, 0, sizeof(v))`. -/
  zero : ρ
  encode : Endian → ρ → Bytes
  reader : Endian → Reader ρ
  encode_length : ∀ host row, (encode host row).length = size
  reader_run : ∀ host row rest, (reader host).run (encode host row ++ rest) = (row, rest)

export PackedRow (encode)

/-- The cast of a buffer to the struct. -/
def decode [PackedRow ρ] (host : Endian) (buffer : Bytes) : ρ :=
  ((PackedRow.reader host).run buffer).1

@[simp] theorem encode_length [PackedRow ρ] (host : Endian) (row : ρ) :
    (encode host row).length = PackedRow.size ρ := PackedRow.encode_length host row

@[simp] theorem decode_encode [PackedRow ρ] (host : Endian) (row : ρ) :
    decode host (encode host row) = row := by
  have whole := PackedRow.reader_run host row []
  rw [List.append_nil] at whole
  rw [decode, whole]

/-- The guard every read callback makes before its cast: the value is present
and at least as long as the struct. -/
def asRow [PackedRow ρ] (host : Endian) (value : Option Bytes) : Option ρ :=
  match value with
  | none => none
  | some buffer => if buffer.length < PackedRow.size ρ then none else some (decode host buffer)

@[simp] theorem asRow_none [PackedRow ρ] (host : Endian) :
    (asRow host none : Option ρ) = none := rfl

@[simp] theorem asRow_encode [PackedRow ρ] (host : Endian) (row : ρ) :
    asRow host (some (encode host row)) = some row := by
  simp [asRow]

theorem isSome_of_asRow [PackedRow ρ] {host : Endian} {value : Option Bytes} {row : ρ}
    (cast : asRow host value = some row) : value.isSome := by
  cases value with
  | none => cases cast
  | some buffer => rfl

/-! ## The structs -/

structure WarehouseVal where
  wName : Chars 10
  wStreet1 : Chars 20
  wStreet2 : Chars 20
  wCity : Chars 20
  wState : Chars 2
  wZip : Chars 9
  wTax : Int32
  wYtd : Int64
  deriving DecidableEq

structure DistrictVal where
  dName : Chars 10
  dStreet1 : Chars 20
  dStreet2 : Chars 20
  dCity : Chars 20
  dState : Chars 2
  dZip : Chars 9
  dTax : Int32
  dYtd : Int64
  dNextOId : Int32
  deriving DecidableEq

structure CustomerVal where
  cFirst : Chars 16
  cMiddle : Chars 2
  cLast : Chars 16
  cStreet1 : Chars 20
  cStreet2 : Chars 20
  cCity : Chars 20
  cState : Chars 2
  cZip : Chars 9
  cPhone : Chars 16
  cSince : Int64
  cCredit : Chars 2
  cCreditLim : Int64
  cDiscount : Int32
  cBalance : Int64
  cYtdPayment : Int64
  cPaymentCnt : Int16
  cDeliveryCnt : Int16
  cData : Chars 500
  deriving DecidableEq

structure HistoryVal where
  hDate : Int64
  hAmount : Int32
  hData : Chars 24
  deriving DecidableEq

structure ItemVal where
  iName : Chars 24
  iPrice : Int32
  iData : Chars 50
  iImId : Int32
  deriving DecidableEq

/-- `s_dist` is ten blocks of 24 characters, one behind the other. -/
structure StockVal where
  sQuantity : Int32
  sDist : Chars 240
  sYtd : Int32
  sOrderCnt : Int32
  sRemoteCnt : Int32
  sData : Chars 50
  deriving DecidableEq

structure OorderVal where
  oCId : UInt32
  oCarrierId : Int32
  oOlCnt : Int16
  oAllLocal : Int16
  oEntryD : Int64
  deriving DecidableEq

structure OrderLineVal where
  olIId : UInt32
  olSupplyWId : UInt32
  olDeliveryD : Int64
  olQuantity : Int16
  olAmount : Int32
  olDistInfo : Chars 24
  deriving DecidableEq

instance : PackedRow WarehouseVal where
  size := 93
  zero := ⟨.zero _, .zero _, .zero _, .zero _, .zero _, .zero _, 0, 0⟩
  encode host row := row.wName.toList ++ row.wStreet1.toList ++ row.wStreet2.toList ++
    row.wCity.toList ++ row.wState.toList ++ row.wZip.toList ++ int32Bytes host row.wTax ++
    int64Bytes host row.wYtd
  reader host := do
    let wName ← readChars 10
    let wStreet1 ← readChars 20
    let wStreet2 ← readChars 20
    let wCity ← readChars 20
    let wState ← readChars 2
    let wZip ← readChars 9
    let wTax ← readInt32 host
    let wYtd ← readInt64 host
    return { wName, wStreet1, wStreet2, wCity, wState, wZip, wTax, wYtd }
  encode_length host row := by simp
  reader_run host row rest := by simp [List.append_assoc]

instance : PackedRow DistrictVal where
  size := 97
  zero := ⟨.zero _, .zero _, .zero _, .zero _, .zero _, .zero _, 0, 0, 0⟩
  encode host row := row.dName.toList ++ row.dStreet1.toList ++ row.dStreet2.toList ++
    row.dCity.toList ++ row.dState.toList ++ row.dZip.toList ++ int32Bytes host row.dTax ++
    int64Bytes host row.dYtd ++ int32Bytes host row.dNextOId
  reader host := do
    let dName ← readChars 10
    let dStreet1 ← readChars 20
    let dStreet2 ← readChars 20
    let dCity ← readChars 20
    let dState ← readChars 2
    let dZip ← readChars 9
    let dTax ← readInt32 host
    let dYtd ← readInt64 host
    let dNextOId ← readInt32 host
    return { dName, dStreet1, dStreet2, dCity, dState, dZip, dTax, dYtd, dNextOId }
  encode_length host row := by simp
  reader_run host row rest := by simp [List.append_assoc]

instance : PackedRow CustomerVal where
  size := 663
  zero := ⟨.zero _, .zero _, .zero _, .zero _, .zero _, .zero _, .zero _, .zero _, .zero _, 0,
    .zero _, 0, 0, 0, 0, 0, 0, .zero _⟩
  encode host row := row.cFirst.toList ++ row.cMiddle.toList ++ row.cLast.toList ++
    row.cStreet1.toList ++ row.cStreet2.toList ++ row.cCity.toList ++ row.cState.toList ++
    row.cZip.toList ++ row.cPhone.toList ++ int64Bytes host row.cSince ++ row.cCredit.toList ++
    int64Bytes host row.cCreditLim ++ int32Bytes host row.cDiscount ++
    int64Bytes host row.cBalance ++ int64Bytes host row.cYtdPayment ++
    int16Bytes host row.cPaymentCnt ++ int16Bytes host row.cDeliveryCnt ++ row.cData.toList
  reader host := do
    let cFirst ← readChars 16
    let cMiddle ← readChars 2
    let cLast ← readChars 16
    let cStreet1 ← readChars 20
    let cStreet2 ← readChars 20
    let cCity ← readChars 20
    let cState ← readChars 2
    let cZip ← readChars 9
    let cPhone ← readChars 16
    let cSince ← readInt64 host
    let cCredit ← readChars 2
    let cCreditLim ← readInt64 host
    let cDiscount ← readInt32 host
    let cBalance ← readInt64 host
    let cYtdPayment ← readInt64 host
    let cPaymentCnt ← readInt16 host
    let cDeliveryCnt ← readInt16 host
    let cData ← readChars 500
    return { cFirst, cMiddle, cLast, cStreet1, cStreet2, cCity, cState, cZip, cPhone, cSince,
             cCredit, cCreditLim, cDiscount, cBalance, cYtdPayment, cPaymentCnt, cDeliveryCnt, cData }
  encode_length host row := by simp
  reader_run host row rest := by simp [List.append_assoc]

instance : PackedRow HistoryVal where
  size := 36
  zero := ⟨0, 0, .zero _⟩
  encode host row := int64Bytes host row.hDate ++ int32Bytes host row.hAmount ++ row.hData.toList
  reader host := do
    let hDate ← readInt64 host
    let hAmount ← readInt32 host
    let hData ← readChars 24
    return { hDate, hAmount, hData }
  encode_length host row := by simp
  reader_run host row rest := by simp [List.append_assoc]

instance : PackedRow ItemVal where
  size := 82
  zero := ⟨.zero _, 0, .zero _, 0⟩
  encode host row := row.iName.toList ++ int32Bytes host row.iPrice ++ row.iData.toList ++
    int32Bytes host row.iImId
  reader host := do
    let iName ← readChars 24
    let iPrice ← readInt32 host
    let iData ← readChars 50
    let iImId ← readInt32 host
    return { iName, iPrice, iData, iImId }
  encode_length host row := by simp
  reader_run host row rest := by simp [List.append_assoc]

instance : PackedRow StockVal where
  size := 306
  zero := ⟨0, .zero _, 0, 0, 0, .zero _⟩
  encode host row := int32Bytes host row.sQuantity ++ row.sDist.toList ++ int32Bytes host row.sYtd ++
    int32Bytes host row.sOrderCnt ++ int32Bytes host row.sRemoteCnt ++ row.sData.toList
  reader host := do
    let sQuantity ← readInt32 host
    let sDist ← readChars 240
    let sYtd ← readInt32 host
    let sOrderCnt ← readInt32 host
    let sRemoteCnt ← readInt32 host
    let sData ← readChars 50
    return { sQuantity, sDist, sYtd, sOrderCnt, sRemoteCnt, sData }
  encode_length host row := by simp
  reader_run host row rest := by simp [List.append_assoc]

instance : PackedRow OorderVal where
  size := 20
  zero := ⟨0, 0, 0, 0, 0⟩
  encode host row := uint32Bytes host row.oCId ++ int32Bytes host row.oCarrierId ++
    int16Bytes host row.oOlCnt ++ int16Bytes host row.oAllLocal ++ int64Bytes host row.oEntryD
  reader host := do
    let oCId ← readUInt32 host
    let oCarrierId ← readInt32 host
    let oOlCnt ← readInt16 host
    let oAllLocal ← readInt16 host
    let oEntryD ← readInt64 host
    return { oCId, oCarrierId, oOlCnt, oAllLocal, oEntryD }
  encode_length host row := by simp
  reader_run host row rest := by simp [List.append_assoc]

instance : PackedRow OrderLineVal where
  size := 46
  zero := ⟨0, 0, 0, 0, 0, .zero _⟩
  encode host row := uint32Bytes host row.olIId ++ uint32Bytes host row.olSupplyWId ++
    int64Bytes host row.olDeliveryD ++ int16Bytes host row.olQuantity ++
    int32Bytes host row.olAmount ++ row.olDistInfo.toList
  reader host := do
    let olIId ← readUInt32 host
    let olSupplyWId ← readUInt32 host
    let olDeliveryD ← readInt64 host
    let olQuantity ← readInt16 host
    let olAmount ← readInt32 host
    let olDistInfo ← readChars 24
    return { olIId, olSupplyWId, olDeliveryD, olQuantity, olAmount, olDistInfo }
  encode_length host row := by simp
  reader_run host row rest := by simp [List.append_assoc]

end H2oTpcc

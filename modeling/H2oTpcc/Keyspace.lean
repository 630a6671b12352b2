import H2oTpcc.PackedLayout
import H2oTpcc.SelfDelimiting

/-! The key builders of `tpcc_kv.c`, Payment's inline history key and the World
key of `tfb_handlers.c`. Every key is a table prefix followed by its components,
and each part says where it ends, so the whole keyspace is prefix-free: a key
determines its table and its components. -/
namespace H2oTpcc

/-- The bytes of a C string literal, without its terminator. -/
def literal (text : String) : Bytes := text.toList.map fun letter => UInt8.ofNat letter.toNat

/-- `kv_encode_u32_be`. -/
def kvEncodeU32Be (val : UInt32) : Bytes :=
  [((val >>> 24) &&& 0xFF).toUInt8, ((val >>> 16) &&& 0xFF).toUInt8,
    ((val >>> 8) &&& 0xFF).toUInt8, (val &&& 0xFF).toUInt8]

/-- `kv_encode_next_o_id`: the id is widened to `int64_t` before it is cut into bytes. -/
def kvEncodeNextOId (nextOId : Int32) : Bytes :=
  let val : Int64 := nextOId.toInt64
  [((val >>> 56) &&& 0xFF).toUInt64.toUInt8, ((val >>> 48) &&& 0xFF).toUInt64.toUInt8,
    ((val >>> 40) &&& 0xFF).toUInt64.toUInt8, ((val >>> 32) &&& 0xFF).toUInt64.toUInt8,
    ((val >>> 24) &&& 0xFF).toUInt64.toUInt8, ((val >>> 16) &&& 0xFF).toUInt64.toUInt8,
    ((val >>> 8) &&& 0xFF).toUInt64.toUInt8, (val &&& 0xFF).toUInt64.toUInt8]

/-- `kv_decode_next_o_id`; a buffer announced shorter than eight bytes decodes to 0. -/
def kvDecodeNextOId (buf : Bytes) (len : Nat) : Int32 :=
  if len < 8 then 0
  else
    let byte (i : Nat) : Int64 := (buf.getD i 0).toUInt64.toInt64
    let val : Int64 := (byte 0 <<< 56) ||| (byte 1 <<< 48) ||| (byte 2 <<< 40) |||
      (byte 3 <<< 32) ||| (byte 4 <<< 24) ||| (byte 5 <<< 16) ||| (byte 6 <<< 8) ||| byte 7
    val.toInt32

/-! ## Key builders -/

def ssWarehouse := "tpcc/w/"
def ssDistrict := "tpcc/d/"
def ssCustomer := "tpcc/c/"
def ssCustName := "tpcc/cn/"
def ssHistory := "tpcc/h/"
def ssItem := "tpcc/i/"
def ssStock := "tpcc/s/"
def ssOorder := "tpcc/o/"
def ssNewOrder := "tpcc/no/"
def ssOrderLine := "tpcc/ol/"
def ssNextOId := "tpcc/nid/"
def tfbWorldPrefix := "tfb/w/"

/-- A C string: no byte of it is NUL. -/
abbrev CString := Unstopped (0 : UInt8)

def kvWarehouseKey (wId : UInt32) : Bytes := literal ssWarehouse ++ kvEncodeU32Be wId

def kvDistrictKey (wId dId : UInt32) : Bytes :=
  literal ssDistrict ++ kvEncodeU32Be wId ++ kvEncodeU32Be dId

def kvCustomerKey (wId dId cId : UInt32) : Bytes :=
  literal ssCustomer ++ kvEncodeU32Be wId ++ kvEncodeU32Be dId ++ kvEncodeU32Be cId

def kvCustomerNameKey (wId dId : UInt32) (cLast cFirst : CString) (cId : UInt32) : Bytes :=
  literal ssCustName ++ kvEncodeU32Be wId ++ kvEncodeU32Be dId ++ terminated 0 cLast ++
    terminated 0 cFirst ++ kvEncodeU32Be cId

def kvItemKey (iId : UInt32) : Bytes := literal ssItem ++ kvEncodeU32Be iId

def kvStockKey (wId iId : UInt32) : Bytes :=
  literal ssStock ++ kvEncodeU32Be wId ++ kvEncodeU32Be iId

def kvOorderKey (wId dId oId : UInt32) : Bytes :=
  literal ssOorder ++ kvEncodeU32Be wId ++ kvEncodeU32Be dId ++ kvEncodeU32Be oId

def kvNewOrderKey (wId dId oId : UInt32) : Bytes :=
  literal ssNewOrder ++ kvEncodeU32Be wId ++ kvEncodeU32Be dId ++ kvEncodeU32Be oId

def kvOrderLineKey (wId dId oId olNumber : UInt32) : Bytes :=
  literal ssOrderLine ++ kvEncodeU32Be wId ++ kvEncodeU32Be dId ++ kvEncodeU32Be oId ++
    kvEncodeU32Be olNumber

def kvNextOIdKey (wId dId : UInt32) : Bytes :=
  literal ssNextOId ++ kvEncodeU32Be wId ++ kvEncodeU32Be dId

def kvStockRangeBegin (wId : UInt32) : Bytes :=
  literal ssStock ++ kvEncodeU32Be wId ++ kvEncodeU32Be 0

def kvStockRangeEnd (wId : UInt32) : Bytes :=
  literal ssStock ++ kvEncodeU32Be wId ++ kvEncodeU32Be 0xFFFFFFFF

def kvNewOrderRangeBegin (wId dId : UInt32) : Bytes :=
  literal ssNewOrder ++ kvEncodeU32Be wId ++ kvEncodeU32Be dId ++ kvEncodeU32Be 0

def kvNewOrderRangeEnd (wId dId : UInt32) : Bytes :=
  literal ssNewOrder ++ kvEncodeU32Be wId ++ kvEncodeU32Be dId ++ kvEncodeU32Be 0xFFFFFFFF

def kvOrderLineRangeBegin (wId dId oId : UInt32) : Bytes :=
  literal ssOrderLine ++ kvEncodeU32Be wId ++ kvEncodeU32Be dId ++ kvEncodeU32Be oId ++
    kvEncodeU32Be 0

def kvOrderLineRangeEnd (wId dId oId : UInt32) : Bytes :=
  literal ssOrderLine ++ kvEncodeU32Be wId ++ kvEncodeU32Be dId ++ kvEncodeU32Be oId ++
    kvEncodeU32Be 0xFFFFFFFF

/-- The history key that `on_customer_read` of Payment builds in place; `stamp`
is `(uint32_t)(now & 0xFFFFFFFF)`. -/
def historyKey (wId cWId cDId cId stamp : UInt32) : Bytes :=
  literal ssHistory ++ kvEncodeU32Be wId ++ kvEncodeU32Be cWId ++ kvEncodeU32Be cDId ++
    kvEncodeU32Be cId ++ kvEncodeU32Be stamp

/-- `htonl`: the number this host stores as the big-endian bytes of `val`. -/
def htonl (host : Endian) (val : UInt32) : UInt32 :=
  UInt32.ofNat (host.value (Endian.big.bytes 4 val.toNat))

/-- `ntohl`: the number whose big-endian bytes this host stores as `val`. -/
def ntohl (host : Endian) (val : UInt32) : UInt32 :=
  UInt32.ofNat (Endian.big.value (host.bytes 4 val.toNat))

/-- `world_key`: `htonl`, then the bytes of the result as they lie in memory. -/
def worldKey (host : Endian) (id : UInt32) : Bytes :=
  literal tfbWorldPrefix ++ uint32Bytes host (htonl host id)

/-! ## The order counter -/

/-- The bits of a counter that one byte of its code carries. -/
private def counterPart (val : BitVec 32) (place : Nat) : BitVec 32 :=
  ((((val.signExtend 64).sshiftRight place % 256#64) &&& 255#64) <<< place).signExtend 32

private theorem counterPart_bit (val : BitVec 32) (place : Nat) {j : Nat} (below : j < 32) :
    (counterPart val place).getLsbD j = (decide (place ≤ j ∧ j < place + 8) && val.getLsbD j) := by
  have mask (i : Nat) : (255#64).getLsbD i = decide (i < 8) := Nat.testBit_two_pow_sub_one 8 i
  have low (z : BitVec 64) : z % 256#64 = z &&& 255#64 := by
    apply BitVec.eq_of_toNat_eq
    rw [BitVec.toNat_umod, BitVec.toNat_and]
    exact (Nat.and_two_pow_sub_one_eq_mod z.toNat 8).symm
  have wide : j < 64 := by omega
  simp only [counterPart, low, BitVec.getLsbD_signExtend, BitVec.getLsbD_shiftLeft,
    BitVec.getLsbD_and, BitVec.getLsbD_sshiftRight, mask]
  by_cases inside : place ≤ j
  · have near : ¬ 64 ≤ j - place := by omega
    have back : place + (j - place) = j := by omega
    have eight : j - place < 8 ↔ j < place + 8 := by omega
    simp [below, wide, near, inside, back, eight, Nat.not_lt.mpr inside, Bool.and_comm]
  · simp [inside, wide, Nat.lt_of_not_le inside]

/-- The counter is read back as it was written; its upper four bytes are the sign. -/
theorem kvDecodeNextOId_encode (nextOId : Int32) :
    kvDecodeNextOId (kvEncodeNextOId nextOId) 8 = nextOId := by
  apply Int32.toBitVec_inj.mp
  have parts : (kvDecodeNextOId (kvEncodeNextOId nextOId) 8).toBitVec =
      counterPart nextOId.toBitVec 56 ||| counterPart nextOId.toBitVec 48 |||
      counterPart nextOId.toBitVec 40 ||| counterPart nextOId.toBitVec 32 |||
      counterPart nextOId.toBitVec 24 ||| counterPart nextOId.toBitVec 16 |||
      counterPart nextOId.toBitVec 8 ||| counterPart nextOId.toBitVec 0 := by
    simp [kvDecodeNextOId, kvEncodeNextOId, counterPart]
  apply BitVec.eq_of_getLsbD_eq
  intro j below
  rw [parts]
  simp only [BitVec.getLsbD_or, counterPart_bit _ _ below, ← Bool.and_or_distrib_right]
  cases nextOId.toBitVec.getLsbD j with
  | false => simp
  | true => simp; omega

/-! ## Components are self-delimiting -/

private theorem low_byte (x : UInt32) : (x &&& 0xFF).toUInt8 = UInt8.ofNat x.toNat := by
  have mask := Nat.and_two_pow_sub_one_eq_mod x.toNat 8
  have ones : (0xFF : UInt32).toNat = 2 ^ 8 - 1 := rfl
  apply UInt8.toNat_inj.mp
  rw [UInt32.toNat_toUInt8, UInt32.toNat_and, ones, mask, UInt8.toNat_ofNat', Nat.mod_mod]

/-- The encoder is the big-endian representation in four bytes. -/
theorem kvEncodeU32Be_eq (val : UInt32) : kvEncodeU32Be val = Endian.big.bytes 4 val.toNat := by
  simp only [kvEncodeU32Be, low_byte, Endian.bytes, leBytes, List.reverse_cons, List.reverse_nil,
    List.nil_append, List.cons_append, UInt32.toNat_shiftRight, Nat.shiftRight_eq_div_pow,
    Nat.div_div_eq_div_mul]
  rfl

private theorem kvEncodeU32Be_selfDelimiting : SelfDelimiting kvEncodeU32Be := by
  apply SelfDelimiting.of_fixed_width (n := 4) (fun _ => rfl)
  intro a b same
  rw [kvEncodeU32Be_eq, kvEncodeU32Be_eq] at same
  exact UInt32.toNat_inj.mp (Endian.bytes_injective _ a.toNat_lt b.toNat_lt same)

/-- What `htonl` gives lies in memory in network byte order, on both hosts. -/
theorem uint32Bytes_htonl (host : Endian) (val : UInt32) :
    uint32Bytes host (htonl host val) = kvEncodeU32Be val := by
  have fits : host.value (Endian.big.bytes 4 val.toNat) < 2 ^ 32 := by
    simpa using host.value_lt (Endian.big.bytes 4 val.toNat)
  have stored := host.bytes_value (Endian.big.bytes 4 val.toNat)
  rw [Endian.bytes_length] at stored
  rw [uint32Bytes, htonl, UInt32.toNat_ofNat_of_lt' fits, stored, kvEncodeU32Be_eq]

/-- Both hosts store the World id in network byte order: `htonl` undoes what the copy of its
memory does. -/
theorem worldKey_eq (host : Endian) (id : UInt32) :
    worldKey host id = literal tfbWorldPrefix ++ kvEncodeU32Be id := by
  rw [worldKey, uint32Bytes_htonl]

/-- Different numbers have different encodings, so that a key tells its components apart. -/
theorem kvEncodeU32Be_injective {a b : UInt32} (same : kvEncodeU32Be a = kvEncodeU32Be b) : a = b :=
  (kvEncodeU32Be_selfDelimiting a b [] [] (by rw [same])).1

/-- Different World rows have different keys: what `htonl` leaves in memory is big-endian on
every host. -/
theorem worldKey_injective (host : Endian) {a b : UInt32} (same : worldKey host a = worldKey host b) :
    a = b := by
  rw [worldKey_eq, worldKey_eq] at same
  exact kvEncodeU32Be_injective (List.append_cancel_left same)

/-! ## The keyspace -/

inductive Table where
  | warehouse | district | customer | customerName | history | item | stock | oorder | newOrder
  | orderLine | nextOId | world
  deriving DecidableEq

def Table.ss : Table → String
  | warehouse => ssWarehouse
  | district => ssDistrict
  | customer => ssCustomer
  | customerName => ssCustName
  | history => ssHistory
  | item => ssItem
  | stock => ssStock
  | oorder => ssOorder
  | newOrder => ssNewOrder
  | orderLine => ssOrderLine
  | nextOId => ssNextOId
  | world => tfbWorldPrefix

/-- A builder together with the components it is called with. -/
inductive Key where
  | warehouse (wId : UInt32)
  | district (wId dId : UInt32)
  | customer (wId dId cId : UInt32)
  | customerName (wId dId : UInt32) (cLast cFirst : CString) (cId : UInt32)
  | history (wId cWId cDId cId stamp : UInt32)
  | item (iId : UInt32)
  | stock (wId iId : UInt32)
  | oorder (wId dId oId : UInt32)
  | newOrder (wId dId oId : UInt32)
  | orderLine (wId dId oId olNumber : UInt32)
  | nextOId (wId dId : UInt32)
  | world (id : UInt32)
  deriving DecidableEq

/-- The bytes a builder writes on a host of the given byte order. -/
def Key.build (host : Endian) : Key → Bytes
  | warehouse wId => kvWarehouseKey wId
  | district wId dId => kvDistrictKey wId dId
  | customer wId dId cId => kvCustomerKey wId dId cId
  | customerName wId dId cLast cFirst cId => kvCustomerNameKey wId dId cLast cFirst cId
  | history wId cWId cDId cId stamp => historyKey wId cWId cDId cId stamp
  | item iId => kvItemKey iId
  | stock wId iId => kvStockKey wId iId
  | oorder wId dId oId => kvOorderKey wId dId oId
  | newOrder wId dId oId => kvNewOrderKey wId dId oId
  | orderLine wId dId oId olNumber => kvOrderLineKey wId dId oId olNumber
  | nextOId wId dId => kvNextOIdKey wId dId
  | world id => worldKey host id

def Key.table : Key → Table
  | warehouse .. => .warehouse
  | district .. => .district
  | customer .. => .customer
  | customerName .. => .customerName
  | history .. => .history
  | item .. => .item
  | stock .. => .stock
  | oorder .. => .oorder
  | newOrder .. => .newOrder
  | orderLine .. => .orderLine
  | nextOId .. => .nextOId
  | world .. => .world

/-- What follows the table prefix. -/
def Key.components : Key → Bytes
  | warehouse wId => kvEncodeU32Be wId
  | district wId dId => kvEncodeU32Be wId ++ kvEncodeU32Be dId
  | customer wId dId cId => kvEncodeU32Be wId ++ (kvEncodeU32Be dId ++ kvEncodeU32Be cId)
  | customerName wId dId cLast cFirst cId => kvEncodeU32Be wId ++ (kvEncodeU32Be dId ++
      (terminated 0 cLast ++ (terminated 0 cFirst ++ kvEncodeU32Be cId)))
  | history wId cWId cDId cId stamp => kvEncodeU32Be wId ++ (kvEncodeU32Be cWId ++
      (kvEncodeU32Be cDId ++ (kvEncodeU32Be cId ++ kvEncodeU32Be stamp)))
  | item iId => kvEncodeU32Be iId
  | stock wId iId => kvEncodeU32Be wId ++ kvEncodeU32Be iId
  | oorder wId dId oId => kvEncodeU32Be wId ++ (kvEncodeU32Be dId ++ kvEncodeU32Be oId)
  | newOrder wId dId oId => kvEncodeU32Be wId ++ (kvEncodeU32Be dId ++ kvEncodeU32Be oId)
  | orderLine wId dId oId olNumber => kvEncodeU32Be wId ++ (kvEncodeU32Be dId ++
      (kvEncodeU32Be oId ++ kvEncodeU32Be olNumber))
  | nextOId wId dId => kvEncodeU32Be wId ++ kvEncodeU32Be dId
  | world id => kvEncodeU32Be id

/-- Every key is the name of its table followed by its components in four or eight bytes each. -/
theorem Key.build_eq (host : Endian) (key : Key) :
    key.build host = literal key.table.ss ++ key.components := by
  cases key with
  | world id => exact worldKey_eq host id
  | _ => simp only [build, kvWarehouseKey, kvDistrictKey, kvCustomerKey, kvCustomerNameKey,
      historyKey, kvItemKey, kvStockKey, kvOorderKey, kvNewOrderKey, kvOrderLineKey, kvNextOIdKey,
      List.append_assoc, table, Table.ss, components]

/-- No table prefix begins another, although several share all but their
last letters. -/
theorem table_prefixes_selfDelimiting : SelfDelimiting (fun table : Table => literal table.ss) := by
  apply SelfDelimiting.of_no_prefix
  intro first second
  cases first <;> cases second <;> decide

/-- Within one table the components end where the longer string says they do. -/
theorem Key.components_split (first second : Key) (tables : first.table = second.table)
    (same : first.components ++ rest = second.components ++ rest') :
    first = second ∧ rest = rest' := by
  have id := kvEncodeU32Be_selfDelimiting
  have pair := id.append id
  have triple := id.append pair
  have name := terminated_selfDelimiting (0 : UInt8)
  cases first <;> cases second <;> cases tables
  case warehouse.warehouse w w' =>
    obtain ⟨rfl, tails⟩ := id w w' _ _ same
    exact ⟨rfl, tails⟩
  case district.district w d w' d' =>
    obtain ⟨ids, tails⟩ := pair (w, d) (w', d') _ _ same
    cases ids
    exact ⟨rfl, tails⟩
  case customer.customer w d c w' d' c' =>
    obtain ⟨ids, tails⟩ := triple (w, d, c) (w', d', c') _ _ same
    cases ids
    exact ⟨rfl, tails⟩
  case customerName.customerName w d last forename c w' d' last' forename' c' =>
    obtain ⟨ids, tails⟩ := (id.append (id.append (name.append (name.append id))))
      (w, d, last, forename, c) (w', d', last', forename', c') _ _ same
    cases ids
    exact ⟨rfl, tails⟩
  case history.history w cw cd c t w' cw' cd' c' t' =>
    obtain ⟨ids, tails⟩ := (id.append (id.append triple)) (w, cw, cd, c, t) (w', cw', cd', c', t')
      _ _ same
    cases ids
    exact ⟨rfl, tails⟩
  case item.item i i' =>
    obtain ⟨rfl, tails⟩ := id i i' _ _ same
    exact ⟨rfl, tails⟩
  case stock.stock w i w' i' =>
    obtain ⟨ids, tails⟩ := pair (w, i) (w', i') _ _ same
    cases ids
    exact ⟨rfl, tails⟩
  case oorder.oorder w d o w' d' o' =>
    obtain ⟨ids, tails⟩ := triple (w, d, o) (w', d', o') _ _ same
    cases ids
    exact ⟨rfl, tails⟩
  case newOrder.newOrder w d o w' d' o' =>
    obtain ⟨ids, tails⟩ := triple (w, d, o) (w', d', o') _ _ same
    cases ids
    exact ⟨rfl, tails⟩
  case orderLine.orderLine w d o n w' d' o' n' =>
    obtain ⟨ids, tails⟩ := (id.append triple) (w, d, o, n) (w', d', o', n') _ _ same
    cases ids
    exact ⟨rfl, tails⟩
  case nextOId.nextOId w d w' d' =>
    obtain ⟨ids, tails⟩ := pair (w, d) (w', d') _ _ same
    cases ids
    exact ⟨rfl, tails⟩
  case world.world i i' =>
    obtain ⟨rfl, tails⟩ := id i i' _ _ same
    exact ⟨rfl, tails⟩

private theorem Key.build_selfDelimiting (host : Endian) : SelfDelimiting (Key.build host) := by
  intro first second rest rest' same
  rw [build_eq, build_eq, List.append_assoc, List.append_assoc] at same
  obtain ⟨tables, behind⟩ := table_prefixes_selfDelimiting first.table second.table _ _ same
  exact components_split first second tables behind

/-- Different rows have different keys, across all tables, although most keys have no marks
between their components. -/
theorem Key.build_injective (host : Endian) (first second : Key)
    (same : first.build host = second.build host) : first = second :=
  (Key.build_selfDelimiting host first second [] [] (by rw [same])).1

/-- **The keyspace is prefix-free.** A key that begins another key comes from the same table
with the same components, for all tables and all builders, so no key can be taken for the
beginning of another. -/
theorem keyspace_prefix_free (host : Endian) (first second : Key)
    (inside : first.build host <+: second.build host) : first = second :=
  (Key.build_selfDelimiting host).eq_of_isPrefix inside

/-- A key is a prefix of itself, which is the only case that the theorem leaves. -/
theorem keyspace_prefix_free_district :
    (Key.district 1 2).build .little <+: (Key.district 1 2).build .little ∧
      Key.district 1 2 = Key.district 1 2 :=
  ⟨List.prefix_refl _, keyspace_prefix_free .little _ _ (List.prefix_refl _)⟩

end H2oTpcc

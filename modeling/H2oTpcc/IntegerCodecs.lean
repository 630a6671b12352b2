import H2oTpcc.Keyspace

/-! The integer codecs of `tpcc_kv.c`. A `uint32_t` and its four bytes determine each
other; the order counter is written as eight bytes, of which only the lower four are read
back, and the upper four repeat its sign. -/
namespace H2oTpcc

/-- `kv_decode_u32_be`. -/
def kvDecodeU32Be (buf : Bytes) : UInt32 :=
  ((buf.getD 0 0).toUInt32 <<< 24) ||| ((buf.getD 1 0).toUInt32 <<< 16) |||
    ((buf.getD 2 0).toUInt32 <<< 8) ||| (buf.getD 3 0).toUInt32

/-! ## Four bytes -/

private theorem toNat_shifted (byte : UInt8) {place : UInt32} (low : place.toNat ≤ 24) :
    (byte.toUInt32 <<< place).toNat = byte.toNat <<< place.toNat := by
  have below : byte.toNat <<< place.toNat < 2 ^ (8 + place.toNat) := by
    rw [Nat.shiftLeft_eq, Nat.pow_add]
    exact Nat.mul_lt_mul_of_pos_right byte.toNat_lt (Nat.two_pow_pos _)
  have fits : 2 ^ (8 + place.toNat) ≤ 2 ^ 32 := Nat.pow_le_pow_right (by decide) (by omega)
  rw [UInt32.toNat_shiftLeft, UInt8.toNat_toUInt32, Nat.mod_eq_of_lt (Nat.lt_of_le_of_lt low (by decide)),
    Nat.mod_eq_of_lt (Nat.lt_of_lt_of_le below fits)]

/-- A byte does not overlap what is shifted past it, so or-ing it adds it. -/
private theorem shifted_or (high : Nat) (byte : UInt8) :
    high <<< 8 ||| byte.toNat = byte.toNat + 256 * high := by
  rw [← Nat.shiftLeft_add_eq_or_of_lt byte.toNat_lt, Nat.shiftLeft_eq]
  omega

private theorem kvDecodeU32Be_toNat (a b c d : UInt8) (rest : Bytes) :
    (kvDecodeU32Be (a :: b :: c :: d :: rest)).toNat = Endian.big.value [a, b, c, d] := by
  have stepwise : a.toNat <<< 24 ||| b.toNat <<< 16 ||| c.toNat <<< 8 ||| d.toNat =
      ((a.toNat <<< 8 ||| b.toNat) <<< 8 ||| c.toNat) <<< 8 ||| d.toNat := by
    simp only [Nat.shiftLeft_or_distrib, ← Nat.shiftLeft_add]
  change ((a.toUInt32 <<< 24) ||| (b.toUInt32 <<< 16) ||| (c.toUInt32 <<< 8) ||| d.toUInt32).toNat = _
  simp only [UInt32.toNat_or]
  rw [toNat_shifted a (by decide), toNat_shifted b (by decide), toNat_shifted c (by decide),
    UInt8.toNat_toUInt32]
  change a.toNat <<< 24 ||| b.toNat <<< 16 ||| c.toNat <<< 8 ||| d.toNat = _
  rw [stepwise, shifted_or, shifted_or, shifted_or]
  rfl

private theorem four_bytes {buf : Bytes} (four : buf.length = 4) : ∃ a b c d, buf = [a, b, c, d] := by
  match buf, four with
  | [a, b, c, d], _ => exact ⟨a, b, c, d, rfl⟩

private theorem kvDecodeU32Be_encode (val : UInt32) (rest : Bytes) :
    kvDecodeU32Be (kvEncodeU32Be val ++ rest) = val := by
  apply UInt32.toNat_inj.mp
  have value := Endian.big.value_bytes 4 val.toNat
  rw [← kvEncodeU32Be_eq, Nat.mod_eq_of_lt (show val.toNat < 256 ^ 4 from val.toNat_lt)] at value
  exact (kvDecodeU32Be_toNat ..).trans value

private theorem kvEncodeU32Be_decode {buf : Bytes} (four : buf.length = 4) :
    kvEncodeU32Be (kvDecodeU32Be buf) = buf := by
  obtain ⟨a, b, c, d, rfl⟩ := four_bytes four
  rw [kvEncodeU32Be_eq, kvDecodeU32Be_toNat]
  exact Endian.big.bytes_value [a, b, c, d]

/-! ## Writing the order counter -/

/-- One byte of the widened counter. -/
private def counterByte (n : Int32) (place : Nat) : UInt8 :=
  UInt8.ofBitVec (BitVec.setWidth 8 ((BitVec.signExtend 64 n.toBitVec).sshiftRight place))

private theorem kvEncodeNextOId_places (n : Int32) :
    kvEncodeNextOId n = [56, 48, 40, 32, 24, 16, 8, 0].map (counterByte n) := by
  have mask (byte : BitVec 8) : byte &&& 255#8 = byte := BitVec.and_allOnes
  simp only [kvEncodeNextOId, List.map, List.cons.injEq, ← UInt8.toBitVec_inj, counterByte]
  simp [mask]

private theorem counterByte_bit (n : Int32) {place j : Nat} (inside : place ≤ 56) (below : j < 8) :
    (counterByte n place).toBitVec.getLsbD j =
      if place + j < 32 then n.toBitVec.getLsbD (place + j) else n.toBitVec.msb := by
  change (BitVec.setWidth 8 ((BitVec.signExtend 64 n.toBitVec).sshiftRight place)).getLsbD j = _
  rw [BitVec.getLsbD_setWidth, BitVec.getLsbD_sshiftRight, BitVec.getLsbD_signExtend]
  simp [below, show ¬ 64 ≤ j by omega, show place + j < 64 by omega]

/-- What the sign of a number fills the bytes above it with. -/
def signByte (n : Int32) : UInt8 := if n.toBitVec.msb then 255 else 0

private theorem counterByte_high (n : Int32) {place : Nat} (inside : place ≤ 56) (high : 32 ≤ place) :
    counterByte n place = signByte n := by
  apply UInt8.toBitVec_inj.mp
  apply BitVec.eq_of_getLsbD_eq
  intro j below
  rw [counterByte_bit n inside below, if_neg (by omega), signByte]
  cases n.toBitVec.msb with
  | false => exact BitVec.getLsbD_zero.symm
  | true => exact (BitVec.getLsbD_allOnes.trans (decide_eq_true below)).symm

private theorem counterByte_low (n : Int32) {place : Nat} (low : place ≤ 24) :
    counterByte n place = UInt8.ofNat (n.toUInt32.toNat / 2 ^ place) := by
  apply UInt8.toBitVec_inj.mp
  apply BitVec.eq_of_getLsbD_eq
  intro j below
  rw [counterByte_bit n (by omega) below, if_pos (by omega)]
  change n.toBitVec.getLsbD (place + j) = (BitVec.ofNat 8 (n.toBitVec.toNat / 2 ^ place)).getLsbD j
  rw [BitVec.getLsbD_ofNat, Nat.testBit_div_two_pow, decide_eq_true below, Bool.true_and, Nat.add_comm]
  rfl

/-- The upper four bytes are the sign, the lower four those of the same bits. -/
theorem kvEncodeNextOId_eq (n : Int32) :
    kvEncodeNextOId n = List.replicate 4 (signByte n) ++ kvEncodeU32Be n.toUInt32 := by
  have upper : [56, 48, 40, 32].map (counterByte n) = List.replicate 4 (signByte n) := by
    refine List.map_eq_replicate_iff.mpr fun place member => ?_
    simp only [List.mem_cons, List.not_mem_nil, or_false] at member
    exact counterByte_high n (by omega) (by omega)
  have lower : [24, 16, 8, 0].map (counterByte n) = kvEncodeU32Be n.toUInt32 := by
    have cut : [24, 16, 8, 0].map (counterByte n) =
        [24, 16, 8, 0].map fun place => UInt8.ofNat (n.toUInt32.toNat / 2 ^ place) := by
      refine List.map_congr_left fun place member => counterByte_low n ?_
      simp only [List.mem_cons, List.not_mem_nil, or_false] at member
      omega
    rw [cut, kvEncodeU32Be_eq]
    simp only [Endian.bytes, leBytes, Nat.div_div_eq_div_mul]
    simp
  rw [kvEncodeNextOId_places, ← upper, ← lower]
  rfl

/-! ## Reading it back -/

private theorem cut_shifted (byte : BitVec 8) (place : Nat) :
    BitVec.signExtend 32 (BitVec.setWidth 64 byte <<< place) = BitVec.setWidth 32 byte <<< place := by
  rw [BitVec.signExtend_eq_setWidth_of_le _ (by decide), BitVec.setWidth_shiftLeft_of_le (by decide),
    BitVec.setWidth_setWidth_of_le _ (by decide)]

/-- Only the lower four of the eight bytes are read back. -/
private theorem kvDecodeNextOId_eq (buf : Bytes) {len : Nat} (announced : 8 ≤ len) :
    kvDecodeNextOId buf len = (kvDecodeU32Be (buf.drop 4)).toInt32 := by
  have later (i : Nat) : (buf.drop 4).getD i 0 = buf.getD (4 + i) 0 := by
    rw [List.getD_eq_getElem?_getD, List.getElem?_drop, ← List.getD_eq_getElem?_getD]
  have gone (byte : BitVec 8) {place : Nat} (high : 32 ≤ place) :
      BitVec.signExtend 32 (BitVec.setWidth 64 byte <<< place) = 0#32 :=
    (cut_shifted byte place).trans (BitVec.shiftLeft_eq_zero high)
  have last (byte : BitVec 8) : BitVec.signExtend 32 (BitVec.setWidth 64 byte) = BitVec.setWidth 32 byte :=
    (BitVec.signExtend_eq_setWidth_of_le _ (by decide)).trans (BitVec.setWidth_setWidth_of_le _ (by decide))
  rw [kvDecodeNextOId, if_neg (by omega), kvDecodeU32Be]
  simp only [later, Nat.add_zero, Nat.reduceAdd]
  apply Int32.toBitVec_inj.mp
  simp [gone, last, cut_shifted]

private theorem kvDecodeNextOId_append (nextOId : Int32) (rest : Bytes) {len : Nat}
    (announced : 8 ≤ len) :
    kvDecodeNextOId (kvEncodeNextOId nextOId ++ rest) len = nextOId := by
  have first : kvDecodeNextOId (kvEncodeNextOId nextOId ++ rest) len =
      kvDecodeNextOId (kvEncodeNextOId nextOId) 8 := by
    rw [kvDecodeNextOId_eq _ announced, kvDecodeNextOId_eq _ (Nat.le_refl 8)]
    rfl
  rw [first, kvDecodeNextOId_encode]

/-! ## Both are inverse -/

/-- The upper four bytes are the sign extension of those that follow. -/
def SignExtended (buf : Bytes) : Prop :=
  buf.take 4 = List.replicate 4 (if 128 ≤ buf.getD 4 0 then 255 else 0)

private theorem signByte_decode (a b c d : UInt8) :
    signByte (kvDecodeU32Be [a, b, c, d]).toInt32 = if 128 ≤ a then 255 else 0 := by
  have value : (kvDecodeU32Be [a, b, c, d]).toBitVec.toNat =
      d.toNat + 256 * (c.toNat + 256 * (b.toNat + 256 * (a.toNat + 256 * 0))) :=
    kvDecodeU32Be_toNat a b c d []
  have sign : (kvDecodeU32Be [a, b, c, d]).toInt32.toBitVec.msb = decide (128 ≤ a) := by
    change (kvDecodeU32Be [a, b, c, d]).toBitVec.msb = _
    rw [BitVec.msb_eq_decide, value, decide_eq_decide, UInt8.le_iff_toNat_le]
    have bounds := And.intro b.toNat_lt (And.intro c.toNat_lt d.toNat_lt)
    change 2 ^ 31 ≤ _ ↔ 128 ≤ a.toNat
    omega
  simp only [signByte, sign, decide_eq_true_eq]

private theorem kvEncodeNextOId_decode_iff {buf : Bytes} (eight : buf.length = 8) {len : Nat}
    (announced : 8 ≤ len) :
    kvEncodeNextOId (kvDecodeNextOId buf len) = buf ↔ SignExtended buf := by
  have four : (buf.drop 4).length = 4 := by rw [List.length_drop, eight]
  obtain ⟨a, b, c, d, lower⟩ := four_bytes four
  have first : buf.getD 4 0 = a := by
    have here := congrArg (List.getD · 0 0) lower
    rwa [List.getD_eq_getElem?_getD, List.getElem?_drop, ← List.getD_eq_getElem?_getD] at here
  have whole := List.take_append_drop 4 buf
  rw [kvDecodeNextOId_eq _ announced, kvEncodeNextOId_eq, UInt32.toUInt32_toInt32, lower, signByte_decode,
    kvEncodeU32Be_decode rfl, SignExtended, first]
  rw [lower] at whole
  constructor
  · intro same
    exact List.append_cancel_right (whole.trans same.symm)
  · intro extended
    rw [← extended, whole]

/-- **Integer codecs are inverse**, negative counters included; eight bytes are written
back as they were exactly when their upper half is the sign extension of the lower. -/
theorem integer_codecs_inverse (len : Nat) (announced : 8 ≤ len) :
    (∀ n rest, kvDecodeNextOId (kvEncodeNextOId n ++ rest) len = n) ∧
    (∀ buf : Bytes, buf.length = 8 →
      (kvEncodeNextOId (kvDecodeNextOId buf len) = buf ↔ SignExtended buf)) ∧
    (∀ val rest, kvDecodeU32Be (kvEncodeU32Be val ++ rest) = val) ∧
    ∀ buf : Bytes, buf.length = 4 → kvEncodeU32Be (kvDecodeU32Be buf) = buf :=
  ⟨fun n rest => kvDecodeNextOId_append n rest announced,
    fun _ eight => kvEncodeNextOId_decode_iff eight announced, kvDecodeU32Be_encode,
    fun _ four => kvEncodeU32Be_decode four⟩

/-- A negative counter comes back; bytes whose upper half is no sign extension do not. -/
theorem integer_codecs_inverse_negative :
    kvDecodeNextOId (kvEncodeNextOId (-2)) 8 = -2 ∧
      kvEncodeNextOId (kvDecodeNextOId [0, 0, 0, 0, 255, 255, 255, 254] 8) ≠
        [0, 0, 0, 0, 255, 255, 255, 254] ∧
      kvEncodeU32Be (kvDecodeU32Be [255, 0, 128, 1]) = [255, 0, 128, 1] := by
  obtain ⟨decode, encode, -, four⟩ := integer_codecs_inverse 8 (Nat.le_refl 8)
  refine ⟨decode (-2) [], ?_, four [255, 0, 128, 1] rfl⟩
  rw [ne_eq, encode _ rfl]
  unfold SignExtended
  decide

end H2oTpcc

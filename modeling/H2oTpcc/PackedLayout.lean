import Mathlib.Data.Nat.Basic
import Mathlib.Tactic.Ring

/-! Packed records: the bytes of fixed-width integers in either byte order,
and readers that take a record apart field by field. A reader never fails; a
caller that needs all the bytes checks the length first, as code that casts a
buffer to a packed struct does. -/
namespace H2oTpcc

abbrev Bytes := List UInt8

inductive Endian where
  | little
  | big
  deriving DecidableEq, Repr

/-- The low `width` bytes of a number, least significant first. -/
def leBytes : Nat → Nat → Bytes
  | 0, _ => []
  | width + 1, value => UInt8.ofNat value :: leBytes width (value / 256)

def leValue : Bytes → Nat
  | [] => 0
  | byte :: rest => byte.toNat + 256 * leValue rest

@[simp] theorem leBytes_length (width value : Nat) : (leBytes width value).length = width := by
  induction width generalizing value with
  | zero => rfl
  | succ width ih => simp [leBytes, ih]

/-- A number comes back from its bytes, modulo what the width can hold. -/
theorem leValue_leBytes (width value : Nat) : leValue (leBytes width value) = value % 256 ^ width := by
  induction width generalizing value with
  | zero => simp [leBytes, leValue, Nat.mod_one]
  | succ width ih =>
    have low : (UInt8.ofNat value).toNat = value % 256 := by simp
    rw [leBytes, leValue, ih, low, Nat.pow_succ, Nat.mul_comm (256 ^ width) 256, Nat.mod_mul]

theorem leBytes_leValue (bytes : Bytes) : leBytes bytes.length (leValue bytes) = bytes := by
  induction bytes with
  | nil => rfl
  | cons byte rest ih =>
    have bound := byte.toNat_lt
    have high : (byte.toNat + 256 * leValue rest) / 256 = leValue rest := by omega
    have low : UInt8.ofNat (byte.toNat + 256 * leValue rest) = byte := by
      apply UInt8.toNat_inj.mp
      simp only [UInt8.toNat_ofNat']
      omega
    simp only [List.length_cons, leValue, leBytes, high, low, ih]

theorem leValue_lt (bytes : Bytes) : leValue bytes < 256 ^ bytes.length := by
  induction bytes with
  | nil => simp [leValue]
  | cons byte rest ih =>
    have bound := byte.toNat_lt
    rw [leValue, List.length_cons, Nat.pow_succ]
    omega

namespace Endian

/-- How a machine of this byte order lays out a `width`-byte integer. -/
def bytes (order : Endian) (width value : Nat) : Bytes :=
  match order with
  | little => leBytes width value
  | big => (leBytes width value).reverse

def value (order : Endian) (bytes : Bytes) : Nat :=
  match order with
  | little => leValue bytes
  | big => leValue bytes.reverse

@[simp] theorem bytes_length (order : Endian) (width value : Nat) :
    (order.bytes width value).length = width := by
  cases order <;> simp [bytes]

/-- The same in either byte order: a number comes back modulo what the width can hold. -/
theorem value_bytes (order : Endian) (width value : Nat) :
    order.value (order.bytes width value) = value % 256 ^ width := by
  cases order <;> simp [bytes, Endian.value, leValue_leBytes]

theorem bytes_value (order : Endian) (bytes : Bytes) :
    order.bytes bytes.length (order.value bytes) = bytes := by
  cases order with
  | little => exact leBytes_leValue bytes
  | big =>
    have reversed := leBytes_leValue bytes.reverse
    rw [List.length_reverse] at reversed
    simp [Endian.bytes, Endian.value, reversed]

theorem value_lt (order : Endian) (bytes : Bytes) : order.value bytes < 256 ^ bytes.length := by
  cases order with
  | little => exact leValue_lt bytes
  | big => simpa [Endian.value] using leValue_lt bytes.reverse

/-- Two numbers that fit the width and have the same bytes are equal. -/
theorem bytes_injective (order : Endian) {a b : Nat} (fitsA : a < 256 ^ width)
    (fitsB : b < 256 ^ width) (same : order.bytes width a = order.bytes width b) : a = b := by
  have values := congrArg order.value same
  rwa [value_bytes, value_bytes, Nat.mod_eq_of_lt fitsA, Nat.mod_eq_of_lt fitsB] at values

end Endian

/-! ## Readers -/

/-- Consumes bytes from the front of a buffer. -/
def Reader (α : Type) := Bytes → α × Bytes

namespace Reader

def run (reader : Reader α) (buffer : Bytes) : α × Bytes := reader buffer

instance : Monad Reader where
  pure a := fun buffer => (a, buffer)
  bind reader next := fun buffer => (next (reader.run buffer).1).run (reader.run buffer).2

@[simp] theorem run_pure (a : α) (buffer : Bytes) :
    (pure a : Reader α).run buffer = (a, buffer) := rfl

@[simp] theorem run_bind (reader : Reader α) (next : α → Reader γ) (buffer : Bytes) :
    (reader >>= next).run buffer = (next (reader.run buffer).1).run (reader.run buffer).2 := rfl

end Reader

/-- A `char name[width]` field. -/
abbrev Chars (width : Nat) := Vector UInt8 width

def Chars.zero (width : Nat) : Chars width := Vector.replicate width 0

def readChars (width : Nat) : Reader (Chars width) :=
  fun buffer => (Vector.ofFn fun i => buffer.getD i 0, buffer.drop width)

@[simp] theorem readChars_run (field : Chars width) (rest : Bytes) :
    (readChars width).run (field.toList ++ rest) = (field, rest) := by
  have width_eq : field.toList.length = width := by simp
  refine Prod.ext ?_ (List.drop_left' width_eq)
  apply Vector.ext
  intro i inside
  simp [readChars, Reader.run, List.getElem?_append_left]

def readNat (order : Endian) (width : Nat) : Reader Nat :=
  fun buffer => (order.value (buffer.take width), buffer.drop width)

/-- Reading a field takes its bytes off the front and leaves the rest. -/
theorem readNat_run (order : Endian) (fits : value < 256 ^ width) (rest : Bytes) :
    (readNat order width).run (order.bytes width value ++ rest) = (value, rest) := by
  have width_eq : (order.bytes width value).length = width := order.bytes_length width value
  refine Prod.ext ?_ (List.drop_left' width_eq)
  change order.value ((order.bytes width value ++ rest).take width) = value
  rw [List.take_left' width_eq, Endian.value_bytes, Nat.mod_eq_of_lt fits]

/-! ## C integer fields -/

def uint32Bytes (order : Endian) (field : UInt32) : Bytes := order.bytes 4 field.toNat
def int16Bytes (order : Endian) (field : Int16) : Bytes := order.bytes 2 field.toUInt16.toNat
def int32Bytes (order : Endian) (field : Int32) : Bytes := order.bytes 4 field.toUInt32.toNat
def int64Bytes (order : Endian) (field : Int64) : Bytes := order.bytes 8 field.toUInt64.toNat

def readUInt32 (order : Endian) : Reader UInt32 :=
  do return UInt32.ofNat (← readNat order 4)
def readInt16 (order : Endian) : Reader Int16 :=
  do return (UInt16.ofNat (← readNat order 2)).toInt16
def readInt32 (order : Endian) : Reader Int32 :=
  do return (UInt32.ofNat (← readNat order 4)).toInt32
def readInt64 (order : Endian) : Reader Int64 :=
  do return (UInt64.ofNat (← readNat order 8)).toInt64

section Fields
variable (order : Endian) (rest : Bytes)

@[simp] theorem uint32Bytes_length (field : UInt32) : (uint32Bytes order field).length = 4 :=
  order.bytes_length 4 _
@[simp] theorem int16Bytes_length (field : Int16) : (int16Bytes order field).length = 2 :=
  order.bytes_length 2 _
@[simp] theorem int32Bytes_length (field : Int32) : (int32Bytes order field).length = 4 :=
  order.bytes_length 4 _
@[simp] theorem int64Bytes_length (field : Int64) : (int64Bytes order field).length = 8 :=
  order.bytes_length 8 _

@[simp] theorem readUInt32_run (field : UInt32) :
    (readUInt32 order).run (uint32Bytes order field ++ rest) = (field, rest) := by
  have fits : field.toNat < 256 ^ 4 := field.toNat_lt
  simp only [readUInt32, uint32Bytes, Reader.run_bind, readNat_run order fits, Reader.run_pure,
    UInt32.ofNat_toNat]

@[simp] theorem readInt16_run (field : Int16) :
    (readInt16 order).run (int16Bytes order field ++ rest) = (field, rest) := by
  have fits : field.toUInt16.toNat < 256 ^ 2 := field.toUInt16.toNat_lt
  simp only [readInt16, int16Bytes, Reader.run_bind, readNat_run order fits, Reader.run_pure,
    UInt16.ofNat_toNat, Int16.toInt16_toUInt16]

@[simp] theorem readInt32_run (field : Int32) :
    (readInt32 order).run (int32Bytes order field ++ rest) = (field, rest) := by
  have fits : field.toUInt32.toNat < 256 ^ 4 := field.toUInt32.toNat_lt
  simp only [readInt32, int32Bytes, Reader.run_bind, readNat_run order fits, Reader.run_pure,
    UInt32.ofNat_toNat, Int32.toInt32_toUInt32]

@[simp] theorem readInt64_run (field : Int64) :
    (readInt64 order).run (int64Bytes order field ++ rest) = (field, rest) := by
  have fits : field.toUInt64.toNat < 256 ^ 8 := field.toUInt64.toNat_lt
  simp only [readInt64, int64Bytes, Reader.run_bind, readNat_run order fits, Reader.run_pure,
    UInt64.ofNat_toNat, Int64.toInt64_toUInt64]

end Fields

end H2oTpcc

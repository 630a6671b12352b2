import H2oTpcc.PackedLayout

/-! A packed record as the list of its fields, one behind the other without padding.
The same record laid out in two byte orders has the same bytes only where its integers
read the same from both ends; and that is also when a reader of the other order finds
the integers that were written. -/
namespace H2oTpcc

inductive Field where
  | chars (text : Bytes)
  | int (width value : Nat)
  deriving DecidableEq

namespace Field

def uint32 (field : UInt32) : Field := .int 4 field.toNat
def int16 (field : Int16) : Field := .int 2 field.toUInt16.toNat
def int32 (field : Int32) : Field := .int 4 field.toUInt32.toNat
def int64 (field : Int64) : Field := .int 8 field.toUInt64.toNat

def size : Field → Nat
  | chars text => text.length
  | int width _ => width

def bytes (order : Endian) : Field → Bytes
  | chars text => text
  | int width value => order.bytes width value

@[simp] theorem bytes_length (order : Endian) (field : Field) :
    (field.bytes order).length = field.size := by
  cases field with
  | chars text => rfl
  | int width value => exact order.bytes_length width value

@[simp] theorem bytes_chars (order : Endian) (text : Bytes) : (chars text).bytes order = text := rfl

@[simp] theorem bytes_uint32 (order : Endian) (field : UInt32) :
    (uint32 field).bytes order = uint32Bytes order field := rfl

@[simp] theorem bytes_int16 (order : Endian) (field : Int16) :
    (int16 field).bytes order = int16Bytes order field := rfl

@[simp] theorem bytes_int32 (order : Endian) (field : Int32) :
    (int32 field).bytes order = int32Bytes order field := rfl

@[simp] theorem bytes_int64 (order : Endian) (field : Int64) :
    (int64 field).bytes order = int64Bytes order field := rfl

/-- The field lies in memory in the same way in both byte orders. -/
def Symmetric (field : Field) : Prop := field.bytes .little = field.bytes .big

instance Symmetric.decidable (field : Field) : Decidable field.Symmetric :=
  inferInstanceAs (Decidable (field.bytes .little = field.bytes .big))

private theorem bytes_eq_iff (order order' : Endian) (field : Field) :
    field.bytes order = field.bytes order' ↔ order = order' ∨ field.Symmetric := by
  cases order <;> cases order' <;> simp [Symmetric, eq_comm]

/-- A row means the same on both kinds of machine only if the machines agree or every field
reads the same from both ends. -/
theorem all_bytes_eq_iff (order order' : Endian) (fields : List Field) :
    (∀ field ∈ fields, field.bytes order = field.bytes order') ↔
      order = order' ∨ ∀ field ∈ fields, field.Symmetric := by
  by_cases same : order = order'
  · simp [same]
  · simp [bytes_eq_iff, same]

end Field

/-! ## Records -/

/-- The bytes of a packed record. -/
def layout (order : Endian) (fields : List Field) : Bytes := fields.flatMap (Field.bytes order)

/-- The offset behind these fields. -/
def extent (fields : List Field) : Nat := (fields.map Field.size).sum

@[simp] theorem layout_nil (order : Endian) : layout order [] = [] := rfl

@[simp] theorem layout_cons (order : Endian) (field : Field) (fields : List Field) :
    layout order (field :: fields) = field.bytes order ++ layout order fields := List.flatMap_cons

@[simp] theorem layout_append (order : Endian) (first second : List Field) :
    layout order (first ++ second) = layout order first ++ layout order second := List.flatMap_append

@[simp] theorem layout_length (order : Endian) (fields : List Field) :
    (layout order fields).length = extent fields := by
  induction fields with
  | nil => rfl
  | cons field fields ih => simp [extent, ih]

/-- Every field of the record stands at its offset, in this byte order. -/
def PlacedIn (order : Endian) (buffer : Bytes) (fields : List Field) : Prop :=
  ∀ before field after, fields = before ++ field :: after →
    (buffer.drop (extent before)).take field.size = field.bytes order

/-- A field is found at its offset: after the extents of the fields before it, and as long as
its size. -/
theorem layout_slice (order : Endian) (before : List Field) (field : Field) (after : List Field) :
    ((layout order (before ++ field :: after)).drop (extent before)).take field.size =
      field.bytes order := by
  rw [layout_append, List.drop_left' (layout_length order before), layout_cons,
    List.take_left' (field.bytes_length order)]

/-- A record laid out in one order stands there in the other exactly if each of its
fields has the same bytes in both. -/
theorem layout_placedIn_iff (order order' : Endian) (fields : List Field) :
    PlacedIn order' (layout order fields) fields ↔
      ∀ field ∈ fields, field.bytes order = field.bytes order' := by
  constructor
  · intro placed field member
    obtain ⟨before, after, rfl⟩ := List.append_of_mem member
    rw [← placed before field after rfl, layout_slice]
  · rintro same before field after rfl
    rw [layout_slice]
    exact same field (List.mem_append_right before List.mem_cons_self)

/-! ## Reading in another byte order -/

section Other
variable (order order' : Endian) (rest : Bytes)

private theorem readNat_other (width value : Nat) :
    (readNat order' width).run (order.bytes width value ++ rest) =
      (order'.value (order.bytes width value), rest) := by
  have width_eq : (order.bytes width value).length = width := order.bytes_length width value
  refine Prod.ext ?_ (List.drop_left' width_eq)
  change order'.value ((order.bytes width value ++ rest).take width) = _
  rw [List.take_left' width_eq]

/-- A number is found again by the other order exactly if it has the same bytes in both. -/
theorem value_other_iff {width value : Nat} (fits : value < 256 ^ width) :
    order'.value (order.bytes width value) = value ↔
      order.bytes width value = order'.bytes width value := by
  constructor
  · intro found
    have back := order'.bytes_value (order.bytes width value)
    rw [found, Endian.bytes_length] at back
    exact back.symm
  · intro same
    rw [same, Endian.value_bytes, Nat.mod_eq_of_lt fits]

private theorem value_other_lt (width value : Nat) :
    order'.value (order.bytes width value) < 256 ^ width := by
  have bound := order'.value_lt (order.bytes width value)
  rwa [Endian.bytes_length] at bound

/-- Reading a field that a machine of either byte order has written. The value is that of the
same bytes in the reader's order. -/
theorem readUInt32_other (field : UInt32) :
    (readUInt32 order').run (uint32Bytes order field ++ rest) =
      (UInt32.ofNat (order'.value (uint32Bytes order field)), rest) := by
  simp only [readUInt32, uint32Bytes, Reader.run_bind, readNat_other, Reader.run_pure]

theorem readInt16_other (field : Int16) :
    (readInt16 order').run (int16Bytes order field ++ rest) =
      (Int16.ofNat (order'.value (int16Bytes order field)), rest) := by
  simp [readInt16, int16Bytes, readNat_other]

theorem readInt32_other (field : Int32) :
    (readInt32 order').run (int32Bytes order field ++ rest) =
      (Int32.ofNat (order'.value (int32Bytes order field)), rest) := by
  simp [readInt32, int32Bytes, readNat_other]

theorem readInt64_other (field : Int64) :
    (readInt64 order').run (int64Bytes order field ++ rest) =
      (Int64.ofNat (order'.value (int64Bytes order field)), rest) := by
  simp [readInt64, int64Bytes, readNat_other]

/-- What was written is read back exactly if both orders give the same bytes, so on machines
that differ only for values that are the same from both ends. -/
theorem uint32_other_iff (field : UInt32) :
    UInt32.ofNat (order'.value (uint32Bytes order field)) = field ↔
      uint32Bytes order field = uint32Bytes order' field := by
  have fits := value_other_lt order order' 4 field.toNat
  rw [uint32Bytes, uint32Bytes, ← value_other_iff order order' field.toNat_lt, ← UInt32.toNat_inj,
    UInt32.toNat_ofNat_of_lt' fits]

theorem int16_other_iff (field : Int16) :
    Int16.ofNat (order'.value (int16Bytes order field)) = field ↔
      int16Bytes order field = int16Bytes order' field := by
  have fits := value_other_lt order order' 2 field.toUInt16.toNat
  have signed (word : UInt16) : word.toInt16 = field ↔ word = field.toUInt16 :=
    ⟨fun same => by rw [← same, UInt16.toUInt16_toInt16], fun same => by rw [same, Int16.toInt16_toUInt16]⟩
  rw [← UInt16.toInt16_ofNat', signed, int16Bytes, int16Bytes,
    ← value_other_iff order order' field.toUInt16.toNat_lt,
    ← UInt16.toNat_inj, UInt16.toNat_ofNat_of_lt' fits]

theorem int32_other_iff (field : Int32) :
    Int32.ofNat (order'.value (int32Bytes order field)) = field ↔
      int32Bytes order field = int32Bytes order' field := by
  have signed (word : UInt32) : word.toInt32 = field ↔ word = field.toUInt32 :=
    ⟨fun same => by rw [← same, UInt32.toUInt32_toInt32], fun same => by rw [same, Int32.toInt32_toUInt32]⟩
  rw [← UInt32.toInt32_ofNat', signed]
  exact uint32_other_iff order order' field.toUInt32

theorem int64_other_iff (field : Int64) :
    Int64.ofNat (order'.value (int64Bytes order field)) = field ↔
      int64Bytes order field = int64Bytes order' field := by
  have fits := value_other_lt order order' 8 field.toUInt64.toNat
  have signed (word : UInt64) : word.toInt64 = field ↔ word = field.toUInt64 :=
    ⟨fun same => by rw [← same, UInt64.toUInt64_toInt64], fun same => by rw [same, Int64.toInt64_toUInt64]⟩
  rw [← UInt64.toInt64_ofNat', signed, int64Bytes, int64Bytes,
    ← value_other_iff order order' field.toUInt64.toNat_lt,
    ← UInt64.toNat_inj, UInt64.toNat_ofNat_of_lt' fits]

end Other

end H2oTpcc

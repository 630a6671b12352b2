import H2oTpcc.Keyspace
import H2oTpcc.OptimisticStore
import H2oTpcc.Rows

/-! The store seen as tables: what lies under each key of the keyspace. Since the
keyspace is prefix-free, sets under different keys never meet, and a buffer of
sets can be looked up by key components instead of bytes. -/
namespace H2oTpcc

/-- A view of the store, by key components. -/
def tablesOf (host : Endian) (view : Bytes → Option Bytes) (key : Key) : Option Bytes :=
  view (key.build host)

def tables (host : Endian) (store : Store Bytes Bytes) : Key → Option Bytes :=
  tablesOf host fun key => store[key]?

section Rows
variable (host : Endian) (tables : Key → Option Bytes)

def warehouseRow (w : UInt32) : Option WarehouseVal := asRow host (tables (.warehouse w))

def districtRow (w d : UInt32) : Option DistrictVal := asRow host (tables (.district w d))

def customerRow (w d c : UInt32) : Option CustomerVal := asRow host (tables (.customer w d c))

end Rows

/-- The sets of these rows as the handlers buffer them. -/
def built (host : Endian) (rows : List (Key × Bytes)) : List (Bytes × Bytes) :=
  rows.map fun row => (row.1.build host, row.2)

@[simp] theorem built_nil (host : Endian) : built host [] = [] := rfl

@[simp] theorem built_cons (host : Endian) (row : Key × Bytes) (rows : List (Key × Bytes)) :
    built host (row :: rows) = (row.1.build host, row.2) :: built host rows := rfl

@[simp] theorem built_append (host : Endian) (first second : List (Key × Bytes)) :
    built host (first ++ second) = built host first ++ built host second := List.map_append

/-- A row is among the writes exactly if it was built into them, since different rows have
different keys. -/
theorem mem_built {host : Endian} {rows : List (Key × Bytes)} {key : Key} {value : Bytes} :
    (key.build host, value) ∈ built host rows ↔ (key, value) ∈ rows := by
  constructor
  · intro member
    obtain ⟨row, inside, same⟩ := List.mem_map.mp member
    obtain ⟨keys, values⟩ := Prod.mk.inj same
    rwa [← Key.build_injective host _ _ keys, ← values]
  · exact fun member => List.mem_map.mpr ⟨_, member, rfl⟩

/-- The tables after some writes: a row that is among them has the last value written, any other
the one it had. -/
theorem tables_applyWrites (host : Endian) (store : Store Bytes Bytes) (rows : List (Key × Bytes))
    (key : Key) : tables host (applyWrites store (built host rows)) key =
      (lastWrite rows key).or (tables host store key) := by
  unfold tables tablesOf built
  beta_reduce
  rw [applyWrites_get, lastWrite_map (Key.build_injective host)]

/-- A store that holds these rows and nothing else, which is how the small stores are made. -/
theorem tables_only (host : Endian) (rows : List (Key × Bytes)) (key : Key) :
    tables host (applyWrites ∅ (built host rows)) key = lastWrite rows key := by
  rw [tables_applyWrites]
  simp [tables, tablesOf]

end H2oTpcc

import H2oTpcc.Random
import H2oTpcc.Tables

/-! The data loader, `tpcc_loader.c`. It sets items, warehouses, districts with
their order counters, and the World table; `load_customer_and_orders` is a stub, so
customers and stock are whatever the store already held. -/
namespace H2oTpcc

/-- `snprintf` into a zeroed character field: cut to leave room for the terminator. -/
def snprintf (width : Nat) (text : String) : Chars width :=
  Vector.ofFn fun i => if i + 1 < width then (literal text).getD i 0 else 0

/-- `memcpy` of a literal into a field of its length. -/
def memcpy (width : Nat) (text : String) : Chars width :=
  Vector.ofFn fun i => (literal text).getD i 0

/-- `%u`. -/
def decimal (n : UInt32) : String := toString n.toNat

/-- `%03u`. -/
def decimal03 (n : UInt32) : String := "".pushn '0' (3 - (decimal n).length) ++ decimal n

/-- A loop that draws, and collects what its iterations set. -/
def Draw.each (step : α → Draw (List β)) : List α → Draw (List β)
  | [] => pure []
  | a :: rest => do
    let first ← step a
    let others ← each step rest
    return first ++ others

/-- Every row that a loop makes comes from one of its iterations, with the generator as that
iteration found it. -/
theorem Draw.mem_each {step : α → Draw (List β)} {loop : List α} {generator : Generator} {b : β}
    (member : b ∈ (each step loop).value generator) :
    ∃ a ∈ loop, ∃ generator, b ∈ (step a).value generator := by
  induction loop generalizing generator with
  | nil => cases member
  | cons a rest ih =>
    simp only [each, value_bind, value_pure, List.mem_append] at member
    rcases member with first | others
    · exact ⟨a, List.mem_cons_self, generator, first⟩
    · obtain ⟨a', inside, found⟩ := ih others
      exact ⟨a', List.mem_cons_of_mem _ inside, found⟩

/-- Every iteration of a loop adds its rows, drawn from the generator that it finds. -/
theorem Draw.each_mem (step : α → Draw (List β)) {loop : List α} {a : α} (inside : a ∈ loop)
    (generator : Generator) :
    ∃ generator', ∀ b ∈ (step a).value generator', b ∈ (each step loop).value generator := by
  induction loop generalizing generator with
  | nil => cases inside
  | cons a' rest ih =>
    simp only [each, value_bind, value_pure, List.mem_append]
    rcases List.mem_cons.mp inside with rfl | later
    · exact ⟨generator, fun b member => .inl member⟩
    · obtain ⟨generator', found⟩ := ih later _
      exact ⟨generator', fun b member => .inr (found b member)⟩

/-- `for (i = 1; i <= count; i++)` over `uint32_t`. -/
def oneTo (count : Nat) : List UInt32 := (List.range count).map fun i => UInt32.ofNat (i + 1)

section Load
variable (P : Platform)

/-- One iteration of `load_items`. -/
def loadItem (i : UInt32) : Draw (List (Key × Bytes)) := do
  let price ← rem P (← randR P) 9900
  let imId ← rem P (← randR P) 10000
  let tenth ← rem P (← randR P) 10
  let row : ItemVal := {
    iName := snprintf 24 ("Item-" ++ decimal i)
    iPrice := 100 + price.toInt32
    iImId := 1 + imId.toInt32
    iData := if tenth = 0 then snprintf 50 ("ORIGINAL_ITEM_DATA_" ++ decimal i)
      else snprintf 50 ("item_data_" ++ decimal i) }
  return [(.item i, encode P.host row)]

/-- One iteration of `load_warehouse`. -/
def loadWarehouse (w : UInt32) : Draw (List (Key × Bytes)) := do
  let tax ← rem P (← randR P) 2000
  let row : WarehouseVal := {
    (PackedRow.zero : WarehouseVal) with
    wName := snprintf 10 ("Whse-" ++ decimal w)
    wStreet1 := snprintf 20 (decimal w ++ " Main St")
    wCity := snprintf 20 ("City-" ++ decimal w)
    wState := memcpy 2 "CA"
    wZip := snprintf 9 ("94000" ++ decimal03 w)
    wTax := tax.toInt32
    wYtd := 300000 * 100 }
  return [(.warehouse w, encode P.host row)]

/-- One iteration of the inner loop of `load_districts_and_next_o_id`. -/
def loadDistrict (w d : UInt32) : Draw (List (Key × Bytes)) := do
  let tax ← rem P (← randR P) 2000
  let row : DistrictVal := {
    (PackedRow.zero : DistrictVal) with
    dName := snprintf 10 ("Dist-" ++ decimal w ++ "-" ++ decimal d)
    dStreet1 := snprintf 20 (decimal w ++ "-" ++ decimal d ++ " St")
    dCity := snprintf 20 ("City-" ++ decimal w)
    dState := memcpy 2 "CA"
    dZip := snprintf 9 ("94000" ++ decimal03 w)
    dTax := tax.toInt32
    dYtd := 30000 * 100
    dNextOId := 3001 }
  return [(.district w d, encode P.host row), (.nextOId w d, kvEncodeNextOId 3001)]

/-- One iteration of `load_world_table`. -/
def loadWorld (i : UInt32) : Draw (List (Key × Bytes)) := do
  let rn ← rem P (← randR P) 10000
  return [(.world i, uint32Bytes P.host (htonl P.host rn))]

/-- `load_world_table` without failures: the store it leaves of the store `before`. -/
def loadWorldTable (generator : Generator) (before : Store Bytes Bytes) : Store Bytes Bytes :=
  applyWrites before (built P.host ((Draw.each (loadWorld P) (oneTo 10000)).value generator))

/-- Everything the loader sets, in order, for these ids. -/
def loadIds (items warehouses districts worlds : List UInt32) : Draw (List (Key × Bytes)) := do
  let itemRows ← Draw.each (loadItem P) items
  let warehouseRows ← Draw.each (loadWarehouse P) warehouses
  let districtRows ← Draw.each (fun w => Draw.each (loadDistrict P w) districts) warehouses
  let worldRows ← Draw.each (loadWorld P) worlds
  return itemRows ++ warehouseRows ++ districtRows ++ worldRows

/-- The load of `W` warehouses. -/
def loadWarehouses (W : Nat) : Draw (List (Key × Bytes)) :=
  loadIds P (oneTo itemCount.toNat) (oneTo W) (oneTo districtsPerWarehouse.toNat) (oneTo 10000)

/-- The rows of a whole load; the seed is 42. -/
def loaderRows (W : Nat) : List (Key × Bytes) := (loadWarehouses P W).value { seed := 42 }

/-- The store that a load without failures leaves of the store `before`. -/
def loaded (W : Nat) (before : Store Bytes Bytes) : Store Bytes Bytes :=
  applyWrites before (built P.host (loaderRows P W))

/-- Before the load there were at most rows of the tables it leaves out. -/
def Unloaded (before : Store Bytes Bytes) : Prop :=
  ∀ key : Key, key.table ∉ [Table.customer, .customerName, .stock] → tables P.host before key = none

/-! ## What the loaded store holds -/

variable {P}

/-- The rows of a load, table by table: items, World rows, warehouses, and for each district the
row and its counter. -/
theorem loadIds_cases {items warehouses districts worlds : List UInt32} {row : Key × Bytes}
    (member : row ∈ (loadIds P items warehouses districts worlds).value generator) :
    (∃ i, row.1 = .item i ∧ ∃ iv : ItemVal, row.2 = encode P.host iv) ∨ (∃ i, row.1 = .world i) ∨
    (∃ w ∈ warehouses, row.1 = .warehouse w ∧ ∃ wv : WarehouseVal, row.2 = encode P.host wv ∧
      wv.wYtd = 30000000) ∨
    (∃ w ∈ warehouses, ∃ d ∈ districts, row.1 = .district w d ∧ ∃ dv : DistrictVal,
      row.2 = encode P.host dv ∧ dv.dYtd = 3000000 ∧ dv.dNextOId = 3001) ∨
    (∃ w ∈ warehouses, ∃ d ∈ districts, row.1 = .nextOId w d ∧ row.2 = kvEncodeNextOId 3001) := by
  simp only [loadIds, Draw.value_bind, Draw.value_pure, List.mem_append] at member
  rcases member with ((item | warehouse) | district) | world
  · obtain ⟨i, _, _, found⟩ := Draw.mem_each item
    simp only [loadItem, Draw.value_bind, Draw.value_pure, List.mem_singleton] at found
    exact .inl ⟨i, by rw [found], _, by rw [found]⟩
  · obtain ⟨w, inside, _, found⟩ := Draw.mem_each warehouse
    simp only [loadWarehouse, Draw.value_bind, Draw.value_pure, List.mem_singleton] at found
    exact .inr (.inr (.inl ⟨w, inside, by rw [found], _, by rw [found], rfl⟩))
  · obtain ⟨w, inside, _, inner⟩ := Draw.mem_each district
    obtain ⟨d, within, _, found⟩ := Draw.mem_each inner
    simp only [loadDistrict, Draw.value_bind, Draw.value_pure, List.mem_cons, List.not_mem_nil, or_false]
      at found
    rcases found with rfl | rfl
    · exact .inr (.inr (.inr (.inl ⟨w, inside, d, within, rfl, _, rfl, rfl, rfl⟩)))
    · exact .inr (.inr (.inr (.inr ⟨w, inside, d, within, rfl, rfl⟩)))
  · obtain ⟨i, _, _, found⟩ := Draw.mem_each world
    simp only [loadWorld, Draw.value_bind, Draw.value_pure, List.mem_singleton] at found
    exact .inr (.inl ⟨i, by rw [found]⟩)

/-- The load sets a row for every warehouse, and for each of its districts the row and the copy
of its order counter. -/
theorem loadIds_sets {items warehouses districts worlds : List UInt32} (generator : Generator)
    {w : UInt32} (inside : w ∈ warehouses) :
    (∃ row ∈ (loadIds P items warehouses districts worlds).value generator, row.1 = .warehouse w) ∧
    ∀ d ∈ districts,
      (∃ row ∈ (loadIds P items warehouses districts worlds).value generator, row.1 = .district w d) ∧
      (∃ row ∈ (loadIds P items warehouses districts worlds).value generator, row.1 = .nextOId w d) := by
  simp only [loadIds, Draw.value_bind, Draw.value_pure, List.mem_append]
  constructor
  · obtain ⟨generator', found⟩ := Draw.each_mem (loadWarehouse P) inside _
    exact ⟨_, .inl (.inl (.inr (found _ (List.mem_singleton.mpr rfl)))), rfl⟩
  · intro d within
    obtain ⟨outer, found⟩ := Draw.each_mem
      (fun w => Draw.each (loadDistrict P w) districts) inside _
    obtain ⟨inner, set⟩ := Draw.each_mem (loadDistrict P w) within outer
    exact ⟨⟨_, .inl (.inr (found _ (set _ List.mem_cons_self))), rfl⟩,
      ⟨_, .inl (.inr (found _ (set _ (List.mem_cons_of_mem _ List.mem_cons_self)))), rfl⟩⟩

variable {W : Nat} (before : Store Bytes Bytes)

/-- Every warehouse of the load starts with the same total, 300,000.00. -/
theorem loaded_warehouse (inside : w ∈ oneTo W) :
    ∃ wv, warehouseRow P.host (tables P.host (loaded P W before)) w = some wv ∧ wv.wYtd = 30000000 := by
  obtain ⟨value, found, wv, rfl, ytd⟩ := lastWrite_of_mem
    (Q := fun value => ∃ wv : WarehouseVal, value = encode P.host wv ∧ wv.wYtd = 30000000)
    (loadIds_sets _ inside).1 (fun row member same => by
      rcases loadIds_cases member with ⟨_, key, _⟩ | ⟨_, key⟩ | ⟨_, _, key, found⟩ | ⟨_, _, _, _, key, _⟩ |
        ⟨_, _, _, _, key, _⟩ <;> rw [same] at key <;> cases key
      exact found)
  refine ⟨wv, ?_, ytd⟩
  rw [warehouseRow, loaded, tables_applyWrites, loaderRows, loadWarehouses, found, Option.some_or,
    asRow_encode]

/-- Every district of the load starts with both copies of its counter at 3001. -/
theorem loaded_district (inside : w ∈ oneTo W) (within : d ∈ oneTo districtsPerWarehouse.toNat) :
    tables P.host (loaded P W before) (.nextOId w d) = some (kvEncodeNextOId 3001) ∧
    ∃ dv, districtRow P.host (tables P.host (loaded P W before)) w d = some dv ∧
      dv.dYtd = 3000000 ∧ dv.dNextOId = 3001 := by
  obtain ⟨counter, counted, rfl⟩ := lastWrite_of_mem (Q := fun value => value = kvEncodeNextOId 3001)
    ((loadIds_sets _ inside).2 d within).2 (fun row member same => by
      rcases loadIds_cases member with ⟨_, key, _⟩ | ⟨_, key⟩ | ⟨_, _, key, _⟩ | ⟨_, _, _, _, key, _⟩ |
        ⟨_, _, _, _, key, found⟩ <;> rw [same] at key <;> cases key
      exact found)
  obtain ⟨value, found, dv, rfl, facts⟩ := lastWrite_of_mem
    (Q := fun value => ∃ dv : DistrictVal, value = encode P.host dv ∧ dv.dYtd = 3000000 ∧
      dv.dNextOId = 3001)
    ((loadIds_sets _ inside).2 d within).1 (fun row member same => by
      rcases loadIds_cases member with ⟨_, key, _⟩ | ⟨_, key⟩ | ⟨_, _, key, _⟩ | ⟨_, _, _, _, key, found⟩ |
        ⟨_, _, _, _, key, _⟩ <;> rw [same] at key <;> cases key
      exact found)
  constructor
  · rw [loaded, tables_applyWrites, loaderRows, loadWarehouses, counted, Option.some_or]
  · refine ⟨dv, ?_, facts⟩
    rw [districtRow, loaded, tables_applyWrites, loaderRows, loadWarehouses, found, Option.some_or,
      asRow_encode]

variable {before}

/-- The loaded store has rows under no other key of the order tables. -/
theorem loaded_present (unloaded : Unloaded P before) {key : Key}
    (present : (tables P.host (loaded P W before) key).isSome)
    (ours : key.table ∉ [Table.customer, .customerName, .stock, .item, .world]) :
    ∃ w ∈ oneTo W, key = .warehouse w ∨
      ∃ d ∈ oneTo districtsPerWarehouse.toNat, key = .district w d ∨ key = .nextOId w d := by
  have absent := unloaded key fun member => ours (List.mem_append_left [Table.item, .world] member)
  rw [loaded, tables_applyWrites, absent, Option.or_none] at present
  obtain ⟨value, found⟩ := Option.isSome_iff_exists.mp present
  rcases loadIds_cases (mem_of_lastWrite found) with ⟨i, rfl, _⟩ | ⟨i, rfl⟩ | ⟨w, inside, key, _⟩ |
    ⟨w, inside, d, within, key, _⟩ | ⟨w, inside, d, within, key, _⟩
  · simp [Key.table] at ours
  · simp [Key.table] at ours
  · exact ⟨w, inside, .inl key⟩
  · exact ⟨w, inside, .inr ⟨d, within, .inl key⟩⟩
  · exact ⟨w, inside, .inr ⟨d, within, .inr key⟩⟩

/-- A load keeps what it does not set. In particular it never touches customers, stock or
history. -/
theorem loaded_other (before : Store Bytes Bytes) {key : Key}
    (other : key.table ∉ [Table.warehouse, .district, .nextOId, .item, .world]) :
    tables P.host (loaded P W before) key = tables P.host before key := by
  rw [loaded, tables_applyWrites, lastWrite_eq_none.mpr, Option.none_or]
  intro row member same
  rcases loadIds_cases member with ⟨_, key, _⟩ | ⟨_, key⟩ | ⟨_, _, key, _⟩ | ⟨_, _, _, _, key, _⟩ |
    ⟨_, _, _, _, key, _⟩ <;> rw [same] at key <;> subst key <;> simp [Key.table] at other

end Load

/-! ## A small store to load -/

/-- A little-endian machine with a plain generator. -/
def plainPlatform : Platform where
  host := .little
  randR seed := (seed % 2147483648, seed + 1)
  randR_lt seed := UInt32.mod_lt seed (by decide)
  remByZero _ := 0

/-- The rows a full loader would add, for one customer in each of two warehouses
and one item. -/
def smallRows : List (Key × Bytes) :=
  [(.customer 1 1 1, encode .little (PackedRow.zero : CustomerVal)),
    (.customer 2 1 1, encode .little (PackedRow.zero : CustomerVal)),
    (.stock 1 1, encode .little (PackedRow.zero : StockVal))]

def smallStore : Store Bytes Bytes := applyWrites ∅ (built .little smallRows)

private theorem tables_smallStore (key : Key) :
    tables .little smallStore key = lastWrite smallRows key := tables_only _ _ _

/-- The small store holds customers and stock only, none of what the loader sets. -/
theorem smallStore_unloaded : Unloaded plainPlatform smallStore := by
  intro key other
  change tables .little smallStore key = none
  rw [tables_smallStore, lastWrite_eq_none]
  rintro row member rfl
  simp only [smallRows, List.mem_cons, List.not_mem_nil, or_false] at member
  rcases member with rfl | rfl | rfl <;> simp [Key.table] at other

/-- The small store after the load of two warehouses. -/
def smallLoaded : Store Bytes Bytes := loaded plainPlatform 2 smallStore

/-- Both customers are still there after the load, with all fields zero. -/
theorem smallLoaded_customer (w : UInt32) (known : w = 1 ∨ w = 2) :
    customerRow .little (tables .little smallLoaded) w 1 1 = some PackedRow.zero := by
  have kept : tables .little smallLoaded (.customer w 1 1) = tables .little smallStore (.customer w 1 1) :=
    loaded_other (P := plainPlatform) smallStore (by simp [Key.table])
  rw [customerRow, kept, tables_smallStore]
  rcases known with rfl | rfl <;> simp [smallRows]

/-- The stock row is still there after the load, and is sold out. -/
theorem smallLoaded_stock :
    asRow .little (tables .little smallLoaded (.stock 1 1)) = some (PackedRow.zero : StockVal) := by
  have kept : tables .little smallLoaded (.stock 1 1) = tables .little smallStore (.stock 1 1) :=
    loaded_other (P := plainPlatform) smallStore (by simp [Key.table])
  rw [kept, tables_smallStore]
  simp [smallRows]

theorem smallLoaded_warehouse (w : UInt32) (known : w = 1 ∨ w = 2) :
    ∃ wv, warehouseRow .little (tables .little smallLoaded) w = some wv ∧ wv.wYtd = 30000000 := by
  have inside : w ∈ oneTo 2 := by rcases known with rfl | rfl <;> decide
  exact loaded_warehouse (P := plainPlatform) smallStore inside

theorem smallLoaded_district (w : UInt32) (known : w = 1 ∨ w = 2) :
    ∃ dv, districtRow .little (tables .little smallLoaded) w 1 = some dv ∧ dv.dYtd = 3000000 ∧
      dv.dNextOId = 3001 := by
  have inside : w ∈ oneTo 2 := by rcases known with rfl | rfl <;> decide
  exact (loaded_district (P := plainPlatform) smallStore inside (d := 1) (by decide)).2

end H2oTpcc

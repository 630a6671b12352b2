import H2oTpcc.LoaderRun
import H2oTpcc.WorldTable

/-! What a load that exits with 0 has left in the store, and when that is all it was
to load. A commit whose error nobody looks at may have applied nothing. -/
namespace H2oTpcc.Loader

section Rows
variable {P : Platform} {F : Cluster}

/-- A loop all of whose rows are treated alike keeps all of them or none. -/
private theorem filter_each {step : α → Draw (List β)} {keep : β → Bool} {all : Bool}
    (alike : ∀ a generator, ∀ row ∈ (step a).value generator, keep row = all) (loop : List α)
    (generator : Generator) :
    ((Draw.each step loop).value generator).filter keep =
      if all then (Draw.each step loop).value generator else [] := by
  have every (row) (member : row ∈ (Draw.each step loop).value generator) : keep row = all := by
    obtain ⟨a, _, generator', found⟩ := Draw.mem_each member
    exact alike a generator' row found
  cases all with
  | true => exact List.filter_eq_self.mpr every
  | false => exact List.filter_eq_nil_iff.mpr fun row member => by simp [every row member]

section Tables
variable (generator : Generator) (row : Key × Bytes)

private theorem loadItem_table (i : UInt32) (member : row ∈ (loadItem P i).value generator) :
    row.1.table = .item := by
  simp only [loadItem, Draw.value_bind, Draw.value_pure, List.mem_singleton] at member
  rw [member]
  rfl

private theorem loadWarehouse_table (w : UInt32)
    (member : row ∈ (H2oTpcc.loadWarehouse P w).value generator) :
    row.1.table = .warehouse := by
  simp only [H2oTpcc.loadWarehouse, Draw.value_bind, Draw.value_pure, List.mem_singleton] at member
  rw [member]
  rfl

private theorem loadDistrict_table (w d : UInt32) (member : row ∈ (loadDistrict P w d).value generator) :
    row.1.table = .district ∨ row.1.table = .nextOId := by
  simp only [loadDistrict, Draw.value_bind, Draw.value_pure, List.mem_cons, List.not_mem_nil,
    or_false] at member
  rcases member with rfl | rfl
  · exact .inl rfl
  · exact .inr rfl

private theorem loadWorld_table (i : UInt32) (member : row ∈ (loadWorld P i).value generator) :
    row.1.table = .world := by
  simp only [loadWorld, Draw.value_bind, Draw.value_pure, List.mem_singleton] at member
  rw [member]
  rfl

end Tables

/-- A run that gets through leaves the generated rows of the tables it applied. -/
theorem finishedIds_store (items warehouses districts worlds : List UInt32)
    (before : Store Bytes Bytes) :
    (finishedIds P F items warehouses districts worlds before).store = applyWrites before
      (built P.host (((loadIds P items warehouses districts worlds).value { seed := 42 }).filter
        fun row => applied F row.1.table)) := by
  have item (i generator) (row) (member : row ∈ (loadItem P i).value generator) :
      applied F row.1.table = true :=
    congrArg (applied F) (loadItem_table generator row i member)
  have warehouse (w generator) (row) (member : row ∈ (H2oTpcc.loadWarehouse P w).value generator) :
      applied F row.1.table = decide (F.commit 101 = 0) :=
    congrArg (applied F) (loadWarehouse_table generator row w member)
  have district (w generator) (row)
      (member : row ∈ (Draw.each (loadDistrict P w) districts).value generator) :
      applied F row.1.table = decide (F.commit 102 = 0) := by
    obtain ⟨d, _, generator', found⟩ := Draw.mem_each member
    rcases loadDistrict_table generator' row w d found with same | same <;> exact congrArg (applied F) same
  have world (i generator) (row) (member : row ∈ (loadWorld P i).value generator) :
      applied F row.1.table = true :=
    congrArg (applied F) (loadWorld_table generator row i member)
  simp only [loadIds, Draw.value_bind, Draw.value_pure, List.filter_append, filter_each item,
    filter_each warehouse, filter_each district, filter_each world, built_append, applyWrites_append,
    finishedIds, Progress.after]

/-- The rows a load of `W` warehouses is to set. -/
def InLoad (W : Int32) : Key → Prop
  | .item i => 1 ≤ i.toNat ∧ i.toNat ≤ 100000
  | .warehouse w => 1 ≤ w.toNat ∧ (w.toNat : Int) ≤ W.toInt
  | .district w d | .nextOId w d => (1 ≤ w.toNat ∧ (w.toNat : Int) ≤ W.toInt) ∧ 1 ≤ d.toNat ∧ d.toNat ≤ 10
  | .world i => 1 ≤ i.toNat ∧ i.toNat ≤ 10000
  | _ => False

/-- The value that a load generates for a key. -/
def generated (P : Platform) (W : Int32) (key : Key) : Option Bytes :=
  lastWrite (loaderRows P W.toUInt32.toNat) key

/-- The store holds every row of the load, with the value generated for it. -/
def Complete (P : Platform) (W : Int32) (store : Store Bytes Bytes) : Prop :=
  ∀ key, InLoad W key → ∃ value, generated P W key = some value ∧ tables P.host store key = some value

/-- A positive number of warehouses is the same number as `uint32_t`. -/
theorem toUInt32_of_pos {W : Int32} (positive : 1 ≤ W) : (W.toUInt32.toNat : Int) = W.toInt := by
  have least : 1 ≤ W.toInt := Int32.le_iff_toInt_le.mp positive
  have signed : W.toInt = _ := BitVec.toInt_eq_toNat_cond W.toBitVec
  have same : W.toUInt32.toNat = W.toBitVec.toNat := rfl
  rw [signed] at least ⊢
  split at least <;> omega

private theorem loadIds_sets_ids {items warehouses districts worlds : List UInt32}
    (generator : Generator)
    {i : UInt32} :
    (i ∈ items → ∃ row ∈ (loadIds P items warehouses districts worlds).value generator, row.1 = .item i) ∧
    (i ∈ worlds → ∃ row ∈ (loadIds P items warehouses districts worlds).value generator,
      row.1 = .world i) := by
  simp only [loadIds, Draw.value_bind, Draw.value_pure, List.mem_append]
  constructor
  · intro inside
    obtain ⟨generator', found⟩ := Draw.each_mem (loadItem P) inside _
    exact ⟨_, .inl (.inl (.inl (found _ (List.mem_singleton.mpr rfl)))), rfl⟩
  · intro inside
    obtain ⟨generator', found⟩ := Draw.each_mem (loadWorld P) inside _
    exact ⟨_, .inr (found _ (List.mem_singleton.mpr rfl)), rfl⟩

/-- Every row of the load is one that the loader has generated a value for. -/
theorem generated_some {W : Int32} (positive : 1 ≤ W) {key : Key} (inside : InLoad W key) :
    ∃ value, generated P W key = some value := by
  have number := toUInt32_of_pos positive
  have warehouse {w : UInt32} (known : 1 ≤ w.toNat ∧ (w.toNat : Int) ≤ W.toInt) :
      w ∈ oneTo W.toUInt32.toNat := (mem_oneTo W.toUInt32.toNat_lt).mpr ⟨known.1, by omega⟩
  have set : ∃ row ∈ loaderRows P W.toUInt32.toNat, row.1 = key := by
    cases key with
    | item i => exact (loadIds_sets_ids _).1 ((mem_oneTo (by decide)).mpr inside)
    | warehouse w => exact (loadIds_sets _ (warehouse inside)).1
    | district w d =>
      exact ((loadIds_sets _ (warehouse inside.1)).2 d ((mem_oneTo (by decide)).mpr inside.2)).1
    | nextOId w d =>
      exact ((loadIds_sets _ (warehouse inside.1)).2 d ((mem_oneTo (by decide)).mpr inside.2)).2
    | world i => exact (loadIds_sets_ids _).2 ((mem_oneTo (by decide)).mpr inside)
    | _ => exact inside.elim
  obtain ⟨value, found, _⟩ := lastWrite_of_mem (Q := fun _ => True) set fun _ _ _ => trivial
  exact ⟨value, found⟩

/-- What a run that gets through leaves under a key. -/
private theorem execute_tables {W : Int32} {before : Store Bytes Bytes} (checked : Checked F)
    (key : Key) :
    tables P.host (execute P F W before).2 key =
      (if applied F key.table then generated P W key else none).or (tables P.host before key) := by
  rw [execute_store checked, finished, finishedIds_store, tables_applyWrites,
    lastWrite_filter (fun key : Key => applied F key.table)]
  rfl

/-- Without lost commits a run of the loader leaves what `loaded` says; this ties that
definition to the program. -/
theorem execute_loaded {W : Int32} {before : Store Bytes Bytes} (checked : Checked F)
    (warehouses : F.commit 101 = 0) (districts : F.commit 102 = 0) :
    (execute P F W before).2 = loaded P W.toUInt32.toNat before := by
  have all (table : Table) : applied F table = true := by
    cases table <;> simp [applied, warehouses, districts]
  rw [execute_store checked, finished, finishedIds_store,
    List.filter_eq_self.mpr fun row _ => all row.1.table]
  rfl

private theorem row_complete_iff {W : Int32} {before : Store Bytes Bytes} (checked : Checked F)
    {key : Key}
    {value : Bytes} (found : generated P W key = some value) :
    tables P.host (execute P F W before).2 key = some value ↔
      applied F key.table ∨ tables P.host before key = some value := by
  rw [execute_tables checked, found]
  cases applied F key.table <;> simp

/-- **A load that exits with 0 is complete** exactly if the two commits that nobody looks at, of
the warehouses and of the districts, were applied, or had nothing to add to the store. -/
theorem finished_load_complete_iff {W : Int32} (positive : 1 ≤ W) (before : Store Bytes Bytes)
    (exits : (execute P F W before).1 = 0) :
    Complete P W (execute P F W before).2 ↔
      (F.commit 101 = 0 ∨ ∀ w, InLoad W (.warehouse w) →
        tables P.host before (.warehouse w) = generated P W (.warehouse w)) ∧
      (F.commit 102 = 0 ∨ ∀ w d, InLoad W (.district w d) →
        tables P.host before (.district w d) = generated P W (.district w d) ∧
        tables P.host before (.nextOId w d) = generated P W (.nextOId w d)) := by
  have checked := execute_finished.mp exits
  have each {key : Key} (inside : InLoad W key) :
      (∃ value, generated P W key = some value ∧
        tables P.host (execute P F W before).2 key = some value) ↔
      applied F key.table ∨ tables P.host before key = generated P W key := by
    obtain ⟨value, found⟩ := generated_some (P := P) positive inside
    simp only [found, Option.some.injEq, exists_eq_left', row_complete_iff checked found]
  constructor
  · intro complete
    constructor
    · refine or_iff_not_imp_left.mpr fun lost w inside => ?_
      exact ((each inside).mp (complete _ inside)).resolve_left (by simpa [applied, Key.table] using lost)
    · refine or_iff_not_imp_left.mpr fun lost w d inside => ?_
      have unapplied : ¬ applied F .district = true := by simpa [applied] using lost
      have counted : InLoad W (.nextOId w d) := inside
      exact ⟨((each inside).mp (complete _ inside)).resolve_left unapplied,
        ((each counted).mp (complete _ counted)).resolve_left unapplied⟩
  · rintro ⟨warehouses, districts⟩ key inside
    refine (each inside).mpr ?_
    cases key with
    | item i => exact .inl rfl
    | world i => exact .inl rfl
    | warehouse w => exact warehouses.imp decide_eq_true fun held => held w inside
    | district w d => exact districts.imp decide_eq_true fun held => (held w d inside).1
    | nextOId w d => exact districts.imp decide_eq_true fun held => (held w d inside).2
    | _ => exact inside.elim

end Rows

/-- A cluster without failures. -/
def calm : Cluster where
  selectApiVersion := 0
  setupNetwork := 0
  createDatabase := 0
  stopNetwork := 0
  createTransaction _ := 0
  commit _ := 0
  blockUntilReady _ := 0
  fdbGetError _ := "Success"

theorem calm_checked : Checked calm where
  selectApiVersion := rfl
  setupNetwork := rfl
  createDatabase := rfl
  created _ _ := rfl
  ready _ _ := rfl
  items _ _ := rfl
  worlds _ _ := rfl
  stopNetwork := rfl

/-- On a cluster that never fails the load of one warehouse is complete. -/
theorem calm_load_complete :
    1 ≤ (1 : Int32) ∧ (execute plainPlatform calm 1 ∅).1 = 0 ∧
      Complete plainPlatform 1 (execute plainPlatform calm 1 ∅).2 := by
  have exits : (execute plainPlatform calm 1 ∅).1 = 0 := execute_finished.mpr calm_checked
  exact ⟨by decide, exits, (finished_load_complete_iff (by decide) ∅ exits).mpr ⟨.inl rfl, .inl rfl⟩⟩

/-- The commit of the warehouses fails; everything else goes well. -/
def lostWarehouses : Cluster := { calm with commit := fun k => if k = 101 then 1038 else 0 }

private theorem lostWarehouses_checked : Checked lostWarehouses :=
  { calm_checked with
    items := fun k below => if_neg (by omega)
    worlds := fun k _ => if_neg (by omega) }

/-- The loader exits with 0, and the only warehouse has no row: the commit that failed is one
that nobody looks at. -/
theorem load_without_warehouses :
    (execute plainPlatform lostWarehouses 1 ∅).1 = 0 ∧
    tables .little (execute plainPlatform lostWarehouses 1 ∅).2 (.warehouse 1) = none ∧
    ¬ Complete plainPlatform 1 (execute plainPlatform lostWarehouses 1 ∅).2 := by
  have absent : tables .little (execute plainPlatform lostWarehouses 1 ∅).2 (.warehouse 1) = none := by
    change tables plainPlatform.host _ _ = none
    rw [execute_tables lostWarehouses_checked]
    rfl
  refine ⟨execute_finished.mpr lostWarehouses_checked, absent, fun complete => ?_⟩
  obtain ⟨value, _, found⟩ := complete (.warehouse 1) (by simp [InLoad])
  cases absent.symm.trans found

end H2oTpcc.Loader

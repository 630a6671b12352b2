import H2oTpcc.Loader

/-! The run of `tpcc_loader.c`: the transactions `main` fills table by table, the
commits it makes of them and the errors it looks at. Items and World rows go in
batches whose commit is checked; warehouses and districts go in one transaction
each, and of that commit only the wait is checked. -/
namespace H2oTpcc.Loader

abbrev FdbErrorT := Int32

/-- What the client library answers to the calls of one run, zero for success. -/
structure Cluster where
  selectApiVersion : FdbErrorT
  setupNetwork : FdbErrorT
  createDatabase : FdbErrorT
  stopNetwork : FdbErrorT
  /-- Of the transactions created, in order. -/
  createTransaction : Nat → FdbErrorT
  /-- Of the commits, in order: either the sets are applied or there is an error. -/
  commit : Nat → FdbErrorT
  /-- Of the wait for each commit. -/
  blockUntilReady : Nat → FdbErrorT
  fdbGetError : FdbErrorT → String

/-- The loader between two calls. -/
structure Progress where
  generator : Generator := { seed := 42 }
  store : Store Bytes Bytes
  /-- What the open transaction has set. -/
  sets : List (Key × Bytes) := []
  transactions : Nat := 0
  commits : Nat := 0

/-- An exception is `exit(1)`, with what went to `stderr`; the store stays as it was left. -/
abbrev Load := EStateM String Progress

section Source
variable (P : Platform) (F : Cluster)

def checkFdb (err : FdbErrorT) (msg : String) : Load Unit :=
  if err ≠ 0 then throw ("FDB error: " ++ msg ++ ": " ++ F.fdbGetError err ++ "\n") else pure ()

def fdbDatabaseCreateTransaction : Load FdbErrorT :=
  modifyGet fun p => (F.createTransaction p.transactions,
    { p with sets := [], transactions := p.transactions + 1 })

/-- The sets of one iteration, `fdb_transaction_set` for each row it draws. -/
def fdbTransactionSet (rows : Draw (List (Key × Bytes))) : Load Unit :=
  modify fun p => { p with
    generator := (rows p.generator).2
    sets := p.sets ++ rows.value p.generator }

/-- `fdb_transaction_commit`; the future is the number of the commit. -/
def fdbTransactionCommit : Load Nat :=
  modifyGet fun p => (p.commits, { p with
    store := if F.commit p.commits = 0 then applyWrites p.store (built P.host p.sets) else p.store
    commits := p.commits + 1 })

/-- `fdb_transaction_reset`, and `fdb_transaction_destroy` as far as the next one sees. -/
def fdbTransactionReset : Load Unit := modify fun p => { p with sets := [] }

/-- The commit of a full batch. Both the wait and the commit itself are checked. -/
def commitBatch (waited failed : String) : Load Unit := do
  let f ← fdbTransactionCommit P F
  checkFdb F (F.blockUntilReady f) waited
  checkFdb F (F.commit f) failed
  fdbTransactionReset

/-- The commit that ends a table. `fdb_future_get_error` is not called. -/
def commitLast (waited : String) : Load Unit := do
  let f ← fdbTransactionCommit P F
  checkFdb F (F.blockUntilReady f) waited
  fdbTransactionReset

section Batches
variable (row : UInt32 → Draw (List (Key × Bytes))) (size : UInt32) (waited failed : String)

/-- One iteration of `load_items` and of `load_world_table`. -/
def batchRow (i : UInt32) : Load Unit := do
  fdbTransactionSet (row i)
  if i % size = 0 then commitBatch P F waited failed

def batches (count : Nat) : Load Unit := (oneTo count).forM (batchRow P F row size waited failed)

end Batches

/-- What every `load_` function does around its loop. -/
def loadTable (fill : Load Unit) (waited : String) : Load Unit := do
  checkFdb F (← fdbDatabaseCreateTransaction F) "create_transaction"
  fill
  commitLast P F waited

def batchSize : UInt32 := 1000

def loadItems : Load Unit :=
  loadTable P F (batches P F (loadItem P) batchSize "commit items" "commit items error" itemCount.toNat)
    "final commit items"

def loadWarehouse (W : Int32) : Load Unit :=
  loadTable P F
    ((oneTo W.toUInt32.toNat).forM fun w => fdbTransactionSet (H2oTpcc.loadWarehouse P w))
    "commit warehouse"

def loadDistrictsAndNextOId (W : Int32) : Load Unit :=
  loadTable P F
    ((oneTo W.toUInt32.toNat).forM fun w => (oneTo districtsPerWarehouse.toNat).forM fun d =>
      fdbTransactionSet (loadDistrict P w d))
    "commit districts"

/-- `load_customer_and_orders` is a stub. -/
def loadCustomerAndOrders : Load Unit := pure ()

def loadWorldTable : Load Unit :=
  loadTable P F (batches P F (loadWorld P) 1000 "commit world" "commit world error" 10000)
    "final commit world"

/-- `main`, after the arguments. The progress lines are left out, and `W` is not -1,
for which `w <= (uint32_t)W` never fails. -/
def main (W : Int32) : Load Int32 := do
  checkFdb F F.selectApiVersion "select_api_version"
  checkFdb F F.setupNetwork "setup_network"
  checkFdb F F.createDatabase "create_database"
  loadItems P F
  loadWarehouse P F W
  loadDistrictsAndNextOId P F W
  loadCustomerAndOrders
  loadWorldTable P F
  checkFdb F F.stopNetwork "stop_network"
  return 0

/-- The exit status of a run and the store it leaves. -/
def execute (W : Int32) (before : Store Bytes Bytes) : Int32 × Store Bytes Bytes :=
  match (main P F W).run { store := before } with
  | .ok status p => (status, p.store)
  | .error _ p => (1, p.store)

end Source

/-! ## What a run that gets through has done -/

section Runs
variable {P : Platform} {F : Cluster} {p q : Progress}

private theorem run_bind_ok {first : Load α} {next : α → Load β} {b : β} :
    (first >>= next).run p = .ok b q ↔ ∃ a between, first.run p = .ok a between ∧
      (next a).run between = .ok b q := by
  change EStateM.bind first next p = .ok b q ↔ ∃ a between, first p = .ok a between ∧ _
  unfold EStateM.bind
  cases first p <;> simp [EStateM.run]

theorem run_pure_ok {a b : α} : (pure a : Load α).run p = .ok b q ↔ a = b ∧ p = q := by
  change EStateM.Result.ok a p = .ok b q ↔ _
  simp

/-- What follows a step runs from what the step leaves, if the step's checks pass. -/
theorem run_then {first : Load Unit} {next : Load β} {checks : Prop} {between : Progress} {b : β}
    (spec : ∀ {done left}, first.run p = .ok done left ↔ checks ∧ between = left) :
    (first >>= fun _ => next).run p = .ok b q ↔ checks ∧ next.run between = .ok b q := by
  rw [run_bind_ok]
  constructor
  · rintro ⟨_, _, run, rest⟩
    obtain ⟨passed, rfl⟩ := spec.mp run
    exact ⟨passed, rest⟩
  · rintro ⟨passed, rest⟩
    exact ⟨(), _, spec.mpr ⟨passed, rfl⟩, rest⟩

private theorem run_modifyGet_then {step : Progress → α × Progress} {next : α → Load β} :
    ((modifyGet step : Load α) >>= next).run p = (next (step p).1).run (step p).2 := rfl

theorem run_modify_ok {step : Progress → Progress} {done : Unit} :
    (modify step : Load Unit).run p = .ok done q ↔ step p = q := by
  change EStateM.Result.ok () (step p) = .ok done q ↔ _
  simp

/-- A check goes on if and only if there was no error; else the loader exits. -/
theorem checkFdb_ok {err : FdbErrorT} {msg : String} {done : Unit} :
    (checkFdb F err msg).run p = .ok done q ↔ err = 0 ∧ p = q := by
  unfold checkFdb
  split
  · rename_i failed
    constructor
    · intro impossible
      cases impossible
    · exact fun ⟨fine, _⟩ => absurd fine failed
  · rename_i fine
    rw [run_pure_ok]
    simp [not_not.mp fine]

/-- A batch that is waited for and checked goes on exactly if both the wait and the commit went
well, and then its rows are in the store. -/
theorem commitBatch_ok {waited failed : String} {done : Unit} :
    (commitBatch P F waited failed).run p = .ok done q ↔
      (F.blockUntilReady p.commits = 0 ∧ F.commit p.commits = 0) ∧
      { p with
        store := applyWrites p.store (built P.host p.sets)
        sets := []
        commits := p.commits + 1 } = q := by
  rw [commitBatch, fdbTransactionCommit, run_modifyGet_then, run_then checkFdb_ok, run_then checkFdb_ok,
    fdbTransactionReset, run_modify_ok, and_assoc]
  refine and_congr_right fun _ => and_congr_right fun fine => ?_
  rw [if_pos fine]

private theorem commitLast_ok {waited : String} {done : Unit} :
    (commitLast P F waited).run p = .ok done q ↔ F.blockUntilReady p.commits = 0 ∧
      { p with
        store := if F.commit p.commits = 0 then applyWrites p.store (built P.host p.sets) else p.store
        sets := [], commits := p.commits + 1 } = q := by
  rw [commitLast, fdbTransactionCommit, run_modifyGet_then, run_then checkFdb_ok, fdbTransactionReset,
    run_modify_ok]

/-- A loop of sets is one set of everything that the loop draws, in the order in which it draws
it. -/
theorem set_each (rows : α → Draw (List (Key × Bytes))) (loop : List α) :
    (loop.forM fun a => fdbTransactionSet (rows a)) = fdbTransactionSet (Draw.each rows loop) := by
  funext p
  induction loop generalizing p with
  | nil =>
    change EStateM.Result.ok () p = .ok () { p with sets := p.sets ++ [] }
    rw [List.append_nil]
  | cons a rest ih =>
    change (rest.forM fun a => fdbTransactionSet (rows a)) _ = _
    rw [ih]
    change EStateM.Result.ok () _ = .ok () _
    simp only [Draw.each, Draw.value_bind, Draw.value_pure, List.append_assoc]
    rfl

theorem oneTo_succ (count : Nat) : oneTo (count + 1) = oneTo count ++ [UInt32.ofNat (count + 1)] := by
  simp [oneTo, List.range_succ]

private theorem each_concat (rows : α → Draw (List β)) (loop : List α) (a : α) (generator : Generator) :
    Draw.each rows (loop ++ [a]) generator =
      ((Draw.each rows loop).value generator ++ (rows a).value (Draw.each rows loop generator).2,
        (rows a (Draw.each rows loop generator).2).2) := by
  induction loop generalizing generator with
  | nil =>
    change ((rows a).value generator ++ [], _) = ([] ++ (rows a).value generator, _)
    rw [List.append_nil, List.nil_append]
    rfl
  | cons first rest ih =>
    change (_ ++ (Draw.each rows (rest ++ [a]) _).1, (Draw.each rows (rest ++ [a]) _).2) = _
    rw [ih]
    simp only [Draw.each, Draw.value_bind, Draw.value_pure, List.append_assoc]
    rfl

section Batches
variable {row : UInt32 → Draw (List (Key × Bytes))}

/-- One iteration more draws from where the others have left the generator, and adds its rows at
the end. -/
theorem each_succ (row : UInt32 → Draw (List β)) (count : Nat) (generator : Generator) :
    Draw.each row (oneTo (count + 1)) generator =
      ((Draw.each row (oneTo count)).value generator ++
          (row (UInt32.ofNat (count + 1))).value (Draw.each row (oneTo count) generator).2,
        (row (UInt32.ofNat (count + 1)) (Draw.each row (oneTo count) generator).2).2) := by
  rw [oneTo_succ, each_concat]

theorem each_front (row : UInt32 → Draw (List β)) (generator : Generator) (fewer : m ≤ n) :
    (Draw.each row (oneTo m)).value generator <+: (Draw.each row (oneTo n)).value generator := by
  induction fewer with
  | refl => exact List.prefix_rfl
  | @step n _ ih =>
    rw [show (Draw.each row (oneTo (n + 1))).value generator = _ from
      congrArg Prod.fst (each_succ row n generator)]
    exact ih.trans (List.prefix_append ..)

/-- The batches that `count` rows fill are applied; the rows after them are set. -/
def batched (P : Platform) (row : UInt32 → Draw (List (Key × Bytes))) (size : UInt32) (p : Progress)
    (count : Nat) : Progress :=
  let full := (Draw.each row (oneTo (count / size.toNat * size.toNat))).value p.generator
  { p with
    generator := (Draw.each row (oneTo count) p.generator).2
    store := applyWrites p.store (built P.host full)
    sets := ((Draw.each row (oneTo count)).value p.generator).drop full.length
    commits := p.commits + count / size.toNat }

/-- The whole rows of `batched`, applied or only set. -/
private theorem batched_rows (row : UInt32 → Draw (List β)) (size : UInt32) (count : Nat)
    (generator : Generator) :
    (Draw.each row (oneTo (count / size.toNat * size.toNat))).value generator ++
      ((Draw.each row (oneTo count)).value generator).drop
        ((Draw.each row (oneTo (count / size.toNat * size.toNat))).value generator).length =
      (Draw.each row (oneTo count)).value generator :=
  List.prefix_iff_eq_append.mp (each_front row generator (Nat.div_mul_le_self ..))

section Step
variable {size : UInt32} {count : Nat}

/-- A row that fills no batch is only set. -/
private theorem batched_within (within : ¬ size.toNat ∣ count + 1) :
    { batched P row size p count with
      generator := (row (UInt32.ofNat (count + 1)) (batched P row size p count).generator).2
      sets := (batched P row size p count).sets ++
        (row (UInt32.ofNat (count + 1))).value (batched P row size p count).generator } =
    batched P row size p (count + 1) := by
  have same : (count + 1) / size.toNat = count / size.toNat := by
    rw [Nat.succ_div, if_neg within, Nat.add_zero]
  have all : (Draw.each row (oneTo (count + 1))).value p.generator = _ :=
    congrArg Prod.fst (each_succ row count p.generator)
  have fewer := (each_front row p.generator (Nat.div_mul_le_self count size.toNat)).length_le
  simp only [batched, same, all, List.drop_append_of_le_length fewer]
  rw [each_succ]

/-- A row that fills a batch is applied with what was set before it. -/
private theorem batched_full (full : size.toNat ∣ count + 1) :
    { batched P row size p count with
      generator := (row (UInt32.ofNat (count + 1)) (batched P row size p count).generator).2
      store := applyWrites (batched P row size p count).store (built P.host
        ((batched P row size p count).sets ++
          (row (UInt32.ofNat (count + 1))).value (batched P row size p count).generator))
      sets := []
      commits := (batched P row size p count).commits + 1 } =
    batched P row size p (count + 1) := by
  have next : (count + 1) / size.toNat = count / size.toNat + 1 := by
    rw [Nat.succ_div, if_pos full]
  have all : (Draw.each row (oneTo (count + 1))).value p.generator = _ :=
    congrArg Prod.fst (each_succ row count p.generator)
  have whole : (count + 1) / size.toNat * size.toNat = count + 1 := Nat.div_mul_cancel full
  simp only [batched, whole, List.drop_length]
  rw [next, ← applyWrites_append, ← built_append, ← List.append_assoc, batched_rows, all, each_succ]
  rfl

private theorem batchRow_ok (fits : count + 1 < 2 ^ 32) {waited failed : String} {done : Unit} :
    (batchRow P F row size waited failed (UInt32.ofNat (count + 1))).run (batched P row size p count) =
        .ok done q ↔
      (size.toNat ∣ count + 1 → F.blockUntilReady (p.commits + count / size.toNat) = 0 ∧
        F.commit (p.commits + count / size.toNat) = 0) ∧
      batched P row size p (count + 1) = q := by
  have divides : UInt32.ofNat (count + 1) % size = 0 ↔ size.toNat ∣ count + 1 := by
    rw [← UInt32.toNat_inj, UInt32.toNat_mod, UInt32.toNat_ofNat_of_lt' fits, Nat.dvd_iff_mod_eq_zero]
    rfl
  simp only [batchRow, divides, run_bind_ok, fdbTransactionSet, run_modify_ok, exists_eq_left',
    exists_const]
  by_cases full : size.toNat ∣ count + 1
  · rw [if_pos full, commitBatch_ok, ← batched_full full]
    simp only [full, forall_const]
    rfl
  · rw [if_neg full, run_pure_ok, ← batched_within full]
    simp [full]

/-- A loop in batches goes on exactly if every batch was waited for and committed; then the full
batches are in the store, and the rows of the last one are buffered. -/
theorem batches_ok (fits : count < 2 ^ 32) (fresh : p.sets = []) {waited failed : String} {done : Unit} :
    (batches P F row size waited failed count).run p = .ok done q ↔
      (∀ k < count / size.toNat, F.blockUntilReady (p.commits + k) = 0 ∧ F.commit (p.commits + k) = 0) ∧
      batched P row size p count = q := by
  induction count generalizing q done with
  | zero =>
    have start : batched P row size p 0 = p := by
      simp only [batched, Nat.zero_div, Nat.zero_mul]
      change { p with sets := [] } = p
      rw [← fresh]
    rw [start]
    change EStateM.Result.ok () p = .ok done q ↔ _
    simp
  | succ count ih =>
    have split : batches P F row size waited failed (count + 1) =
        (do batches P F row size waited failed count
            batchRow P F row size waited failed (UInt32.ofNat (count + 1))) := by
      simp [batches, oneTo_succ, List.forM_eq_forM]
    -- The checks of the last iteration are those of the commit it makes, if it makes one.
    have checks : (∀ k < (count + 1) / size.toNat,
          F.blockUntilReady (p.commits + k) = 0 ∧ F.commit (p.commits + k) = 0) ↔
        (∀ k < count / size.toNat,
          F.blockUntilReady (p.commits + k) = 0 ∧ F.commit (p.commits + k) = 0) ∧
        (size.toNat ∣ count + 1 → F.blockUntilReady (p.commits + count / size.toNat) = 0 ∧
          F.commit (p.commits + count / size.toNat) = 0) := by
      rw [Nat.succ_div]
      by_cases full : size.toNat ∣ count + 1
      · simp only [full, if_true, forall_const, Nat.forall_lt_succ_right]
      · simp [full]
    rw [split, run_then (ih (by omega)), batchRow_ok fits, checks, and_assoc]

end Step
end Batches

/-! ## Table by table -/

/-- The loader after a table: `applied` says whether its rows are in the store. -/
def Progress.after (P : Platform) (p : Progress) (rows : Draw (List (Key × Bytes))) (applied : Bool)
    (commits : Nat) : Progress where
  generator := (rows p.generator).2
  store := applyWrites p.store (built P.host (if applied then rows.value p.generator else []))
  transactions := p.transactions + 1
  commits := p.commits + commits

private theorem loadTable_ok {fill : Load Unit} {checks : Prop} {filled : Progress}
    {waited : String} {done : Unit}
    (spec : ∀ {done left},
      fill.run { p with sets := [], transactions := p.transactions + 1 } = .ok done left ↔
      checks ∧ filled = left) :
    (loadTable P F fill waited).run p = .ok done q ↔ F.createTransaction p.transactions = 0 ∧ checks ∧
      (commitLast P F waited).run filled = .ok done q := by
  rw [loadTable, fdbDatabaseCreateTransaction, run_modifyGet_then, run_then checkFdb_ok, run_then spec]

/-- Batches that leave no row over: the last commit has nothing to apply. -/
private theorem loadTable_batches {row : UInt32 → Draw (List (Key × Bytes))} {size : UInt32}
    {count : Nat}
    (fits : count < 2 ^ 32) (whole : size.toNat ∣ count) {waited failed last : String} {done : Unit} :
    (loadTable P F (batches P F row size waited failed count) last).run p = .ok done q ↔
      (F.createTransaction p.transactions = 0 ∧
        (∀ k < count / size.toNat, F.blockUntilReady (p.commits + k) = 0 ∧ F.commit (p.commits + k) = 0) ∧
        F.blockUntilReady (p.commits + count / size.toNat) = 0) ∧
      p.after P (Draw.each row (oneTo count)) true (count / size.toNat + 1) = q := by
  rw [loadTable_ok (batches_ok fits rfl), commitLast_ok, and_assoc, and_assoc]
  simp only [batched, Nat.div_mul_cancel whole, List.drop_length, Progress.after]
  -- The last commit applies an empty buffer, whatever becomes of it.
  simp [applyWrites, Nat.add_assoc]

/-- One transaction for the whole table: nothing looks at how its commit ended. -/
theorem loadTable_whole {rows : Draw (List (Key × Bytes))} {waited : String} {done : Unit} :
    (loadTable P F (fdbTransactionSet rows) waited).run p = .ok done q ↔
      (F.createTransaction p.transactions = 0 ∧ F.blockUntilReady p.commits = 0) ∧
      p.after P rows (F.commit p.commits = 0) 1 = q := by
  have spec {done : Unit} {left : Progress} : (fdbTransactionSet rows).run
      { p with sets := [], transactions := p.transactions + 1 } = .ok done left ↔ True ∧
        { p with
          generator := (rows p.generator).2
          sets := [] ++ rows.value p.generator
          transactions := p.transactions + 1 } = left := by
    rw [fdbTransactionSet, run_modify_ok, true_and]
  rw [loadTable_ok spec, commitLast_ok, true_and, and_assoc]
  unfold Progress.after
  by_cases fine : F.commit p.commits = 0 <;> simp [fine, applyWrites]

/-- The items: a hundred batches that are checked, and a last commit that is waited for but not
looked at. -/
theorem loadItems_ok {done : Unit} :
    (loadItems P F).run p = .ok done q ↔
      (F.createTransaction p.transactions = 0 ∧
        (∀ k < 100, F.blockUntilReady (p.commits + k) = 0 ∧ F.commit (p.commits + k) = 0) ∧
        F.blockUntilReady (p.commits + 100) = 0) ∧
      p.after P (Draw.each (loadItem P) (oneTo itemCount.toNat)) true 101 = q :=
  loadTable_batches (by decide) (by decide)

/-- The warehouses: one transaction, whose commit is waited for but not looked at. The rows are
in the store only if it went well. -/
theorem loadWarehouse_ok {W : Int32} {done : Unit} :
    (loadWarehouse P F W).run p = .ok done q ↔
      (F.createTransaction p.transactions = 0 ∧ F.blockUntilReady p.commits = 0) ∧
      p.after P (Draw.each (H2oTpcc.loadWarehouse P) (oneTo W.toUInt32.toNat)) (F.commit p.commits = 0) 1 =
        q := by
  rw [loadWarehouse, set_each, loadTable_whole]

theorem loadDistrictsAndNextOId_ok {W : Int32} {done : Unit} :
    (loadDistrictsAndNextOId P F W).run p = .ok done q ↔
      (F.createTransaction p.transactions = 0 ∧ F.blockUntilReady p.commits = 0) ∧
      p.after P
        (Draw.each (fun w => Draw.each (loadDistrict P w) (oneTo districtsPerWarehouse.toNat))
          (oneTo W.toUInt32.toNat))
        (F.commit p.commits = 0) 1 = q := by
  simp only [loadDistrictsAndNextOId, set_each, loadTable_whole]

private theorem loadWorldTable_ok {done : Unit} :
    (loadWorldTable P F).run p = .ok done q ↔
      (F.createTransaction p.transactions = 0 ∧
        (∀ k < 10, F.blockUntilReady (p.commits + k) = 0 ∧ F.commit (p.commits + k) = 0) ∧
        F.blockUntilReady (p.commits + 10) = 0) ∧
      p.after P (Draw.each (loadWorld P) (oneTo 10000)) true 11 = q :=
  loadTable_batches (by decide) (by decide)

/-- Everything the loader looks at. Commits 0 to 100 are those of the items, 101 that
of the warehouses, 102 that of the districts, and the World rows have the rest; the
errors of 100, 101, 102 and 113 are not among them. -/
structure Checked (F : Cluster) : Prop where
  selectApiVersion : F.selectApiVersion = 0
  setupNetwork : F.setupNetwork = 0
  createDatabase : F.createDatabase = 0
  created : ∀ k < 4, F.createTransaction k = 0
  ready : ∀ k < 114, F.blockUntilReady k = 0
  items : ∀ k < 100, F.commit k = 0
  worlds : ∀ k < 10, F.commit (103 + k) = 0
  stopNetwork : F.stopNetwork = 0

/-- Whether the rows of a table are applied in a run that gets through. -/
def applied (F : Cluster) : Table → Bool
  | .warehouse => F.commit 101 = 0
  | .district | .nextOId => F.commit 102 = 0
  | _ => true

/-- The loader when it is done with these ids. -/
def finishedIds (P : Platform) (F : Cluster) (items warehouses districts worlds : List UInt32)
    (before : Store Bytes Bytes) : Progress :=
  let afterItems := Progress.after P { store := before } (Draw.each (loadItem P) items) true 101
  let afterWarehouses := afterItems.after P (Draw.each (H2oTpcc.loadWarehouse P) warehouses)
    (F.commit 101 = 0) 1
  let afterDistricts := afterWarehouses.after P
    (Draw.each (fun w => Draw.each (loadDistrict P w) districts) warehouses) (F.commit 102 = 0) 1
  afterDistricts.after P (Draw.each (loadWorld P) worlds) true 11

def finished (P : Platform) (F : Cluster) (W : Int32) (before : Store Bytes Bytes) : Progress :=
  finishedIds P F (oneTo itemCount.toNat) (oneTo W.toUInt32.toNat) (oneTo districtsPerWarehouse.toNat)
    (oneTo 10000) before

private theorem main_ok {W : Int32} {before : Store Bytes Bytes} {status : Int32} :
    (main P F W).run { store := before } = .ok status q ↔
      Checked F ∧ 0 = status ∧ finished P F W before = q := by
  rw [main, run_then checkFdb_ok, run_then checkFdb_ok, run_then checkFdb_ok, run_then loadItems_ok,
    run_then loadWarehouse_ok, run_then loadDistrictsAndNextOId_ok, loadCustomerAndOrders, pure_bind,
    run_then loadWorldTable_ok, run_then checkFdb_ok, run_pure_ok]
  constructor
  · rintro ⟨version, network, database, ⟨created₀, batches₀, last₀⟩, ⟨created₁, last₁⟩, ⟨created₂, last₂⟩,
      ⟨created₃, batches₃, last₃⟩, stopped, rfl, rfl⟩
    simp only [Nat.zero_add] at batches₀
    refine ⟨⟨version, network, database, fun k below => ?_, fun k below => ?_,
      fun k below => (batches₀ k below).2, fun k below => (batches₃ k below).2, stopped⟩, rfl, rfl⟩
    · obtain rfl | rfl | rfl | rfl : k = 0 ∨ k = 1 ∨ k = 2 ∨ k = 3 := by omega
      exacts [created₀, created₁, created₂, created₃]
    · obtain early | rfl | rfl | rfl | ⟨late, least⟩ | rfl : k < 100 ∨ k = 100 ∨ k = 101 ∨ k = 102 ∨
          (k - 103 < 10 ∧ 103 ≤ k) ∨ k = 113 := by omega
      · exact (batches₀ k early).1
      · exact last₀
      · exact last₁
      · exact last₂
      · have ready : F.blockUntilReady (103 + (k - 103)) = 0 := (batches₃ (k - 103) late).1
        rwa [Nat.add_sub_cancel' least] at ready
      · exact last₃
  · rintro ⟨checked, rfl, rfl⟩
    refine ⟨checked.selectApiVersion, checked.setupNetwork, checked.createDatabase,
      ⟨checked.created 0 (by omega), fun k below => ?_, checked.ready 100 (by omega)⟩,
      ⟨checked.created 1 (by omega), checked.ready 101 (by omega)⟩,
      ⟨checked.created 2 (by omega), checked.ready 102 (by omega)⟩,
      ⟨checked.created 3 (by omega), fun k below => ?_, checked.ready 113 (by omega)⟩,
      checked.stopNetwork, rfl, rfl⟩
    · rw [Nat.zero_add]
      exact ⟨checked.ready k (by omega), checked.items k below⟩
    · exact ⟨checked.ready (103 + k) (by omega), checked.worlds k below⟩

/-- The loader ends with status 0 exactly if no check has failed; the outcomes that it does not
look at play no part. -/
theorem execute_finished {W : Int32} {before : Store Bytes Bytes} :
    (execute P F W before).1 = 0 ↔ Checked F := by
  unfold execute
  cases result : (main P F W).run { store := before } with
  | ok status q =>
    obtain ⟨checked, rfl, _⟩ := main_ok.mp result
    exact ⟨fun _ => checked, fun _ => rfl⟩
  | error message q =>
    constructor
    · intro failed
      cases failed
    · intro checked
      rw [main_ok.mpr ⟨checked, rfl, rfl⟩] at result
      cases result

/-- What it then leaves is given by which of the commits went well. -/
theorem execute_store {W : Int32} {before : Store Bytes Bytes} (checked : Checked F) :
    (execute P F W before).2 = (finished P F W before).store := by
  rw [execute, main_ok.mpr ⟨checked, rfl, rfl⟩]

end Runs

end H2oTpcc.Loader

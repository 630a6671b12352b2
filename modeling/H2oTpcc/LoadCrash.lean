import H2oTpcc.LoadComplete
import Mathlib.Data.List.Nodup

/-! Loads that stop halfway. The loader makes one fixed sequence of transactions; wherever a
call fails, the store has the first of them, each whole or not at all, and a later load that
gets through makes up for whatever the earlier ones left. -/
namespace H2oTpcc.Loader

/-! ## The transactions of a load -/

/-- One commit of the loader: its rows, and whether the loader looks at how it ended. -/
structure Transaction where
  rows : List (Key × Bytes)
  looked : Bool

/-- The store after these transactions, which are the commits from `commits` on. -/
def land (P : Platform) (F : Cluster) (commits : Nat) (store : Store Bytes Bytes) :
    List Transaction → Store Bytes Bytes
  | [] => store
  | transaction :: rest =>
    land P F (commits + 1)
      (if F.commit commits = 0 then applyWrites store (built P.host transaction.rows) else store) rest

/-- The rows that `size` iterations set after `k * size` of them. -/
def batch (row : UInt32 → Draw (List (Key × Bytes))) (size : UInt32) (generator : Generator) (k : Nat) :
    List (Key × Bytes) :=
  ((Draw.each row (oneTo ((k + 1) * size.toNat))).value generator).drop
    ((Draw.each row (oneTo (k * size.toNat))).value generator).length

/-- The full batches of `count` iterations. -/
def fullBatches (row : UInt32 → Draw (List (Key × Bytes))) (size : UInt32) (generator : Generator)
    (count : Nat) : List Transaction :=
  (List.range (count / size.toNat)).map fun k => ⟨batch row size generator k, true⟩

/-- Every commit of a load, with the one of no rows that ends a table of batches. -/
def transactions (P : Platform) (W : Int32) : List Transaction :=
  let items := Draw.each (loadItem P) (oneTo itemCount.toNat)
  let warehouses := Draw.each (H2oTpcc.loadWarehouse P) (oneTo W.toUInt32.toNat)
  let districts := Draw.each (fun w => Draw.each (loadDistrict P w) (oneTo districtsPerWarehouse.toNat))
    (oneTo W.toUInt32.toNat)
  let afterItems := (items { seed := 42 }).2
  let afterWarehouses := (warehouses afterItems).2
  let afterDistricts := (districts afterWarehouses).2
  (fullBatches (loadItem P) batchSize { seed := 42 } itemCount.toNat ++ [⟨[], false⟩]) ++
    ([⟨warehouses.value afterItems, false⟩] ++ ([⟨districts.value afterWarehouses, false⟩] ++
      (fullBatches (loadWorld P) 1000 afterDistricts 10000 ++ [⟨[], false⟩])))

section Land
variable {P : Platform} {F : Cluster} {commits : Nat} {store : Store Bytes Bytes}

private theorem land_append (first second : List Transaction) :
    land P F commits store (first ++ second) =
      land P F (commits + first.length) (land P F commits store first) second := by
  induction first generalizing commits store with
  | nil => rfl
  | cons transaction rest ih =>
    rw [List.cons_append, land, ih, land, List.length_cons, Nat.add_assoc, Nat.add_comm 1]

end Land

/-! ## How far a run gets -/

section Transacts
variable {P : Platform} {F : Cluster} {p q r : Progress} {α β : Type}
  {planned first second : List Transaction}

/-- The first `done` of the planned transactions were committed on the way from `p` to `q`,
and the first `fine` of them went well as far as the loader looks. -/
structure Landed (P : Platform) (F : Cluster) (planned : List Transaction) (p q : Progress)
    (done fine : Nat) : Prop where
  within : done ≤ planned.length
  commits : q.commits = p.commits + done
  store : q.store = land P F p.commits p.store (planned.take done)
  looked : ∀ k < fine, ∀ transaction, planned[k]? = some transaction → transaction.looked = true →
    F.commit (p.commits + k) = 0

/-- A program that commits the planned transactions one after the other, and stops after any of
them or in between; of those before the last one, none failed that it looks at. -/
def Transacts (P : Platform) (F : Cluster) (program : Load α) (p : Progress)
    (planned : List Transaction) :
    Prop :=
  match program.run p with
  | .ok _ q => Landed P F planned p q planned.length planned.length
  | .error _ q => ∃ done, Landed P F planned p q done (done - 1)

/-- Before the first transaction none of the planned ones has landed. -/
theorem Landed.start (planned : List Transaction) (same : q.commits = p.commits)
    (kept : q.store = p.store) : Landed P F planned p q 0 0 :=
  ⟨Nat.zero_le _, same, kept, fun _ impossible => absurd impossible (Nat.not_lt_zero _)⟩

/-- The second part of a plan goes on where the first ended, if all of the first has landed. -/
theorem Landed.trans {done fine : Nat} (before : Landed P F first p q first.length first.length)
    (after : Landed P F second q r done fine) :
    Landed P F (first ++ second) p r (first.length + done) (first.length + fine) := by
  have all := before.store
  rw [List.take_length] at all
  refine ⟨?_, ?_, ?_, ?_⟩
  · rw [List.length_append]
    exact Nat.add_le_add_left after.within _
  · rw [after.commits, before.commits, Nat.add_assoc]
  · rw [after.store, all, before.commits, List.take_length_add_append, land_append]
  · intro k below transaction found looked
    by_cases early : k < first.length
    · rw [List.getElem?_append_left early] at found
      exact before.looked k early transaction found looked
    · obtain ⟨later, rfl⟩ := Nat.exists_eq_add_of_le (Nat.le_of_not_lt early)
      rw [List.getElem?_append_right (Nat.le_add_right ..), Nat.add_sub_cancel_left] at found
      have fine := after.looked later (by omega) transaction found looked
      rwa [before.commits, Nat.add_assoc] at fine

theorem Landed.weaken {done fine fewer : Nat} (landed : Landed P F planned p q done fine)
    (less : fewer ≤ fine) : Landed P F planned p q done fewer :=
  { landed with looked := fun k below => landed.looked k (Nat.lt_of_lt_of_le below less) }

theorem Landed.more {done fine : Nat} (landed : Landed P F first p q done fine)
    (fits : fine ≤ first.length)
    (second : List Transaction) : Landed P F (first ++ second) p q done fine := by
  refine ⟨?_, landed.commits, ?_, ?_⟩
  · rw [List.length_append]
    exact Nat.le_trans landed.within (Nat.le_add_right ..)
  · rw [landed.store, List.take_append_of_le_length landed.within]
  · intro k below transaction found looked
    rw [List.getElem?_append_left (Nat.lt_of_lt_of_le below fits)] at found
    exact landed.looked k below transaction found looked

/-- One program after the other commits the one plan after the other, and stops in the first if
that one stops. -/
theorem Transacts.bind {program : Load α} {next : α → Load β} (here : Transacts P F program p first)
    (there : ∀ a q, program.run p = .ok a q → Transacts P F (next a) q second) :
    Transacts P F (program >>= next) p (first ++ second) := by
  unfold Transacts at here ⊢
  rw [show (program >>= next).run p = EStateM.bind program next p from rfl, EStateM.bind]
  cases ran : program p with
  | error message q =>
    rw [show program.run p = program p from rfl, ran] at here
    obtain ⟨done, landed⟩ := here
    exact ⟨done, landed.more (by have := landed.within; omega) second⟩
  | ok a q =>
    rw [show program.run p = program p from rfl, ran] at here
    have after := there a q ran
    unfold Transacts at after
    rw [show (next a).run q = next a q from rfl] at after
    change match next a q with
      | .ok _ r => Landed P F (first ++ second) p r (first ++ second).length (first ++ second).length
      | .error _ r => ∃ done, Landed P F (first ++ second) p r done (done - 1)
    cases went : next a q with
    | ok b r =>
      rw [went] at after
      simpa only [List.length_append] using here.trans after
    | error message r =>
      rw [went] at after
      obtain ⟨done, landed⟩ := after
      exact ⟨first.length + done, (here.trans landed).weaken (by omega)⟩

theorem Transacts.quiet {program : Load α}
    (kept : ∀ q, (∃ a, program.run p = .ok a q) ∨ (∃ message, program.run p = .error message q) →
      q.commits = p.commits ∧ q.store = p.store) :
    Transacts P F program p [] := by
  unfold Transacts
  split
  · rename_i a q ran
    obtain ⟨same, store⟩ := kept q (.inl ⟨a, ran⟩)
    exact .start [] same store
  · rename_i message q ran
    obtain ⟨same, store⟩ := kept q (.inr ⟨message, ran⟩)
    exact ⟨0, .start [] same store⟩

private theorem Transacts.quiet_bind {program : Load α} {next : α → Load β}
    (here : Transacts P F program p [])
    (there : ∀ a q, program.run p = .ok a q → Transacts P F (next a) q planned) :
    Transacts P F (program >>= next) p planned := here.bind there

private theorem Transacts.bind_quiet {program : Load α} {next : α → Load β}
    (here : Transacts P F program p planned) (there : ∀ a q, Transacts P F (next a) q []) :
    Transacts P F (program >>= next) p planned := by
  have both := here.bind fun a q _ => there a q
  rwa [List.append_nil] at both

/-- The loader looks at a commit if it does not go on after one that failed. -/
theorem Transacts.looking {program : Load α} {rows : List (Key × Bytes)}
    (transacts : Transacts P F program p [⟨rows, false⟩])
    (checks : ∀ a q, program.run p = .ok a q → F.commit p.commits = 0) :
    Transacts P F program p [⟨rows, true⟩] := by
  unfold Transacts at transacts ⊢
  cases ran : program.run p with
  | ok a q =>
    rw [ran] at transacts
    refine ⟨transacts.within, transacts.commits, transacts.store, fun k below _ _ _ => ?_⟩
    rw [Nat.lt_one_iff.mp below]
    exact checks a q ran
  | error message q =>
    rw [ran] at transacts
    obtain ⟨done, landed⟩ := transacts
    have few : done ≤ 1 := landed.within
    refine ⟨done, landed.within, landed.commits, ?_, fun k below => absurd below (by omega)⟩
    rw [landed.store]
    obtain rfl | rfl : done = 0 ∨ done = 1 := by omega
    · rfl
    · rfl

/-! ## The calls of the loader -/

private theorem transacts_checkFdb (err : FdbErrorT) (msg : String) (p : Progress) :
    Transacts P F (checkFdb F err msg) p [] := by
  refine .quiet fun q ran => ?_
  unfold checkFdb at ran
  split at ran
  · rcases ran with ⟨_, ok⟩ | ⟨_, error⟩
    · cases ok
    · cases error
      exact ⟨rfl, rfl⟩
  · rcases ran with ⟨_, ok⟩ | ⟨_, error⟩
    · cases ok
      exact ⟨rfl, rfl⟩
    · cases error

/-- Calls that only change the open transaction or the seed. -/
private theorem transacts_modifyGet (step : Progress → α × Progress)
    (commits : (step p).2.commits = p.commits) (store : (step p).2.store = p.store) :
    Transacts P F (modifyGet step : Load α) p [] := by
  refine .quiet fun q ran => ?_
  rcases ran with ⟨_, ok⟩ | ⟨_, error⟩
  · cases ok
    exact ⟨commits, store⟩
  · cases error

private theorem transacts_pure (a : α) (p : Progress) : Transacts P F (pure a : Load α) p [] :=
  transacts_modifyGet (fun p => (a, p)) rfl rfl

private theorem transacts_reset (p : Progress) : Transacts P F fdbTransactionReset p [] :=
  transacts_modifyGet _ rfl rfl

private theorem transacts_set (rows : Draw (List (Key × Bytes))) (p : Progress) :
    Transacts P F (fdbTransactionSet rows) p [] := transacts_modifyGet _ rfl rfl

private theorem transacts_commit (p : Progress) :
    Transacts P F (fdbTransactionCommit P F) p [⟨p.sets, false⟩] := by
  refine ⟨Nat.le_refl _, rfl, rfl, fun k below transaction found looked => ?_⟩
  rw [Nat.lt_one_iff.mp below] at found
  cases found
  cases looked

private theorem transacts_commitLast (waited : String) (p : Progress) :
    Transacts P F (commitLast P F waited) p [⟨p.sets, false⟩] := by
  refine (transacts_commit p).bind_quiet fun f q => ?_
  exact (transacts_checkFdb _ _ q).quiet_bind fun _ r _ => transacts_reset r

private theorem transacts_commitBatch (waited failed : String) (p : Progress) :
    Transacts P F (commitBatch P F waited failed) p [⟨p.sets, true⟩] := by
  refine .looking ?_ fun done q ran => (commitBatch_ok.mp ran).1.2
  refine (transacts_commit p).bind_quiet fun f q => ?_
  refine (transacts_checkFdb _ _ q).quiet_bind fun _ r _ => ?_
  exact (transacts_checkFdb _ _ r).quiet_bind fun _ s _ => transacts_reset s

/-! ## The tables -/

section Batches
variable {row : UInt32 → Draw (List (Key × Bytes))} {size : UInt32} {count : Nat} {waited failed : String}

/-- The row that fills a batch makes it whole. -/
private theorem batch_of_full (full : size.toNat ∣ count + 1) :
    (batched P row size p count).sets ++
        (row (UInt32.ofNat (count + 1))).value (batched P row size p count).generator =
      batch row size p.generator (count / size.toNat) := by
  have next : (count / size.toNat + 1) * size.toNat = count + 1 := by
    have whole := Nat.div_mul_cancel full
    rwa [Nat.succ_div, if_pos full] at whole
  have all : (Draw.each row (oneTo (count + 1))).value p.generator = _ :=
    congrArg Prod.fst (each_succ row count p.generator)
  have fewer := (each_front row p.generator (Nat.div_mul_le_self count size.toNat)).length_le
  rw [batch, next, all, List.drop_append_of_le_length fewer]
  rfl

private theorem fullBatches_succ (generator : Generator) :
    fullBatches row size generator (count + 1) = fullBatches row size generator count ++
      if size.toNat ∣ count + 1 then [⟨batch row size generator (count / size.toNat), true⟩] else [] := by
  unfold fullBatches
  rw [Nat.succ_div]
  split
  · rw [List.range_succ, List.map_append]
    rfl
  · rw [Nat.add_zero, List.append_nil]

private theorem transacts_batchRow (fits : count + 1 < 2 ^ 32) :
    Transacts P F (batchRow P F row size waited failed (UInt32.ofNat (count + 1)))
      (batched P row size p count)
      (if size.toNat ∣ count + 1 then [⟨batch row size p.generator (count / size.toNat), true⟩]
        else []) := by
  have divides : UInt32.ofNat (count + 1) % size = 0 ↔ size.toNat ∣ count + 1 := by
    rw [← UInt32.toNat_inj, UInt32.toNat_mod, UInt32.toNat_ofNat_of_lt' fits, Nat.dvd_iff_mod_eq_zero]
    rfl
  refine (transacts_set _ _).quiet_bind fun done q ran => ?_
  have set := run_modify_ok.mp ran
  by_cases full : size.toNat ∣ count + 1
  · rw [if_pos full, if_pos (divides.mpr full), ← batch_of_full full]
    have whole := transacts_commitBatch (P := P) (F := F) waited failed q
    rwa [← set] at whole ⊢
  · rw [if_neg full, if_neg (divides.not.mpr full)]
    exact transacts_pure () q

private theorem transacts_batches (fits : count < 2 ^ 32) (fresh : p.sets = []) :
    Transacts P F (batches P F row size waited failed count) p
      (fullBatches row size p.generator count) := by
  induction count with
  | zero =>
    rw [fullBatches, Nat.zero_div]
    exact transacts_pure () p
  | succ count ih =>
    have split : batches P F row size waited failed (count + 1) =
        (do batches P F row size waited failed count
            batchRow P F row size waited failed (UInt32.ofNat (count + 1))) := by
      simp [batches, oneTo_succ, List.forM_eq_forM]
    rw [split, fullBatches_succ]
    refine (ih (by omega)).bind fun done q ran => ?_
    obtain ⟨_, rfl⟩ := (batches_ok (by omega) fresh).mp ran
    exact transacts_batchRow fits

end Batches

/-- A table is filled in a transaction of its own, and what is left in it is committed last. -/
theorem transacts_loadTable {fill : Load Unit} {waited : String} {last : List (Key × Bytes)}
    (fills : Transacts P F fill { p with sets := [], transactions := p.transactions + 1 } planned)
    (leaves : ∀ done q, fill.run { p with sets := [], transactions := p.transactions + 1 } = .ok done q →
      q.sets = last) :
    Transacts P F (loadTable P F fill waited) p (planned ++ [⟨last, false⟩]) := by
  refine (transacts_modifyGet _ rfl rfl).quiet_bind fun err q ran => ?_
  cases ran
  refine (transacts_checkFdb _ _ _).quiet_bind fun _ q ran => ?_
  obtain ⟨_, rfl⟩ := checkFdb_ok.mp ran
  refine fills.bind fun _ q ran => ?_
  rw [← leaves _ q ran]
  exact transacts_commitLast waited q

/-- A table of batches that leave no row over. -/
private theorem transacts_batchTable {row : UInt32 → Draw (List (Key × Bytes))} {size : UInt32}
    {count : Nat}
    (fits : count < 2 ^ 32) (whole : size.toNat ∣ count) {waited failed last : String} :
    Transacts P F (loadTable P F (batches P F row size waited failed count) last) p
      (fullBatches row size p.generator count ++ [⟨[], false⟩]) := by
  refine transacts_loadTable (transacts_batches fits rfl) fun done q ran => ?_
  obtain ⟨_, rfl⟩ := (batches_ok fits rfl).mp ran
  simp only [batched, Nat.div_mul_cancel whole, List.drop_length]

/-- A table in one transaction. -/
private theorem transacts_wholeTable {rows : Draw (List (Key × Bytes))} {waited : String} :
    Transacts P F (loadTable P F (fdbTransactionSet rows) waited) p [⟨rows.value p.generator, false⟩] := by
  refine transacts_loadTable (transacts_set rows _) fun done q ran => ?_
  rw [← run_modify_ok.mp ran]
  rfl

private theorem transacts_loadItems (p : Progress) :
    Transacts P F (loadItems P F) p
      (fullBatches (loadItem P) batchSize p.generator itemCount.toNat ++ [⟨[], false⟩]) :=
  transacts_batchTable (by decide) (by decide)

private theorem transacts_loadWarehouse (W : Int32) (p : Progress) :
    Transacts P F (loadWarehouse P F W) p
      [⟨(Draw.each (H2oTpcc.loadWarehouse P) (oneTo W.toUInt32.toNat)).value p.generator, false⟩] := by
  rw [loadWarehouse, set_each]
  exact transacts_wholeTable

private theorem transacts_loadDistricts (W : Int32) (p : Progress) :
    Transacts P F (loadDistrictsAndNextOId P F W) p
      [⟨(Draw.each (fun w => Draw.each (loadDistrict P w) (oneTo districtsPerWarehouse.toNat))
        (oneTo W.toUInt32.toNat)).value p.generator, false⟩] := by
  simp only [loadDistrictsAndNextOId, set_each]
  exact transacts_wholeTable

private theorem transacts_loadWorldTable (p : Progress) :
    Transacts P F (loadWorldTable P F) p
      (fullBatches (loadWorld P) 1000 p.generator 10000 ++ [⟨[], false⟩]) :=
  transacts_batchTable (by decide) (by decide)

private theorem generator_after {rows : Draw (List (Key × Bytes))} {applied : Bool} {commits : Nat}
    (after : p.after P rows applied commits = q) : q.generator = (rows p.generator).2 := by
  rw [← after]
  rfl

/-- The loader commits its transactions in order until something stops it. -/
theorem transacts_main (W : Int32) (before : Store Bytes Bytes) :
    Transacts P F (main P F W) { store := before } (transactions P W) := by
  refine (transacts_checkFdb _ _ _).quiet_bind fun _ q ran => ?_
  obtain ⟨_, rfl⟩ := checkFdb_ok.mp ran
  refine (transacts_checkFdb _ _ _).quiet_bind fun _ q ran => ?_
  obtain ⟨_, rfl⟩ := checkFdb_ok.mp ran
  refine (transacts_checkFdb _ _ _).quiet_bind fun _ q ran => ?_
  obtain ⟨_, rfl⟩ := checkFdb_ok.mp ran
  refine (transacts_loadItems { store := before }).bind fun _ q₁ ran => ?_
  have seed₁ := generator_after (loadItems_ok.mp ran).2
  have warehouses := transacts_loadWarehouse (P := P) (F := F) W q₁
  rw [seed₁] at warehouses
  refine warehouses.bind fun _ q₂ ran => ?_
  have seed₂ := generator_after (loadWarehouse_ok.mp ran).2
  have districts := transacts_loadDistricts (P := P) (F := F) W q₂
  rw [seed₂, seed₁] at districts
  refine districts.bind fun _ q₃ ran => ?_
  have seed₃ := generator_after (loadDistrictsAndNextOId_ok.mp ran).2
  refine (transacts_pure () _).quiet_bind fun _ q₄ ran => ?_
  obtain ⟨_, rfl⟩ := run_pure_ok.mp ran
  have worlds := transacts_loadWorldTable (P := P) (F := F) q₃
  rw [seed₃, seed₂, seed₁] at worlds
  refine worlds.bind_quiet fun _ q₅ => ?_
  exact (transacts_checkFdb _ _ q₅).quiet_bind fun _ r _ => transacts_pure 0 r

end Transacts

/-! ## The rows of a load -/

section Rows
variable {P : Platform} {F : Cluster}

/-- Batches that leave no row over are all the rows, in order. -/
private theorem fullBatches_rows (row : UInt32 → Draw (List (Key × Bytes))) {size : UInt32} {count : Nat}
    (whole : size.toNat ∣ count) (generator : Generator) :
    (fullBatches row size generator count).flatMap Transaction.rows =
      (Draw.each row (oneTo count)).value generator := by
  have thousands (n : Nat) :
      ((List.range n).map fun k => (⟨batch row size generator k, true⟩ : Transaction)).flatMap
        Transaction.rows = (Draw.each row (oneTo (n * size.toNat))).value generator := by
    induction n with
    | zero => simp [oneTo, Draw.each]
    | succ n ih =>
      rw [List.range_succ, List.map_append, List.flatMap_append, ih, Nat.succ_mul]
      have front := each_front row generator (Nat.le_add_right (n * size.toNat) size.toNat)
      simpa [batch, Nat.succ_mul] using List.prefix_iff_eq_append.mp front
  rw [fullBatches, thousands, Nat.div_mul_cancel whole]

/-- The rows of a load, table after table, each with the seed that the one before left. -/
theorem loadIds_value (items warehouses districts worlds : List UInt32) (generator : Generator) :
    (loadIds P items warehouses districts worlds).value generator =
      let afterItems := (Draw.each (loadItem P) items generator).2
      let afterWarehouses := (Draw.each (H2oTpcc.loadWarehouse P) warehouses afterItems).2
      let afterDistricts :=
        (Draw.each (fun w => Draw.each (loadDistrict P w) districts) warehouses afterWarehouses).2
      (Draw.each (loadItem P) items).value generator ++
        (Draw.each (H2oTpcc.loadWarehouse P) warehouses).value afterItems ++
        (Draw.each (fun w => Draw.each (loadDistrict P w) districts) warehouses).value afterWarehouses ++
        (Draw.each (loadWorld P) worlds).value afterDistricts := rfl

private theorem plan_rows (first second : List Transaction) (warehouses districts : List (Key × Bytes)) :
    List.flatMap Transaction.rows ((first ++ [⟨[], false⟩]) ++ ([⟨warehouses, false⟩] ++
      ([⟨districts, false⟩] ++ (second ++ [⟨[], false⟩])))) =
    first.flatMap Transaction.rows ++ warehouses ++ districts ++ second.flatMap Transaction.rows := by
  simp

private theorem transactions_rows (W : Int32) :
    (transactions P W).flatMap Transaction.rows = loaderRows P W.toUInt32.toNat := by
  have items := fullBatches_rows (loadItem P) (show batchSize.toNat ∣ itemCount.toNat by decide)
  have worlds := fullBatches_rows (loadWorld P) (show UInt32.toNat 1000 ∣ 10000 by decide)
  rw [transactions, plan_rows, items, worlds, loaderRows, loadWarehouses, loadIds_value]

/-- The transactions that landed set some of the rows, in order. -/
private theorem land_sublist (planned : List Transaction) (commits : Nat) (store : Store Bytes Bytes) :
    ∃ rows, rows.Sublist (planned.flatMap Transaction.rows) ∧
      land P F commits store planned = applyWrites store (built P.host rows) := by
  induction planned generalizing commits store with
  | nil => exact ⟨[], .slnil, rfl⟩
  | cons transaction rest ih =>
    rw [List.flatMap_cons, land]
    split
    · obtain ⟨rows, some, same⟩ := ih (commits + 1) (applyWrites store (built P.host transaction.rows))
      refine ⟨transaction.rows ++ rows, some.append_left _, ?_⟩
      rw [same, built_append, applyWrites_append]
    · obtain ⟨rows, some, same⟩ := ih (commits + 1) store
      exact ⟨rows, some.trans (List.sublist_append_right ..), same⟩

/-! ## Each key once -/

/-- A loop sets the keys of its iterations, whatever it draws. -/
private theorem each_keys (step : α → Draw (List (Key × Bytes))) (keys : α → List Key)
    (sets : ∀ a generator, ((step a).value generator).map Prod.fst = keys a) (loop : List α)
    (generator : Generator) :
    ((Draw.each step loop).value generator).map Prod.fst = loop.flatMap keys := by
  induction loop generalizing generator with
  | nil => rfl
  | cons a rest ih =>
    simp only [Draw.each, Draw.value_bind, Draw.value_pure, List.map_append, List.flatMap_cons, sets, ih]

/-- The keys of a load of these ids, in order. -/
def keysOf (items warehouses districts worlds : List UInt32) : List Key :=
  items.map .item ++ (warehouses.map .warehouse ++
    ((warehouses.flatMap fun w => districts.flatMap fun d => [.district w d, .nextOId w d]) ++
      worlds.map .world))

private theorem loadIds_keys (items warehouses districts worlds : List UInt32) (generator : Generator) :
    ((loadIds P items warehouses districts worlds).value generator).map Prod.fst =
      keysOf items warehouses districts worlds := by
  have item := each_keys (loadItem P) (fun i => [.item i]) (fun _ _ => rfl) items
  have warehouse := each_keys (H2oTpcc.loadWarehouse P) (fun w => [.warehouse w])
    (fun _ _ => rfl) warehouses
  have pair (w : UInt32) := each_keys (loadDistrict P w) (fun d => [.district w d, .nextOId w d])
    (fun _ _ => rfl) districts
  have district := each_keys _ _ pair warehouses
  have world := each_keys (loadWorld P) (fun i => [.world i]) (fun _ _ => rfl) worlds
  rw [loadIds_value]
  simp only [List.map_append, item, warehouse, district, world, keysOf, List.append_assoc]
  simp only [List.map_eq_flatMap]

private theorem oneTo_nodup {count : Nat} (fits : count < 2 ^ 32) : (oneTo count).Nodup := by
  refine (List.nodup_range.map_on ?_)
  intro i low j high same
  have numbers := congrArg UInt32.toNat same
  rw [List.mem_range] at low high
  rw [UInt32.toNat_ofNat_of_lt' (show i + 1 < 2 ^ 32 by omega),
    UInt32.toNat_ofNat_of_lt' (show j + 1 < 2 ^ 32 by omega)] at numbers
  omega

/-- Each key of a load is set once. -/
private theorem keysOf_nodup {items warehouses districts worlds : List UInt32} (item : items.Nodup)
    (warehouse : warehouses.Nodup) (district : districts.Nodup) (world : worlds.Nodup) :
    (keysOf items warehouses districts worlds).Nodup := by
  have pairs (w : UInt32) : (districts.flatMap fun d => [Key.district w d, .nextOId w d]).Nodup := by
    refine List.nodup_flatMap.mpr ⟨by simp, district.imp fun apart => ?_⟩
    simpa [List.disjoint_left] using apart
  have all : (warehouses.flatMap fun w =>
      districts.flatMap fun d => [Key.district w d, .nextOId w d]).Nodup := by
    refine List.nodup_flatMap.mpr ⟨fun w _ => pairs w, warehouse.imp fun apart => ?_⟩
    simp only [Function.onFun, List.disjoint_left, List.mem_flatMap]
    grind
  have items' := item.map fun _ _ => Key.item.inj
  have warehouses' := warehouse.map fun _ _ => Key.warehouse.inj
  have worlds' := world.map fun _ _ => Key.world.inj
  -- Keys of different tables differ.
  refine List.nodup_append.mpr ⟨items', List.nodup_append.mpr ⟨warehouses',
    List.nodup_append.mpr ⟨all, worlds', ?_⟩, ?_⟩, ?_⟩
  all_goals
    simp only [List.mem_append, List.mem_map, List.mem_flatMap]
    grind

private theorem loaderRows_keys (P : Platform) (count : Nat) :
    (loaderRows P count).map Prod.fst = keysOf (oneTo itemCount.toNat) (oneTo count)
      (oneTo districtsPerWarehouse.toNat) (oneTo 10000) := loadIds_keys ..

private theorem loaderRows_nodup (P : Platform) (W : Int32) :
    ((loaderRows P W.toUInt32.toNat).map Prod.fst).Nodup := by
  rw [loaderRows_keys]
  exact keysOf_nodup (oneTo_nodup (by decide)) (oneTo_nodup W.toUInt32.toNat_lt)
    (oneTo_nodup (by decide)) (oneTo_nodup (by decide))

private theorem mem_loaderRows_keys {W : Int32} (positive : 1 ≤ W) (key : Key) :
    key ∈ (loaderRows P W.toUInt32.toNat).map Prod.fst ↔ InLoad W key := by
  have number := toUInt32_of_pos positive
  have warehouse (w : UInt32) : w ∈ oneTo W.toUInt32.toNat ↔ 1 ≤ w.toNat ∧ (w.toNat : Int) ≤ W.toInt := by
    rw [mem_oneTo W.toUInt32.toNat_lt]
    omega
  have item (i : UInt32) : i ∈ oneTo itemCount.toNat ↔ 1 ≤ i.toNat ∧ i.toNat ≤ 100000 :=
    mem_oneTo (by decide)
  have district (d : UInt32) : d ∈ oneTo districtsPerWarehouse.toNat ↔ 1 ≤ d.toNat ∧ d.toNat ≤ 10 :=
    mem_oneTo (by decide)
  have world (i : UInt32) : i ∈ oneTo 10000 ↔ 1 ≤ i.toNat ∧ i.toNat ≤ 10000 := mem_oneTo (by decide)
  rw [loaderRows_keys]
  cases key <;> simp [keysOf, InLoad, warehouse, item, district, world]

end Rows

/-! ## Whole loads -/

section Loads
variable {P : Platform} {F : Cluster}

/-- How far a load got, in its store. -/
private theorem execute_landed (W : Int32) (before : Store Bytes Bytes) :
    ∃ done ≤ (transactions P W).length,
      (execute P F W before).2 = land P F 0 before ((transactions P W).take done) ∧
      (∀ k, k + 1 < done → ∀ transaction, (transactions P W)[k]? = some transaction →
        transaction.looked = true → F.commit k = 0) ∧
      ((execute P F W before).1 = 0 → done = (transactions P W).length) := by
  have landed := transacts_main (P := P) (F := F) W before
  unfold Transacts at landed
  unfold execute
  cases ran : (main P F W).run { store := before } with
  | ok status q =>
    rw [ran] at landed
    refine ⟨_, Nat.le_refl _, landed.store, fun k below transaction found looked => ?_, fun _ => rfl⟩
    have fine := landed.looked k (by omega) transaction found looked
    rwa [Nat.zero_add] at fine
  | error message q =>
    rw [ran] at landed
    obtain ⟨done, landed⟩ := landed
    refine ⟨done, landed.within, landed.store, fun k below transaction found looked => ?_, nofun⟩
    have fine := landed.looked k (by omega) transaction found looked
    rwa [Nat.zero_add] at fine

/-- Wherever a load stops, the store has the first so many of its transactions, each whole or
not at all; those before the last one landed unless nobody looked. The transactions are
fixed: together they set every key of the load, and each of them once. -/
theorem load_is_transactional {W : Int32} (positive : 1 ≤ W) (before : Store Bytes Bytes) :
    (∃ done ≤ (transactions P W).length,
      (execute P F W before).2 = land P F 0 before ((transactions P W).take done) ∧
      (∀ k, k + 1 < done → ∀ transaction, (transactions P W)[k]? = some transaction →
        transaction.looked = true → F.commit k = 0) ∧
      ((execute P F W before).1 = 0 → done = (transactions P W).length)) ∧
    (((transactions P W).flatMap Transaction.rows).map Prod.fst).Nodup ∧
    ∀ key, key ∈ ((transactions P W).flatMap Transaction.rows).map Prod.fst ↔ InLoad W key := by
  rw [transactions_rows]
  exact ⟨execute_landed W before, loaderRows_nodup P W, mem_loaderRows_keys positive⟩

/-- The second batch of items is not committed. -/
def cutShort : Cluster := { calm with commit := fun k => if k = 1 then 1031 else 0 }

/-- One warehouse, and a load whose cluster fails in the middle: what is there is a front of the
plan. -/
theorem load_is_transactional_cutShort :
    1 ≤ (1 : Int32) ∧ ∃ done ≤ (transactions plainPlatform 1).length,
      (execute plainPlatform cutShort 1 ∅).2 =
        land plainPlatform cutShort 0 ∅ ((transactions plainPlatform 1).take done) := by
  have one : 1 ≤ (1 : Int32) := by decide
  obtain ⟨⟨done, within, store, _⟩, _⟩ := load_is_transactional (P := plainPlatform) (F := cutShort) one ∅
  exact ⟨one, done, within, store⟩

/-- A load sets rows of its own, whatever fails. -/
private theorem execute_rows (W : Int32) (before : Store Bytes Bytes) :
    ∃ rows, rows.Sublist (loaderRows P W.toUInt32.toNat) ∧
      (execute P F W before).2 = applyWrites before (built P.host rows) := by
  obtain ⟨done, _, store, _⟩ := execute_landed (P := P) (F := F) W before
  obtain ⟨rows, some, same⟩ := land_sublist (P := P) (F := F) ((transactions P W).take done) 0 before
  refine ⟨rows, some.trans ?_, store.trans same⟩
  rw [← transactions_rows]
  nth_rewrite 2 [← List.take_append_drop done (transactions P W)]
  rw [List.flatMap_append]
  exact List.sublist_append_left ..

/-- One load after the other. -/
def loads (P : Platform) (W : Int32) (before : Store Bytes Bytes) (runs : List Cluster) :
    Store Bytes Bytes :=
  runs.foldl (fun store F => (execute P F W store).2) before

/-- Under every key there is what was there before, or what a load generates. -/
theorem loads_tables (W : Int32) (before : Store Bytes Bytes) (runs : List Cluster) (key : Key) :
    tables P.host (loads P W before runs) key = tables P.host before key ∨
      ∃ value, generated P W key = some value ∧ tables P.host (loads P W before runs) key = some value := by
  induction runs generalizing before with
  | nil => exact .inl rfl
  | cons F rest ih =>
    rw [show loads P W before (F :: rest) = loads P W (execute P F W before).2 rest from rfl]
    rcases ih (execute P F W before).2 with kept | loaded
    · obtain ⟨rows, some, store⟩ := execute_rows (P := P) (F := F) W before
      rw [kept, store, tables_applyWrites]
      cases set : lastWrite rows key with
      | none => exact .inl (Option.none_or ..)
      | some value =>
        have member := some.subset (mem_of_lastWrite set)
        exact .inr ⟨value, lastWrite_of_nodup (loaderRows_nodup P W) member, Option.some_or ..⟩
    · exact .inr loaded

/-- What the loads before left is set again by one that gets through. -/
private theorem loaded_loads (W : Int32) (before : Store Bytes Bytes) (runs : List Cluster) :
    loaded P W.toUInt32.toNat (loads P W before runs) = loaded P W.toUInt32.toNat before := by
  induction runs generalizing before with
  | nil => rfl
  | cons F rest ih =>
    refine (ih (execute P F W before).2).trans ?_
    obtain ⟨rows, some, store⟩ := execute_rows (P := P) (F := F) W before
    rw [loaded, store]
    refine applyWrites_covered before fun write member => ?_
    obtain ⟨row, inside, rfl⟩ := List.mem_map.mp member
    exact ⟨_, List.mem_map_of_mem (some.subset inside), rfl⟩

/-- Loads that fail, however and however often, do no harm: the store holds what it held or
what a load generates, and one load that gets through and loses no commit leaves what a
single load of the first store would have left. -/
theorem failed_loads_are_repaired {W : Int32} (positive : 1 ≤ W) (before : Store Bytes Bytes)
    (runs : List Cluster) (exits : (execute P F W (loads P W before runs)).1 = 0)
    (warehouses : F.commit 101 = 0) (districts : F.commit 102 = 0) :
    (∀ key, tables P.host (loads P W before runs) key = tables P.host before key ∨
      ∃ value, generated P W key = some value ∧
        tables P.host (loads P W before runs) key = some value) ∧
    (execute P F W (loads P W before runs)).2 = loaded P W.toUInt32.toNat before ∧
    Complete P W (execute P F W (loads P W before runs)).2 := by
  have whole : (execute P F W (loads P W before runs)).2 = loaded P W.toUInt32.toNat before := by
    rw [execute_loaded (execute_finished.mp exits) warehouses districts, loaded_loads]
  refine ⟨loads_tables W before runs, whole, fun key inside => ?_⟩
  obtain ⟨value, found⟩ := generated_some (P := P) positive inside
  refine ⟨value, found, ?_⟩
  rw [whole, loaded, tables_applyWrites,
    show lastWrite (loaderRows P W.toUInt32.toNat) key = some value from found,
    Option.some_or]

/-- A load that was cut short is made up for by the next: the store is the one of a single load. -/
theorem failed_loads_are_repaired_calm :
    1 ≤ (1 : Int32) ∧ (execute plainPlatform calm 1 (loads plainPlatform 1 ∅ [cutShort])).1 = 0 ∧
      (execute plainPlatform calm 1 (loads plainPlatform 1 ∅ [cutShort])).2 = loaded plainPlatform 1 ∅ := by
  have exits : (execute plainPlatform calm 1 (loads plainPlatform 1 ∅ [cutShort])).1 = 0 :=
    execute_finished.mpr calm_checked
  exact ⟨by decide, exits, (failed_loads_are_repaired (by decide) ∅ [cutShort] exits rfl rfl).2.1⟩

end Loads

end H2oTpcc.Loader

import H2oTpcc.Loader
import H2oTpcc.QuietRuns
import H2oTpcc.UpdateDraws

/-! The World table under `/updates`. The loader fills the ids from 1 to 10000 with
numbers below 10000. Ids are drawn from 2 to 10001, so one draw in ten thousand adds a
row that was never loaded, and one reads past the end of the cache. -/
namespace H2oTpcc

/-! ## The table -/

/-- The ids that are loaded. -/
def InTable (id : UInt32) : Prop := 1 ≤ id.toNat ∧ id.toNat ≤ 10000

/-- What lies under `tfb/w/` is one row for each id of the table, with a number below
10000, all in network byte order. -/
structure WorldIntact (store : Store Bytes Bytes) : Prop where
  keys : ∀ key, literal tfbWorldPrefix <+: key →
    (store[key]?.isSome ↔ ∃ id, InTable id ∧ key = literal tfbWorldPrefix ++ kvEncodeU32Be id)
  values : ∀ key value, literal tfbWorldPrefix <+: key → store[key]? = some value →
    ∃ number : UInt32, number.toNat ≤ 9999 ∧ value = kvEncodeU32Be number

private theorem worldKey_in_world (host : Endian) (id : UInt32) :
    literal tfbWorldPrefix <+: worldKey host id := by
  rw [worldKey_eq]
  exact List.prefix_append _ _

/-- A row of the table, as it is stored. -/
def WorldRow (key value : Bytes) : Prop :=
  (∃ id, InTable id ∧ key = literal tfbWorldPrefix ++ kvEncodeU32Be id) ∧
    ∃ number : UInt32, number.toNat ≤ 9999 ∧ value = kvEncodeU32Be number

/-- Sets of rows of the table leave it intact if afterwards no row is missing and
nothing else was there before. -/
theorem intact_applyWrites {store : Store Bytes Bytes} {writes : List (Bytes × Bytes)}
    (before : ∀ key value, literal tfbWorldPrefix <+: key → store[key]? = some value → WorldRow key value)
    (sets : ∀ key value, lastWrite writes key = some value → WorldRow key value)
    (complete : ∀ id, InTable id →
      (applyWrites store writes)[literal tfbWorldPrefix ++ kvEncodeU32Be id]?.isSome) :
    WorldIntact (applyWrites store writes) := by
  have rows (key value : Bytes) (world : literal tfbWorldPrefix <+: key)
      (found : (applyWrites store writes)[key]? = some value) : WorldRow key value := by
    rw [applyWrites_get] at found
    rcases Option.or_eq_some_iff.mp found with set | ⟨_, kept⟩
    · exact sets key value set
    · exact before key value world kept
  constructor
  · intro key world
    constructor
    · intro present
      obtain ⟨value, found⟩ := Option.isSome_iff_exists.mp present
      exact (rows key value world found).1
    · rintro ⟨id, known, rfl⟩
      exact complete id known
  · exact fun key value world found => (rows key value world found).2

/-- The loop of the loader runs over the ids from 1 up to its count, as `uint32_t`. -/
theorem mem_oneTo {count : Nat} (fits : count < 2 ^ 32) {id : UInt32} :
    id ∈ oneTo count ↔ 1 ≤ id.toNat ∧ id.toNat ≤ count := by
  simp only [oneTo, List.mem_map, List.mem_range]
  constructor
  · rintro ⟨i, below, rfl⟩
    rw [UInt32.toNat_ofNat_of_lt' (show i + 1 < 2 ^ 32 by omega)]
    omega
  · rintro ⟨least, most⟩
    refine ⟨id.toNat - 1, by omega, ?_⟩
    rw [Nat.sub_add_cancel least, UInt32.ofNat_toNat]

section Load
variable {P : Platform} {generator : Generator}

private theorem mem_loadWorld {id : UInt32} {row : Key × Bytes}
    (member : row ∈ (loadWorld P id).value generator) :
    row.1 = .world id ∧ ∃ number : UInt32, number.toNat ≤ 9999 ∧ row.2 = kvEncodeU32Be number := by
  simp only [loadWorld, Draw.value_bind, Draw.value_pure, value_randR,
    value_rem P _ (show (10000 : UInt32) ≠ 0 by decide), List.mem_singleton, uint32Bytes_htonl] at member
  refine ⟨by rw [member], _, ?_, by rw [member]⟩
  rw [UInt32.toNat_mod]
  exact Nat.le_of_lt_succ (Nat.mod_lt _ (by decide))

/-- The loader leaves the table intact in every store that had nothing of it. -/
theorem loadWorldTable_intact {before : Store Bytes Bytes}
    (absent : ∀ key, literal tfbWorldPrefix <+: key → before[key]? = none) :
    WorldIntact (loadWorldTable P generator before) := by
  have inside {id : UInt32} : id ∈ oneTo 10000 ↔ InTable id := mem_oneTo (by decide)
  refine intact_applyWrites (fun key value world found => ?_) (fun key value set => ?_) fun id known => ?_
  · rw [absent key world] at found
    cases found
  · -- Every set of the load is the row of an id of the table.
    obtain ⟨row, loaded, same⟩ := List.mem_map.mp (mem_of_lastWrite set)
    obtain ⟨id, listed, _, found⟩ := Draw.mem_each loaded
    obtain ⟨named, bounded⟩ := mem_loadWorld found
    cases same
    exact ⟨⟨id, inside.mp listed, by rw [named, Key.build, worldKey_eq]⟩, bounded⟩
  · obtain ⟨generator', kept⟩ := Draw.each_mem (loadWorld P) (inside.mpr known) generator
    obtain ⟨row, member⟩ : ∃ row, row ∈ (loadWorld P id).value generator' :=
      ⟨_, List.mem_singleton.mpr rfl⟩
    obtain ⟨named, _⟩ := mem_loadWorld member
    rw [applyWrites_get, Option.isSome_or, Bool.or_eq_true, Option.isSome_iff_ne_none, ne_eq,
      lastWrite_eq_none]
    left
    intro unset
    refine unset _ (List.mem_map.mpr ⟨row, kept row member, rfl⟩) ?_
    rw [named, Key.build, worldKey_eq]

end Load

/-! ## One commit -/

/-- A request whose rows are all in the table, and that leaves no number above 9999 in
one of them: a row that is listed twice keeps the number of its last place. -/
def Harmless (ctx : UpdateCtx) : Prop :=
  ∀ i < ctx.numResult, (ctx.ids i).toNat ≤ 10000 ∧
    ((∀ j < ctx.numResult, ctx.ids j = ctx.ids i → j ≤ i) → (ctx.randomNumbers i).toNat ≤ 9999)

section Update
variable {P : Platform} {store : Store Bytes Bytes} {ctx : UpdateCtx}

private theorem harmless_of_intact (after : WorldIntact (applyWrites store (Update.sets P ctx))) :
    Harmless ctx := by
  intro i below
  constructor
  · -- The row is there after the commit, so its id is one of the table's.
    have present : (applyWrites store (Update.sets P ctx))[worldKey P.host (ctx.ids i)]?.isSome := by
      rw [applyWrites_get, Option.isSome_or, Bool.or_eq_true]
      left
      rw [Option.isSome_iff_ne_none, ne_eq, lastWrite_eq_none]
      exact fun unset => unset _ (List.mem_map.mpr ⟨i, List.mem_range.mpr below, rfl⟩) rfl
    obtain ⟨id, known, same⟩ := (after.keys _ (worldKey_in_world _ _)).mp present
    rw [← worldKey_eq P.host] at same
    rw [worldKey_injective P.host same]
    exact known.2
  · intro last
    have found := lastWrite_range_some (fun i => worldKey P.host (ctx.ids i))
      (fun i => uint32Bytes P.host (htonl P.host (ctx.randomNumbers i))) below
      fun j small same => last j small (worldKey_injective P.host same)
    obtain ⟨number, small, same⟩ := after.values (worldKey P.host (ctx.ids i)) _
      (worldKey_in_world _ _) (by rw [applyWrites_get, Update.sets, found, Option.some_or])
    rw [uint32Bytes_htonl] at same
    rwa [kvEncodeU32Be_injective same]

/-- An update whose ids are in the table and whose last numbers are in range leaves the table
intact. -/
theorem WorldIntact.update (intact : WorldIntact store)
    (positive : ∀ i < ctx.numResult, 1 ≤ (ctx.ids i).toNat) (harmless : Harmless ctx) :
    WorldIntact (applyWrites store (Update.sets P ctx)) := by
  refine intact_applyWrites (fun key value world found => ?_) (fun key value set => ?_) fun id known => ?_
  · exact ⟨(intact.keys key world).mp (by rw [found]; rfl), intact.values key value world found⟩
  · obtain ⟨i, below, rfl, rfl, last⟩ := last_of_lastWrite_range set
    obtain ⟨most, small⟩ := harmless i below
    exact ⟨⟨_, ⟨positive i below, most⟩, worldKey_eq _ _⟩,
      _, small fun j within same => last j within (by rw [same]), uint32Bytes_htonl _ _⟩
  · rw [applyWrites_get, Option.isSome_or, Bool.or_eq_true]
    exact .inr ((intact.keys _ (List.prefix_append _ _)).mpr ⟨id, known, rfl⟩)

/-- An `/updates` keeps an intact table intact exactly if it is harmless. -/
private theorem update_intact_iff (intact : WorldIntact store)
    (positive : ∀ i < ctx.numResult, 1 ≤ (ctx.ids i).toNat) :
    WorldIntact (applyWrites store (Update.sets P ctx)) ↔ Harmless ctx :=
  ⟨harmless_of_intact, intact.update positive⟩

end Update

/-! ## The draws -/

/-- None of the first `count` draws from this seed is the last residue. -/
def AvoidsLast (P : Platform) (seed : UInt32) (count : Nat) : Prop :=
  ∀ k < count, (rawDraw P seed k).toNat % 10000 ≠ 9999

instance AvoidsLast.decidable (P : Platform) (seed : UInt32) (count : Nat) :
    Decidable (AvoidsLast P seed count) :=
  inferInstanceAs (Decidable (∀ k < count, (rawDraw P seed k).toNat % 10000 ≠ 9999))

/-- The draws of a request avoid the last residue: each id's does, and the number's does wherever
no later place has the same id. -/
def HarmlessDraws (P : Platform) (inputs : Inputs (Option Int32)) : Prop :=
  let count := getQueryNumber inputs.parameters
  ∀ i < count, (inputs.idDraw P i).toNat % 10000 ≠ 9999 ∧
    ((∀ j < count, (inputs.idDraw P j).toNat ≡ (inputs.idDraw P i).toNat [MOD 10000] → j ≤ i) →
      (inputs.numberDraw P i true).toNat % 10000 ≠ 9999)

section Draws
variable (P : Platform)

/-- The id made of a draw is in the table unless the draw was the last residue. -/
theorem inTable_iff {id : UInt32} {raw : Nat} (made : id.toNat = 2 + raw % 10000) :
    InTable id ↔ raw % 10000 ≠ 9999 := by
  have small : raw % 10000 < 10000 := Nat.mod_lt _ (by decide)
  unfold InTable
  omega

private theorem drawIds_inTable_iff (seed : UInt32) (count : Nat) :
    (∀ i < count, InTable ((Update.drawIds P (fun _ => 0) (List.range count)).value { seed } i)) ↔
      AvoidsLast P seed count := by
  refine forall₂_congr fun i below => inTable_iff ?_
  have made := drawIds_range P (fun _ => 0) { seed } 0 below
  rwa [Nat.zero_add, ← List.range_eq_range'] at made

variable (cache : Vector UInt16 10001)

private theorem cachedRows_length (count : Nat) (generator : Generator) :
    ((cachedRows P cache count).value generator).length = count := by
  induction count generalizing generator with
  | zero => rfl
  | succ count ih =>
    rw [cachedRows, Draw.value_bind, Draw.value_bind, Draw.value_pure, List.length_cons, ih]

/-- Each row of the answer is made of the draw of its number. -/
private theorem cachedRows_get {count k : Nat} {row : UInt32 × Option UInt16} (generator : Generator)
    (found : ((cachedRows P cache count).value generator)[k]? = some row) :
    row.1.toNat = 2 + (rawDraw P generator.seed k).toNat % 10000 ∧ row.2 = cache[row.1.toNat]? := by
  induction count generalizing generator k with
  | zero => cases found
  | succ count ih =>
    rw [cachedRows, Draw.value_bind, Draw.value_bind, Draw.value_pure] at found
    cases k with
    | zero =>
      rw [List.getElem?_cons_zero, Option.some_inj] at found
      subst found
      exact ⟨getRandomWorldId_value P generator, rfl⟩
    | succ k =>
      rw [List.getElem?_cons_succ] at found
      have later := ih _ found
      rwa [seed_getRandomWorldId] at later

/-- The drawn ids are all in the table exactly if no draw is the last residue. -/
theorem cachedRows_inTable_iff (seed : UInt32) (count : Nat) :
    (∀ row ∈ (cachedRows P cache count).value { seed }, InTable row.1) ↔ AvoidsLast P seed count := by
  constructor
  · intro all k below
    have inside : k < ((cachedRows P cache count).value { seed }).length := by
      rwa [cachedRows_length]
    have found := List.getElem?_eq_getElem inside
    exact (inTable_iff (cachedRows_get P cache { seed } found).1).mp (all _ (List.getElem_mem inside))
  · intro avoids row member
    obtain ⟨k, found⟩ := List.getElem?_of_mem member
    have inside := (List.getElem?_eq_some_iff.mp found).1
    rw [cachedRows_length] at inside
    exact (inTable_iff (cachedRows_get P cache { seed } found).1).mpr (avoids k inside)

/-- An entry is read inside the cache exactly if its id is in the table. -/
private theorem entry_isSome_iff {row : UInt32 × Option UInt16} {generator : Generator} {count : Nat}
    (member : row ∈ (cachedRows P cache count).value generator) :
    row.2.isSome ↔ InTable row.1 := by
  obtain ⟨k, found⟩ := List.getElem?_of_mem member
  obtain ⟨made, entry⟩ := cachedRows_get P cache generator found
  have bound : row.2.isSome ↔ row.1.toNat < 10001 := by
    rw [entry]
    simp
  rw [bound]
  unfold InTable
  omega

end Draws

private theorem mapM_isSome_iff {rows : List α} {f : α → Option β} :
    (rows.mapM f).isSome ↔ ∀ row ∈ rows, (f row).isSome := by
  induction rows with
  | nil => simp
  | cons row rest ih =>
    rw [List.mapM_cons, List.forall_mem_cons, ← ih]
    cases f row <;> cases rest.mapM f <;> simp

/-- A request to `/cached-worlds` stays inside the cache exactly if its ids are in the table. -/
theorem cachedWorldsHandler_isSome_iff (P : Platform) (parameter : Option Int32) (seed : UInt32) :
    ((cachedWorldsHandler P parameter).value { seed }).isSome ↔
      AvoidsLast P seed (getQueryNumber parameter) := by
  rw [← cachedRows_inTable_iff P (worldCache P), cachedWorldsHandler, Draw.value_bind, Draw.value_pure,
    Option.isSome_map, mapM_isSome_iff]
  refine forall₂_congr fun row member => ?_
  rw [Option.isSome_map, entry_isSome_iff P (worldCache P) member]

/-! ## Whole runs -/

abbrev UpdateSession := Session UpdateCtx UpdateCallback Bytes Bytes Response

section Runs
variable {P : Platform} {base : Store Bytes Bytes} {world : World UpdateSession Bytes Bytes}

/-- Every row of an intact table can be read, with its four bytes. -/
theorem WorldIntact.holdsRow {store : Store Bytes Bytes} (intact : WorldIntact store) (host : Endian)
    {id : UInt32} (known : InTable id) : holdsRow host (fun key => store[key]?) id = true := by
  have present := (intact.keys _ (worldKey_in_world host id)).mpr ⟨id, known, worldKey_eq host id⟩
  obtain ⟨value, found⟩ := Option.isSome_iff_exists.mp present
  obtain ⟨number, _, rfl⟩ := intact.values _ value (worldKey_in_world host id) found
  simp [H2oTpcc.holdsRow, found, worldNumber, kvEncodeU32Be]

/-- On an intact table a request is harmless just if its draws are: a row that it reads is
there, so its number is made of the first draw. -/
theorem harmless_iff {store : Store Bytes Bytes} {inputs : Inputs (Option Int32)} {ctx : UpdateCtx}
    (intact : WorldIntact store) (drawn : Update.DrawnFrom P inputs ctx fun key => store[key]?)
    (complete : ctx.numResult = ctx.numQuery) (count : ctx.numQuery = getQueryNumber inputs.parameters) :
    Harmless ctx ↔ HarmlessDraws P inputs := by
  rw [Harmless, HarmlessDraws, complete, count]
  refine forall₂_congr fun i below => ?_
  rw [← count] at below
  have id := drawn.ids i below
  have small := Nat.mod_lt (inputs.idDraw P i).toNat (show 0 < 10000 by decide)
  have inside : (ctx.ids i).toNat ≤ 10000 ↔ (inputs.idDraw P i).toNat % 10000 ≠ 9999 := by omega
  rw [inside]
  refine and_congr_right fun avoids => ?_
  have number := drawn.numbers i (complete ▸ below)
  rw [intact.holdsRow P.host (show InTable (ctx.ids i) from ⟨by omega, inside.mpr avoids⟩)] at number
  have bound := Nat.mod_lt (inputs.numberDraw P i true).toNat (show 0 < 10000 by decide)
  refine imp_congr (forall₂_congr fun j below' => imp_congr ?_ Iff.rfl) (by omega)
  rw [← UInt32.toNat_inj, id, drawn.ids j (count ▸ below'), Nat.add_left_cancel_iff]
  rfl

variable {events : List (Event (Option Int32))}
  (ran : (World.initial base).run (updatesChain P).client events = some world)
include ran

/-- Every commit holds the sets of rows that its request has drawn. -/
private theorem update_log {version : Nat} {commit : Commit Bytes Bytes (Nat × UpdateSession)}
    (logged : world.db.log[version]? = some commit) :
    ∃ inputs, (history events).committed[version]? = some inputs ∧
      commit.writes = Update.sets P commit.author.2.ctx ∧
      (∀ i < commit.author.2.ctx.numResult, 1 ≤ (commit.author.2.ctx.ids i).toNat) ∧
      (WorldIntact (world.db.asOf version) →
        (Harmless commit.author.2.ctx ↔ HarmlessDraws P inputs)) := by
  obtain ⟨inputs, attempt, noted, _, writes, asks, reads, drawing⟩ :=
    (World.run_kept Update.requestInvariant ran).author version commit logged
  obtain ⟨_, count, complete, sets, known⟩ := Update.Drawing.commit drawing asks
  have drawn := known (fun key => (world.db.asOf version)[key]?) reads
  refine ⟨inputs, noted, writes ▸ sets, fun i below => ?_, fun intact => ?_⟩
  · rw [drawn.ids i (complete ▸ below)]
    omega
  · exact harmless_iff intact drawn complete count

/-- A table that was intact stays so in every version exactly if the draws of every commit are
harmless. -/
theorem versions_intact_iff (intact : WorldIntact base) :
    (∀ version ≤ world.db.log.length, WorldIntact (world.db.asOf version)) ↔
      ∀ inputs ∈ (history events).committed, HarmlessDraws P inputs := by
  have commits := (World.run_kept Update.requestInvariant ran).commits
  constructor
  · intro all inputs member
    obtain ⟨version, noted⟩ := List.getElem?_of_mem member
    have below : version < world.db.log.length := commits ▸ (List.getElem?_eq_some_iff.mp noted).1
    have logged := List.getElem?_eq_getElem below
    obtain ⟨inputs', noted', writes, positive, draws⟩ := update_log ran logged
    cases noted.symm.trans noted'
    have before := all version (Nat.le_of_lt below)
    have after := all (version + 1) below
    rw [world.db.asOf_succ logged, writes] at after
    exact (draws before).mp ((update_intact_iff before positive).mp after)
  · intro harmless version
    induction version with
    | zero =>
      intro _
      rwa [Database.asOf_zero, World.reachable_base ⟨events, ran⟩]
    | succ version ih =>
      intro below
      have logged := List.getElem?_eq_getElem below
      obtain ⟨inputs, noted, writes, positive, draws⟩ := update_log ran logged
      have before := ih (Nat.le_of_lt below)
      rw [world.db.asOf_succ logged, writes]
      exact (update_intact_iff before positive).mpr
        ((draws before).mpr (harmless inputs (List.mem_of_getElem? noted)))

end Runs

section Starts
variable (P : Platform) (parameter : Option Int32) {answers : Answers} (allocated : answers.alloc = true)
include allocated

private theorem db_id_inTable_iff :
    InTable ((dbChain P).start () answers).ctx.id ↔ AvoidsLast P answers.seed 1 := by
  have drawn : ((dbChain P).start () answers).ctx.id =
      (getRandomWorldId P).value { seed := answers.seed } := by
    simp only [Chain.start, dbChain, SingleQuery.dbHandler, run_openRequest, allocated, if_true]
    split <;> simp
  have first : AvoidsLast P answers.seed 1 ↔ (rawDraw P answers.seed 0).toNat % 10000 ≠ 9999 := by
    simp [AvoidsLast]
  rw [drawn, first]
  exact inTable_iff (getRandomWorldId_value P _)

private theorem updates_ids_inTable_iff :
    (∀ i < getQueryNumber parameter, InTable (((updatesChain P).start parameter answers).ctx.ids i)) ↔
      AvoidsLast P answers.seed (getQueryNumber parameter) := by
  have drawn : ((updatesChain P).start parameter answers).ctx.ids =
      (Update.drawIds P (fun _ => 0) (List.range (getQueryNumber parameter))).value
        { seed := answers.seed } := by
    rw [Update.run_start, if_pos allocated]
    generalize getQueryNumber parameter = n
    dsimp only
    split
    · rw [Session.submit_ctx]
    · rfl
  rw [drawn, drawIds_inTable_iff]

private theorem queries_ids_inTable_iff :
    (∀ i < getQueryNumber parameter, InTable
        (((MultiQuery.queriesHandler P parameter).run answers { ctx := {} }).2.ctx.ids i)) ↔
      AvoidsLast P answers.seed (getQueryNumber parameter) := by
  have drawn : ((MultiQuery.queriesHandler P parameter).run answers { ctx := {} }).2.ctx.ids =
      (Update.drawIds P (fun _ => 0) (List.range (getQueryNumber parameter))).value
        { seed := answers.seed } := by
    have more : 0 ≠ getQueryNumber parameter := Nat.ne_of_lt (getQueryNumber_pos parameter)
    unfold MultiQuery.queriesHandler
    generalize getQueryNumber parameter = n at more
    simp only [run_openRequest, allocated, if_true, Prog.run_bind,
      Prog.run_draw, Prog.run_store]
    rw [Prog.run_forRange_skip answers _ _ _ fun i session => Prog.run_index ..]
    split
    · simp [MultiQuery.multiQueryNext, more]
    · rfl
  rw [drawn, drawIds_inTable_iff]

end Starts

/-- **The World table stays as it was loaded** in every version of a run of `/updates` exactly if
no request that commits has drawn the last residue for an id, or for the number of an id's last
place; and the ids of a request are in the table, with its reads of the cache inside it, exactly
if no draw is the last residue. -/
theorem world_table_intact_iff {P : Platform} {before : Store Bytes Bytes}
    (absent : ∀ key, literal tfbWorldPrefix <+: key → before[key]? = none) (generator : Generator)
    {world : World UpdateSession Bytes Bytes} {events : List (Event (Option Int32))}
    (ran : (World.initial (loadWorldTable P generator before)).run (updatesChain P).client events =
      some world)
    (parameter : Option Int32) (answers : Answers) (allocated : answers.alloc = true) :
    ((∀ version ≤ world.db.log.length, WorldIntact (world.db.asOf version)) ↔
      ∀ inputs ∈ (history events).committed, HarmlessDraws P inputs) ∧
    (InTable ((dbChain P).start () answers).ctx.id ↔ AvoidsLast P answers.seed 1) ∧
    ((∀ i < getQueryNumber parameter, InTable
        (((MultiQuery.queriesHandler P parameter).run answers { ctx := {} }).2.ctx.ids i)) ↔
      AvoidsLast P answers.seed (getQueryNumber parameter)) ∧
    ((∀ i < getQueryNumber parameter, InTable (((updatesChain P).start parameter answers).ctx.ids i)) ↔
      AvoidsLast P answers.seed (getQueryNumber parameter)) ∧
    ((∀ row ∈ (cachedRows P (worldCache P) (getQueryNumber parameter)).value { seed := answers.seed },
        InTable row.1) ↔ AvoidsLast P answers.seed (getQueryNumber parameter)) ∧
    (((cachedWorldsHandler P parameter).value { seed := answers.seed }).isSome ↔
      AvoidsLast P answers.seed (getQueryNumber parameter)) :=
  ⟨versions_intact_iff ran (loadWorldTable_intact absent), db_id_inTable_iff P allocated,
    queries_ids_inTable_iff P parameter allocated, updates_ids_inTable_iff P parameter allocated,
    cachedRows_inTable_iff P (worldCache P) answers.seed _,
    cachedWorldsHandler_isSome_iff P parameter answers.seed⟩

/-! ## One request -/

/-- The context of a request for one row when it commits. -/
def oneRow (P : Platform) (seed : UInt32) (found : Bool) : UpdateCtx :=
  { (Update.withRow P found {
      numQuery := 1
      ids := (Update.drawIds P (fun _ => 0) [0]).value { seed } }).value { seed } with phase := true }

/-- A request for one row can commit in every world. -/
private theorem one_update (P : Platform) (world : World UpdateSession Bytes Bytes) (seed : UInt32) :
    ∃ reads world' author found, world.run (updatesChain P).client ([.start none { seed }] ++
        (reads ++ [.settle world.connections.length .committed { seed }])) = some world' ∧
      (∀ event ∈ reads, ∃ version, event = .settle world.connections.length (.read version) { seed }) ∧
      world'.db = world.db.append ⟨author, Update.sets P (oneRow P seed found)⟩ := by
  let ids := (Update.drawIds P (fun _ => 0) [0]).value { seed }
  let view : Bytes → Option Bytes := fun key => world.db.store[key]?
  let found := (worldNumber P.host (view (worldKey P.host (ids 0)))).isSome
  let session : UpdateSession :=
    { ctx := { numQuery := 1, ids }
      pending := some (.get (worldKey P.host (ids 0)), .updateOnRead) }
  let after : UpdateSession :=
    { ctx := oneRow P seed found
      pending := some (.commit, .updateOnCommit)
      sets := Update.sets P (oneRow P seed found) }
  have opened : (updatesChain P).start none { seed } = session := Update.run_start P { seed } none
  have ran : (Update.updateOnRead P (.value (view (worldKey P.host (ids 0))))).run { seed }
      { session with pending := none, sets := [] } = ((), after) := by
    obtain ⟨query, result, _⟩ := Update.withRow_frame P session.ctx { seed } found
    have last : ¬ ((Update.withRow P found session.ctx).value { seed }).numResult <
        ((Update.withRow P found session.ctx).value { seed }).numQuery := by
      rw [result, query]
      exact Nat.lt_irrefl 1
    rw [Update.run_updateOnRead_value, if_neg last, Update.run_updateDoWrites]
    rfl
  have quiet : (updatesChain P).client.Quiet { seed } view ((updatesChain P).client.start none { seed }) []
      after after.sets := by
    change (updatesChain P).client.Quiet { seed } view ((updatesChain P).start none { seed }) [] _ _
    rw [opened]
    exact Chain.quiet_read (updatesChain P) rfl ran .refl
  obtain ⟨reads, world', ran, only, grown⟩ := World.solo_run none { seed } quiet rfl
  exact ⟨reads, world', _, found, ran, only, grown⟩

/-- The request whose draw is the last residue commits row 10001, which was not loaded,
and `/cached-worlds` reads past the end of its cache. -/
theorem update_adds_row :
    (∃ world, World.Reachable (updatesChain plainPlatform).client
        (loadWorldTable plainPlatform { seed := 42 } ∅) world ∧
      world.db.store[worldKey .little 10001]?.isSome ∧ ¬ WorldIntact world.db.store) ∧
    (cachedWorldsHandler plainPlatform none).value { seed := 9999 } = none := by
  constructor
  · obtain ⟨reads, world, author, found, ran, _, grown⟩ := one_update plainPlatform
      (World.initial (loadWorldTable plainPlatform { seed := 42 } ∅)) 9999
    have set : ∃ value, lastWrite (Update.sets plainPlatform (oneRow plainPlatform 9999 found))
        (worldKey .little 10001) = some value := by
      cases found <;> exact ⟨_, rfl⟩
    obtain ⟨value, set⟩ := set
    have present : world.db.store[worldKey .little 10001]? = some value := by
      rw [grown]
      change (applyWrites _ _)[_]? = _
      rw [applyWrites_get, set, Option.some_or]
    refine ⟨world, ⟨_, ran⟩, by rw [present]; rfl, fun intact => ?_⟩
    obtain ⟨id, known, same⟩ := (intact.keys _ (worldKey_in_world _ _)).mp (by rw [present]; rfl)
    rw [← worldKey_eq .little] at same
    rw [← worldKey_injective .little same] at known
    exact absurd known.2 (by decide)
  · rw [← Option.not_isSome_iff_eq_none, cachedWorldsHandler_isSome_iff]
    exact fun avoids => avoids 0 (by decide) (by decide)

/-- A request whose draws are all inside the table leaves it intact, and so are the ids of the
other handlers with that seed. -/
theorem world_table_intact_iff_one : ∃ world,
    World.Reachable (updatesChain plainPlatform).client
      (loadWorldTable plainPlatform { seed := 42 } ∅) world ∧ world.db.log.length = 1 ∧
    WorldIntact world.db.store ∧ InTable ((dbChain plainPlatform).start () {}).ctx.id ∧
    ((cachedWorldsHandler plainPlatform none).value { seed := 0 }).isSome := by
  obtain ⟨reads, world, author, found, ran, only, grown⟩ := one_update plainPlatform
    (World.initial (loadWorldTable plainPlatform { seed := 42 } ∅)) 0
  obtain ⟨versions, drawn, _, _, _, cached⟩ := world_table_intact_iff
    (fun key _ => by simp) { seed := 42 } ran none {} rfl
  have avoids : AvoidsLast plainPlatform 0 1 := by decide
  refine ⟨world, ⟨_, ran⟩, by rw [grown]; rfl, ?_, drawn.mpr avoids, cached.mpr avoids⟩
  refine versions.mpr (fun inputs member => ?_) world.db.log.length (Nat.le_refl _)
  have uniform : inputs.Uniform none {} := (history_uniform (by
    simp only [List.mem_append, List.mem_singleton]
    rintro event (rfl | read | rfl)
    · exact .inl rfl
    · obtain ⟨version, rfl⟩ := only event read
      exact .inr ⟨_, _, rfl⟩
    · exact .inr ⟨_, _, rfl⟩)).2 inputs member
  have seed (k : Nat) : inputs.seed k = 0 := by
    unfold Inputs.seed
    cases heard : inputs.answers[k]? with
    | none => rfl
    | some answer =>
      rw [uniform.answers answer (List.mem_of_getElem? heard)]
      rfl
  intro i below
  rw [uniform.parameters] at below
  obtain rfl : i = 0 := Nat.lt_one_iff.mp below
  simp only [Inputs.idDraw, Inputs.numberDraw, seed]
  exact ⟨by decide, fun _ => by decide⟩

end H2oTpcc

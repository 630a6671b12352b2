import H2oTpcc.CommitAnswers
import H2oTpcc.Ledger
import H2oTpcc.UpdateReports

/-! Which request writes which table, over whole runs of the server. Every table is
written by one kind of request at most, and the tables that a load is to fill are never
extended: an order or a payment writes such a row only after it has read it. The loader
loads no customers, so after it no order is placed and no payment is made, in any run. -/
namespace H2oTpcc

abbrev ServerCommit := Commit Bytes Bytes (Nat × ServerState)

/-- The tables that a request sets rows of. -/
def writesTo : ServerState → List Table
  | .inl (.inl _) => [.oorder, .newOrder, .orderLine, .nextOId, .stock]
  | .inl (.inr _) => [.warehouse, .district, .customer, .history]
  | .inr (.inl _) => []
  | .inr (.inr (.inl _)) => []
  | .inr (.inr (.inr _)) => [.world]

/-- The tables whose rows are there before the first request. -/
def masterTables : List Table := [.warehouse, .district, .customer, .customerName, .item, .stock]

/-! ## One commit -/

/-- The rows that a request's commit sets, on the tables it is made on: all in tables of
its own, and those of the master tables are there already. -/
structure Sets (P : Platform) (state : ServerState) (before : Key → Option Bytes)
    (writes : List (Bytes × Bytes)) (rows : List (Key × Bytes)) : Prop where
  writes : writes = built P.host rows
  owned : ∀ row ∈ rows, row.1.table ∈ writesTo state
  held : ∀ row ∈ rows, row.1.table ∈ masterTables → (before row.1).isSome

section Commits
variable {P : Platform} {before : Key → Option Bytes} {writes : List (Bytes × Bytes)}

private theorem asRow_held {ρ : Type} [PackedRow ρ] {host : Endian} {value : Option Bytes} {row : ρ}
    (read : asRow host value = some row) : value.isSome := by
  cases value with
  | none => cases read
  | some buffer => rfl

private theorem sets_order {session : Session NewOrderCtx NewOrderCallback Bytes Bytes Response}
    (commits : NewOrder.Commits P session.ctx before writes) :
    ∃ rows, Sets P (.inl (.inl session)) before writes rows := by
  obtain ⟨fits, reads, now, made⟩ := commits
  refine ⟨_, made, NewOrder.rows_tables P session.ctx now, fun row member master => ?_⟩
  have owned := NewOrder.rows_tables P session.ctx now row member
  obtain ⟨key, value⟩ := row
  -- Stock is the one master table among those of an order.
  cases key with
  | stock w i =>
    obtain ⟨line, below, ⟨rfl, rfl⟩, _⟩ := NewOrder.mem_rows_stock.mp member
    obtain ⟨sv, read, _⟩ := reads.stock line below
    exact asRow_held read
  | oorder | newOrder | orderLine | nextOId | history | world => simp [masterTables, Key.table] at master
  | warehouse | district | customer | customerName | item => simp [Key.table] at owned

private theorem sets_payment {session : Session PaymentCtx PaymentCallback Bytes Bytes Response}
    (commits : Payment.Commits P session.ctx before writes) :
    ∃ rows, Sets P (.inl (.inr session)) before writes rows := by
  obtain ⟨⟨wv, warehouse, _⟩, ⟨dv, district, _⟩, cv, now, customer, made⟩ := commits
  refine ⟨_, made, fun row member => ?_, fun row member master => ?_⟩
  · simp only [Payment.rows, List.mem_cons, List.not_mem_nil, or_false] at member
    rcases member with rfl | rfl | rfl | rfl <;> simp [writesTo, Key.table]
  · simp only [Payment.rows, List.mem_cons, List.not_mem_nil, or_false] at member
    rcases member with rfl | rfl | rfl | rfl
    · exact asRow_held warehouse
    · exact asRow_held district
    · exact asRow_held customer.row
    · simp [masterTables, Key.table] at master

private theorem sets_update (session : Session UpdateCtx UpdateCallback Bytes Bytes Response) :
    Sets P (.inr (.inr (.inr session))) before (Update.sets P session.ctx)
      ((Update.rows session.ctx).map fun row => (.world row.1, kvEncodeU32Be row.2)) where
  writes := by
    rw [Update.sets_eq, built, List.map_map]
    rfl
  owned row member := by
    obtain ⟨_, _, rfl⟩ := List.mem_map.mp member
    simp [writesTo, Key.table]
  held row member master := by
    obtain ⟨_, _, rfl⟩ := List.mem_map.mp member
    simp [masterTables, Key.table] at master

private theorem sets_nothing (state : ServerState) : Sets P state before [] [] :=
  ⟨rfl, fun _ member => (by cases member), fun _ member => (by cases member)⟩

/-- What a kind of request commits are rows of its own tables, computed from the version before
the commit. -/
theorem ServerCommits.sets {state : ServerState} {view : Bytes → Option Bytes}
    (commits : ServerCommits P state view writes) :
    ∃ rows, Sets P state (tablesOf P.host view) writes rows := by
  rcases state with (session | session) | session | session | session
  · exact sets_order commits
  · exact sets_payment commits
  · obtain rfl : writes = [] := commits
    exact ⟨[], sets_nothing _⟩
  · obtain rfl : writes = [] := commits
    exact ⟨[], sets_nothing _⟩
  · obtain rfl : writes = Update.sets P session.ctx := commits
    exact ⟨_, sets_update session⟩

/-- An order or a payment is made for a customer that is there. -/
theorem ServerCommits.customer {state : TpccState} {view : Bytes → Option Bytes}
    (commits : ServerCommits P (.inl state) view writes) :
    ∃ w d c, (tablesOf P.host view (.customer w d c)).isSome := by
  cases state with
  | inl session =>
    obtain ⟨_, reads, _⟩ := commits
    obtain ⟨cv, read⟩ := reads.customer
    exact ⟨_, _, _, asRow_held read⟩
  | inr session =>
    obtain ⟨_, _, cv, _, customer, _⟩ := commits
    exact ⟨_, _, _, asRow_held customer.row⟩

end Commits

/-! ## Whole runs -/

section Runs
variable {P : Platform} {base : Store Bytes Bytes} {world : World ServerState Bytes Bytes}

private theorem server_log (reachable : World.Reachable (serverClient P) base world)
    {commit : ServerCommit}
    (logged : world.db.log[version]? = some commit) :
    ServerCommits P commit.author.2 (fun key => (world.db.asOf version)[key]?) commit.writes :=
  World.serial_log (ServerCommits P) (server_invariant P) (fun _ _ => server_commits) reachable version
    commit logged

/-- The server's induction over commits. -/
private theorem server_induction {Q : Store Bytes Bytes → Prop}
    (reachable : World.Reachable (serverClient P) base world) (start : Q base)
    (step : ∀ version commit rows, world.db.log[version]? = some commit →
      Sets P commit.author.2 (tables P.host (world.db.asOf version)) commit.writes rows →
      Q (world.db.asOf version) → Q (applyWrites (world.db.asOf version) (built P.host rows)))
    (within : version ≤ world.db.log.length) : Q (world.db.asOf version) := by
  induction version with
  | zero => rwa [Database.asOf_zero, World.reachable_base reachable]
  | succ version ih =>
    have logged : world.db.log[version]? = some (world.db.log.get ⟨version, within⟩) :=
      List.getElem?_eq_getElem within
    obtain ⟨rows, sets⟩ := (server_log reachable logged).sets
    rw [world.db.asOf_succ logged, sets.writes]
    exact step version _ rows logged sets (ih (Nat.le_of_lt within))

/-- No row of a master table is added or removed. -/
private theorem master_rows_stay (reachable : World.Reachable (serverClient P) base world) {key : Key}
    (master : key.table ∈ masterTables) (within : version ≤ world.db.log.length) :
    (tables P.host (world.db.asOf version) key).isSome = (tables P.host base key).isSome := by
  refine server_induction (Q := fun store => (tables P.host store key).isSome =
    (tables P.host base key).isSome) reachable rfl (fun version commit rows logged sets same => ?_) within
  rw [tables_applyWrites]
  cases found : lastWrite rows key with
  | none => rwa [Option.none_or]
  | some value =>
    rw [Option.some_or, ← same, sets.held _ (mem_of_lastWrite found) master]
    rfl

/-- The row is what a request wrote to whom its table belongs. -/
def WrittenByOwner (P : Platform) (log : List ServerCommit) (key : Key) (row : Option Bytes) : Prop :=
  ∃ commit ∈ log, key.table ∈ writesTo commit.author.2 ∧
    ∃ value, (key.build P.host, value) ∈ commit.writes ∧ row = some value

/-- A row that has changed was last written by a request to whom its table belongs. -/
theorem changed_by_owner (reachable : World.Reachable (serverClient P) base world) {key : Key}
    (changed : tables P.host world.db.store key ≠ tables P.host base key) :
    WrittenByOwner P world.db.log key (tables P.host world.db.store key) := by
  refine server_induction (Q := fun store => tables P.host store key ≠ tables P.host base key →
    WrittenByOwner P world.db.log key (tables P.host store key)) reachable
    (fun changed => absurd rfl changed) (fun version commit rows logged sets written => ?_)
    (Nat.le_refl _) changed
  rw [tables_applyWrites]
  cases found : lastWrite rows key with
  | none => rwa [Option.none_or]
  | some value =>
    have member := mem_of_lastWrite found
    refine fun _ => ⟨commit, List.mem_of_getElem? logged, sets.owned _ member, value, ?_, ?_⟩
    · rw [sets.writes]
      exact mem_built.mpr member
    · rw [Option.some_or]

/-- What is not a key of a table is not written. -/
private theorem outside_stays (reachable : World.Reachable (serverClient P) base world) {key : Bytes}
    (outside : ∀ row : Key, row.build P.host ≠ key) : world.db.store[key]? = base[key]? := by
  refine server_induction (Q := fun store => store[key]? = base[key]?) reachable rfl
    (fun version commit rows logged sets same => ?_) (Nat.le_refl _)
  rw [applyWrites_get, lastWrite_eq_none.mpr, Option.none_or, same]
  intro row member
  obtain ⟨entry, _, rfl⟩ := List.mem_map.mp member
  exact outside entry.1

end Runs

/-- **Every table has one writer.** In every run of the server, master tables keep exactly
the rows they have before the first request, a row that has changed is what a request of
the one kind that its table belongs to has written, and nothing else in the store changes. -/
theorem tables_have_owners {P : Platform} {base : Store Bytes Bytes}
    {world : World ServerState Bytes Bytes} (reachable : World.Reachable (serverClient P) base world) :
    (∀ key : Key, key.table ∈ masterTables →
      (tables P.host world.db.store key).isSome = (tables P.host base key).isSome) ∧
    (∀ key : Key, tables P.host world.db.store key ≠ tables P.host base key →
      WrittenByOwner P world.db.log key (tables P.host world.db.store key)) ∧
    ∀ key : Bytes, (∀ row : Key, row.build P.host ≠ key) → world.db.store[key]? = base[key]? :=
  ⟨fun _ master => master_rows_stay reachable master (Nat.le_refl _), fun _ => changed_by_owner reachable,
    fun _ => outside_stays reachable⟩

/-- An update of a row of the World table on an empty store: the row was written by a request of
the kind that owns the table. -/
theorem tables_have_owners_update : ∃ world,
    (World.initial ∅).run (serverClient plainPlatform) (oneUpdate ++ [.settle 0 .committed {}]) =
      some world ∧
    tables .little world.db.store (.world 2) = some [0, 0, 0, 2] ∧
    WrittenByOwner plainPlatform world.db.log (.world 2) (some [0, 0, 0, 2]) := by
  have ran : ∃ world, (World.initial ∅).run (serverClient plainPlatform)
      (oneUpdate ++ [.settle 0 .committed {}]) = some world ∧
      tables .little world.db.store (.world 2) = some [0, 0, 0, 2] := ⟨_, rfl, rfl⟩
  obtain ⟨world, ran, row⟩ := ran
  have written := (tables_have_owners ⟨_, ran⟩).2.1 (.world 2) (by
    change tables .little _ _ ≠ tables .little _ _
    rw [row]
    exact fun same => by cases same)
  exact ⟨world, ran, row, row ▸ written⟩

/-! ## The load without customers -/

section Stub
variable {P : Platform} {base : Store Bytes Bytes} {world : World ServerState Bytes Bytes}

/-- There is no customer. -/
def NoCustomers (P : Platform) (store : Store Bytes Bytes) : Prop :=
  ∀ w d c, tables P.host store (.customer w d c) = none

private theorem loaded_noCustomers {before : Store Bytes Bytes} (none : NoCustomers P before) (W : Nat) :
    NoCustomers P (loaded P W before) :=
  fun w d c => (loaded_other before (by simp [Key.table])).trans (none w d c)

/-- The server never adds a customer: on a store without customers there are none in any later
version. -/
theorem NoCustomers.reachable (none : NoCustomers P base)
    (reachable : World.Reachable (serverClient P) base world) (within : version ≤ world.db.log.length) :
    NoCustomers P (world.db.asOf version) := by
  intro w d c
  have master : (Key.customer w d c).table ∈ masterTables := by simp [masterTables, Key.table]
  have stays := master_rows_stay reachable master within
  rwa [none, Option.isSome_none, Option.isSome_eq_false_iff, Option.isNone_iff_eq_none] at stays

private theorem NoCustomers.no_commit {state : TpccState} {writes : List (Bytes × Bytes)}
    {store : Store Bytes Bytes}
    (none : NoCustomers P store) :
    ¬ ServerCommits P (.inl state) (fun key => store[key]?) writes := by
  intro commits
  obtain ⟨w, d, c, held⟩ := commits.customer
  have absent : tablesOf P.host (fun key => store[key]?) (.customer w d c) = Option.none := none w d c
  rw [absent] at held
  cases held

/-- Who places an order or makes a payment is not told of success. -/
def Unsuccessful (world : World ServerState Bytes Bytes) : Prop :=
  ∀ connection ∈ world.connections, ∀ state, connection.client = .inl state →
    (replyOf state).map Response.ok ≠ some true

/-- A settled operation of an order or a payment does not lead to success. -/
theorem NoCustomers.resume (none : NoCustomers P base)
    (reachable : World.Reachable (serverClient P) base world)
    {connection : Connection ServerState Bytes Bytes}
    {db : Database Bytes Bytes (Nat × ServerState)} {attempt : Attempt Bytes Bytes}
    {future : Future Bytes Bytes}
    {answers : Answers} (member : connection ∈ world.connections)
    (pending : (serverClient P).pending connection.client = some operation)
    (settles : Settles world.db (i, connection.client) connection.attempt operation verdict db attempt
      future)
    {state : TpccState}
    (next : ((serverClient P).resume answers connection.client future).1 = .inl state) :
    (replyOf state).map Response.ok ≠ some true := by
  obtain ⟨holds, faithful⟩ := World.reachable_connections (server_invariant P) reachable connection member
  have unanswered : (answerOf connection.client).map Response.ok = Option.none := by
    by_contra answered
    rw [World.answered_idle (server_invariant P) (server_replies P) reachable connection member answered]
      at pending
    cases pending
  have success := ((server_replies P).resume answers holds pending unanswered settles.delivers).1
  rw [next] at success
  intro told
  have acknowledges := success.mp told
  obtain rfl := commit_of_answersSuccess acknowledges
  obtain ⟨client, clientAttempt⟩ := connection
  cases client with
  | inr other =>
    rcases other with _ | _ | _ <;> cases next
  | inl client =>
    obtain rfl := World.committed_of_acknowledged settles acknowledges
    cases settles with
    | committed clear =>
      exact (none.reachable reachable (Nat.le_refl _)).no_commit
        (server_commits holds pending _ (Attempt.reads_current faithful clear))

private theorem NoCustomers.unsuccessful (none : NoCustomers P base)
    (reachable : World.Reachable (serverClient P) base world) : Unsuccessful world := by
  refine World.reachable_invariant (P := Unsuccessful) (fun _ member => (by cases member)) ?_ reachable
  intro world event world' reached unsuccessful stepped
  rcases World.step_cases stepped with ⟨parameters, answers, rfl, rfl⟩ |
    ⟨i, verdict, answers, connection, operation, attempt, future, rfl, found, pending, settles, moved⟩
  · intro connection member state same
    rcases List.mem_append.mp member with old | new
    · exact unsuccessful connection old state same
    · cases List.mem_singleton.mp new
      have fresh := ((server_replies P).start parameters answers).1
      rwa [show (serverClient P).start parameters answers = .inl state from same] at fresh
  · intro other member state same
    rw [moved] at member
    rcases List.mem_or_eq_of_mem_set member with old | rfl
    · exact unsuccessful other old state same
    · exact none.resume reached (List.mem_of_getElem? found) pending settles same

end Stub

/-- **The loader's load sells nothing.** Whatever is asked of the server after a load of a
store without customers, and however its requests are interleaved, no order and no payment
is committed or answered with success, and only the World table ever changes. -/
theorem loaded_sells_nothing {P : Platform} {before : Store Bytes Bytes} {W : Nat}
    {world : World ServerState Bytes Bytes} (none : NoCustomers P before)
    (reachable : World.Reachable (serverClient P) (loaded P W before) world) :
    (∀ commit ∈ world.db.log, ∀ state, commit.author.2 ≠ .inl state) ∧
    (∀ connection ∈ world.connections, ∀ state response, connection.client = .inl state →
      replyOf state = some response → response.ok = false) ∧
    ∀ key : Key, key.table ≠ .world →
      tables P.host world.db.store key = tables P.host (loaded P W before) key := by
  have empty := loaded_noCustomers none W
  have silent : ∀ commit ∈ world.db.log, ∀ state, commit.author.2 ≠ .inl state := by
    intro commit member state author
    obtain ⟨version, logged⟩ := List.mem_iff_getElem?.mp member
    have within := (List.getElem?_eq_some_iff.mp logged).1
    have commits := server_log reachable logged
    rw [author] at commits
    exact (empty.reachable reachable (Nat.le_of_lt within)).no_commit commits
  refine ⟨silent, fun connection member state response same told => ?_, fun key other => ?_⟩
  · have failed := empty.unsuccessful reachable connection member state same
    rw [told, Option.map_some, ne_eq, Option.some_inj] at failed
    exact Bool.eq_false_iff.mpr failed
  · by_contra changed
    obtain ⟨commit, member, owned, _⟩ := changed_by_owner reachable changed
    have author := silent commit member
    rcases state : commit.author.2 with tpcc | session | session | session
    · exact author tpcc state
    all_goals
      rw [state] at owned
      simp [writesTo, other] at owned

/-- Undisturbed, a payment that finds its warehouse and its district but no customer reads all
three and says that the customer is missing. -/
theorem Payment.quiet_no_customer {P : Platform} {params : PaymentParams} {view : Bytes → Option Bytes}
    {wv : WarehouseVal} {dv : DistrictVal}
    (warehouse : asRow P.host (tablesOf P.host view (.warehouse params.wId)) = some wv)
    (district : asRow P.host (tablesOf P.host view (.district params.cWId params.cDId)) = some dv)
    (absent : ∀ c, tablesOf P.host view (.customer params.cWId params.cDId c) = none) :
    ∃ session, (paymentChain P).client.Quiet {} view ((paymentChain P).start params {}) [] session [] ∧
      session.reply = some (.error 500 "Error" "customer not found") := by
  let ctx := withDistrict P dv (withWarehouse wv params.ctx)
  obtain ⟨_, cw, cd, _⟩ := withDistrict_frame P dv (withWarehouse wv params.ctx)
  have missing : (asRow P.host (view (kvCustomerKey ctx.cWId ctx.cDId ctx.cId)) :
      Option CustomerVal) = none := by
    simp only [ctx, cw, cd]
    exact congrArg (asRow P.host) (absent _)
  refine ⟨{ ctx, reply := some (.error 500 "Error" "customer not found") }, ?_, rfl⟩
  rw [start_waits P params 0]
  apply (paymentChain P).quiet_row rfl rfl warehouse (run_onWarehouse _ _ wv)
  apply (paymentChain P).quiet_row rfl rfl district (run_onDistrict P _ _ dv)
  exact (paymentChain P).quiet_missing rfl rfl missing (run_finishPayment _ _ 500 "customer not found")
    .refl

/-- A payment on the load of an empty store reads its warehouse and its district, and fails for want
of a customer. -/
theorem loaded_sells_nothing_payment : ∃ reads world session attempt response,
    (World.initial (loaded plainPlatform 1 ∅)).run (serverClient plainPlatform)
      (.start (.inl (.inr (smallPayment 1))) {} :: reads) = some world ∧
    (∀ event ∈ reads, ∃ version, event = .settle 0 (.read version) {}) ∧
    world.connections[0]? = some ⟨.inl (.inr session), attempt⟩ ∧ session.reply = some response ∧
    response = .error 500 "Error" "customer not found" ∧ response.ok = false ∧ world.db.log = [] := by
  have empty : NoCustomers plainPlatform ∅ := fun w d c => by simp [tables, tablesOf]
  obtain ⟨wv, warehouse, _⟩ := loaded_warehouse (P := plainPlatform) (w := 1) (W := 1) ∅ (by decide)
  obtain ⟨_, dv, district, _⟩ := loaded_district (P := plainPlatform) (w := 1) (d := 1) (W := 1) ∅
    (by decide) (by decide)
  obtain ⟨session, quiet, told⟩ : ∃ session, (paymentChain plainPlatform).client.Quiet {}
      (fun key => (loaded plainPlatform 1 ∅)[key]?)
      ((paymentChain plainPlatform).start (smallPayment 1) {}) [] session [] ∧
      session.reply = some (.error 500 "Error" "customer not found") :=
    Payment.quiet_no_customer warehouse district fun c => loaded_noCustomers empty 1 1 1 c
  rw [← World.initial_store (L := ServerState) (loaded plainPlatform 1 ∅)] at quiet
  have alone : (serverClient plainPlatform).Quiet {} _
      ((serverClient plainPlatform).start (.inl (.inr (smallPayment 1))) {}) [] (.inl (.inr session)) [] :=
    (quiet.inr (newOrderChain plainPlatform).client).inl _
  obtain ⟨reads, world, attempt, ran, only, same, here, _⟩ := World.solo_quiet _ _ alone
  have failed := (loaded_sells_nothing empty ⟨_, ran⟩).2.1 _ (List.mem_of_getElem? here) _ _ rfl told
  exact ⟨reads, world, session, attempt, _, ran, only, here, told, rfl, failed, congrArg _ same⟩

end H2oTpcc

import Mathlib.Data.Int.ModEq
import H2oTpcc.Balance
import H2oTpcc.ExactlyOnce
import H2oTpcc.PaymentFrame

/-! The history table. A payment's row is keyed by the terminal's warehouse, the
customer and the second in which it is made, cut to 32 bits, so a second payment of the
customer at that warehouse in that second replaces the row of the first: the table is
complete exactly if that never happens. -/
namespace H2oTpcc

/-- The warehouse, the customer and the second that a history key is made of. -/
abbrev HistoryId := UInt32 × (UInt32 × UInt32 × UInt32) × UInt32

instance HistoryId.fintype : Fintype HistoryId := FinEnum.instFintype

def HistoryId.key : HistoryId → Key
  | (w, (cw, cd, c), time) => .history w cw cd c time

section Table
variable (tables : Key → Option Bytes)

/-- The number of history rows. -/
def historyCount : Nat := (Finset.univ.filter fun id : HistoryId => (tables id.key).isSome).card

/-- The amount of one history row. -/
def historyAmount (host : Endian) (id : HistoryId) : Int64 :=
  ((asRow host (tables id.key) : Option HistoryVal).map (·.hAmount.toInt64)).getD 0

/-- The sum of `h_amount` over a customer's history rows. -/
def historyTotal (host : Endian) (w d c : UInt32) : Int64 :=
  ∑ id : HistoryId with id.2.1 = (w, d, c), historyAmount tables host id

end Table

/-- One history row for each payment, and each customer's rows add up to what its
`c_ytd_payment` has gone up by. -/
structure HistoryComplete (host : Endian) (before after : Key → Option Bytes) (log : List TpccCommit) :
    Prop where
  rows : historyCount after = (log.filterMap paymentOf).length
  amounts : ∀ w d c, (customerRow host after w d c).map (·.cYtdPayment) =
    (customerRow host before w d c).map (·.cYtdPayment + historyTotal after host w d c)

/-- The commit sets this history row. -/
def Records (host : Endian) (id : HistoryId) (commit : TpccCommit) : Prop :=
  ∃ value, (id.key.build host, value) ∈ commit.writes

/-! ## Keys -/

private theorem stamp_toNat (now : Int64) : ((Payment.stamp now).toNat : Int) = now.toInt % 2 ^ 32 := by
  have low : (Payment.stamp now).toNat = now.toBitVec.toNat % 2 ^ 32 := by
    have mask : (0xFFFFFFFF : Int64).toUInt64.toNat = 2 ^ 32 - 1 := rfl
    rw [Payment.stamp, UInt64.toNat_toUInt32, Int64.toUInt64_and, UInt64.toNat_and, mask,
      Nat.and_two_pow_sub_one_eq_mod, Nat.mod_mod]
    rfl
  have signed : now.toInt = if 2 * now.toBitVec.toNat < 2 ^ 64 then (now.toBitVec.toNat : Int)
      else now.toBitVec.toNat - 2 ^ 64 := BitVec.toInt_eq_toNat_cond now.toBitVec
  rw [low, signed]
  split <;> omega

/-- Two seconds have the same stamp just if they agree modulo `2^32`. -/
private theorem stamp_inj {now now' : Int64} :
    Payment.stamp now = Payment.stamp now' ↔ now.toInt ≡ now'.toInt [ZMOD 2 ^ 32] := by
  rw [← UInt32.toNat_inj, ← Int.natCast_inj, stamp_toNat, stamp_toNat]
  rfl

/-- The history key of a payment. -/
def PaymentCtx.historyId (ctx : PaymentCtx) (now : Int64) : HistoryId :=
  (ctx.wId, (ctx.cWId, ctx.cDId, ctx.cId), Payment.stamp now)

private theorem rows_historyId (P : Platform) (ctx : PaymentCtx) (cv : CustomerVal) (now : Int64)
    (id : HistoryId) :
    lastWrite (Payment.rows P ctx cv now) id.key =
      if id = ctx.historyId now then some (encode P.host (Payment.historyVal ctx now)) else none := by
  obtain ⟨w, ⟨cw, cd, c⟩, time⟩ := id
  simp only [HistoryId.key, Payment.rows_history, PaymentCtx.historyId, Prod.mk.injEq, and_assoc, eq_comm]

private theorem records_payment {P : Platform} {ctx : PaymentCtx} {cv : CustomerVal} {now : Int64}
    (writes : commit.writes = built P.host (Payment.rows P ctx cv now)) (id : HistoryId) :
    Records P.host id commit ↔ id = ctx.historyId now := by
  have set := rows_historyId P ctx cv now
  constructor
  · rintro ⟨value, member⟩
    rw [writes] at member
    by_contra foreign
    exact not_mem_built ((set id).trans (if_neg foreign)) value member
  · rintro rfl
    rw [Records, writes]
    exact ⟨_, mem_built.mpr (mem_of_lastWrite ((set _).trans (if_pos rfl)))⟩

/-! ## One transaction -/

/-- What a transaction does to the history table. -/
inductive HistoryStep (host : Endian) (commit : TpccCommit) (before after : Key → Option Bytes) :
    Prop where
  | order (other : paymentOf commit = none) (sets : ∀ id, ¬ Records host id commit)
      (kept : ∀ id : HistoryId, after id.key = before id.key)
  | payment (ctx : PaymentCtx) (made : paymentOf commit = some ctx) (own : HistoryId)
      (customer : own.2.1 = (ctx.cWId, ctx.cDId, ctx.cId)) (sets : ∀ id, Records host id commit ↔ id = own)
      (row : HistoryVal) (amount : row.hAmount = ctx.hAmount)
      (becomes : ∀ id : HistoryId, after id.key =
        if id = own then some (encode host row) else before id.key)

section Step
variable {P : Platform} {commit : TpccCommit} {before after : Key → Option Bytes}

/-- What a transaction does to the history table: an order leaves it alone, and a payment sets
one row, its own. -/
theorem Serial.history (serial : Serial P commit before after) :
    HistoryStep P.host commit before after := by
  cases serial with
  | order ctx now placed other fits reads writes becomes =>
    have unset (id : HistoryId) : lastWrite (NewOrder.rows P ctx now) id.key = none :=
      NewOrder.rows_other P ctx now (by simp [HistoryId.key, Key.table])
    refine .order other ?_ fun id => by rw [becomes, overwrite_unset (unset id)]
    rintro id ⟨value, member⟩
    rw [writes] at member
    exact not_mem_built (unset id) value member
  | payment ctx cv now made other warehouse district customer writes becomes =>
    refine .payment ctx made (ctx.historyId now) rfl (records_payment writes)
      (Payment.historyVal ctx now) rfl fun id => ?_
    rw [becomes, overwrite, rows_historyId]
    split <;> simp

/-- A row is there after a commit if it was there before or is the one that the commit has set. -/
theorem HistoryStep.present (step : HistoryStep host commit before after) (id : HistoryId) :
    (after id.key).isSome ↔ (before id.key).isSome ∨ Records host id commit := by
  cases step with
  | order other sets kept => simp [kept, sets]
  | payment ctx made own customer sets row amount becomes =>
    rw [becomes, sets]
    by_cases same : id = own <;> simp [same]

/-- A transaction that replaces no row adds one for its payment. -/
private theorem HistoryStep.count_fresh (step : HistoryStep host commit before after)
    (fresh : ∀ id, Records host id commit → before id.key = none) :
    historyCount after = historyCount before + ([commit].filterMap paymentOf).length := by
  unfold historyCount
  cases step with
  | order other sets kept => simp [kept, other]
  | payment ctx made own customer sets row amount becomes =>
    have absent : before own.key = none := fresh own ((sets own).mpr rfl)
    have grown : (Finset.univ.filter fun id : HistoryId => (after id.key).isSome) =
        insert own (Finset.univ.filter fun id : HistoryId => (before id.key).isSome) := by
      ext id
      rw [Finset.mem_insert, Finset.mem_filter_univ, Finset.mem_filter_univ, becomes]
      by_cases same : id = own <;> simp [same]
    rw [grown, Finset.card_insert_of_notMem (by simp [absent])]
    simp [made]

/-- A transaction that replaces a row is a payment without a row of its own. -/
theorem HistoryStep.count_stale (step : HistoryStep host commit before after)
    {id : HistoryId} (records : Records host id commit) (present : (before id.key).isSome) :
    historyCount after = historyCount before ∧ ([commit].filterMap paymentOf).length = 1 := by
  unfold historyCount
  cases step with
  | order other sets kept => exact absurd records (sets id)
  | payment ctx made own customer sets row amount becomes =>
    obtain rfl := (sets id).mp records
    refine ⟨congrArg Finset.card (Finset.filter_congr fun id' _ => ?_), by simp [made]⟩
    rw [becomes]
    by_cases same : id' = id
    · simp [same, present]
    · rw [if_neg same]

private theorem HistoryStep.total_fresh (step : HistoryStep host commit before after)
    (fresh : ∀ id, Records host id commit → before id.key = none) (w d c : UInt32) :
    historyTotal after host w d c = historyTotal before host w d c +
      paid (fun ctx => ctx.cWId = w ∧ ctx.cDId = d ∧ ctx.cId = c) [commit] := by
  unfold historyTotal
  cases step with
  | order other sets kept => simp [paid_order _ other, historyAmount, kept]
  | payment ctx made own customer sets row amount becomes =>
    have absent : before own.key = none := fresh own ((sets own).mpr rfl)
    have each (id : HistoryId) : historyAmount after host id =
        historyAmount before host id + if id = own then ctx.hAmount.toInt64 else 0 := by
      unfold historyAmount
      rw [becomes]
      by_cases same : id = own
      · simp [same, absent, amount, asRow]
      · simp [same]
    rw [Finset.sum_congr rfl fun id _ => each id, Finset.sum_add_distrib, Finset.sum_ite_eq',
      paid_payment _ made]
    simp [customer]

end Step

/-! ## Whole runs -/

/-- No two of the commits set the same history row. -/
def RecordsApart (host : Endian) (log : List TpccCommit) : Prop :=
  log.Pairwise fun earlier later => ∀ id, Records host id earlier → ¬ Records host id later

/-- What the history table holds after some commits on a store without history. -/
structure HistoryOf (host : Endian) (tables : Key → Option Bytes) (log : List TpccCommit) : Prop where
  present : ∀ id : HistoryId, (tables id.key).isSome ↔ ∃ commit ∈ log, Records host id commit
  atMost : historyCount tables ≤ (log.filterMap paymentOf).length
  count : historyCount tables = (log.filterMap paymentOf).length ↔ RecordsApart host log
  total : RecordsApart host log → ∀ w d c, historyTotal tables host w d c =
    paid (fun ctx => ctx.cWId = w ∧ ctx.cDId = d ∧ ctx.cId = c) log

theorem HistoryOf.nil {tables : Key → Option Bytes} (bare : ∀ id : HistoryId, tables id.key = none) :
    HistoryOf host tables [] := by
  have empty : historyCount tables = 0 := by simp [historyCount, bare]
  refine ⟨by simp [bare], by simp [empty], by simp [empty, RecordsApart], fun _ w d c => ?_⟩
  simp [historyTotal, historyAmount, bare, asRow, paid_nil]

/-- One commit more: the row of a payment comes on top of the others, or replaces the one that
an earlier payment has left under the same key. -/
theorem HistoryOf.append (holds : HistoryOf host before log)
    (step : HistoryStep host commit before after) : HistoryOf host after (log ++ [commit]) := by
  have apart : RecordsApart host (log ++ [commit]) ↔
      RecordsApart host log ∧ ∀ id, Records host id commit → before id.key = none := by
    simp only [RecordsApart, List.pairwise_append, List.pairwise_singleton, true_and,
      List.mem_singleton, forall_eq, ← Option.not_isSome_iff_eq_none, holds.present]
    grind
  have present (id : HistoryId) : (after id.key).isSome ↔
      ∃ commit' ∈ log ++ [commit], Records host id commit' := by
    rw [step.present, holds.present]
    simp [or_and_right, exists_or]
  by_cases fresh : ∀ id, Records host id commit → before id.key = none
  · have count := step.count_fresh fresh
    refine ⟨present, ?_, ?_, ?_⟩
    · rw [count, List.filterMap_append, List.length_append]
      exact Nat.add_le_add_right holds.atMost _
    · rw [count, List.filterMap_append, List.length_append, Nat.add_right_cancel_iff, holds.count, apart]
      exact (and_iff_left fresh).symm
    · intro whole w d c
      rw [step.total_fresh fresh, holds.total (apart.mp whole).1, paid_append]
  · have stale : ¬ RecordsApart host (log ++ [commit]) := fun whole => fresh (apart.mp whole).2
    push Not at fresh
    obtain ⟨id, records, occupied⟩ := fresh
    obtain ⟨count, one⟩ := step.count_stale records (Option.isSome_iff_ne_none.mpr occupied)
    have fewer : historyCount after < ((log ++ [commit]).filterMap paymentOf).length := by
      rw [count, List.filterMap_append, List.length_append, one]
      exact Nat.lt_succ_of_le holds.atMost
    exact ⟨present, fewer.le, iff_of_false fewer.ne stale, fun whole => absurd whole stale⟩

/-! ## Payments and their clocks -/

/-- The committed payments in the order of the log, each with the time that its last callback
before the commit has read. -/
def datedPayments (log : List TpccCommit) (committed : List (Inputs (NewOrderRequest ⊕ PaymentParams))) :
    List (PaymentCtx × Int64) :=
  (log.zip committed).filterMap fun entry => (paymentOf entry.1).map (·, entry.2.latest.now)

/-- Two payments at one warehouse by one customer, at times that agree modulo `2^32` seconds. -/
structure SameSecond (first second : PaymentCtx × Int64) : Prop where
  wId : first.1.wId = second.1.wId
  cWId : first.1.cWId = second.1.cWId
  cDId : first.1.cDId = second.1.cDId
  cId : first.1.cId = second.1.cId
  time : first.2.toInt ≡ second.2.toInt [ZMOD 2 ^ 32]

private theorem historyId_inj {first second : PaymentCtx × Int64} :
    first.1.historyId first.2 = second.1.historyId second.2 ↔ SameSecond first second := by
  simp only [PaymentCtx.historyId, Prod.mk.injEq, stamp_inj]
  constructor
  · rintro ⟨w, ⟨cw, cd, c⟩, time⟩
    exact ⟨w, cw, cd, c, time⟩
  · rintro ⟨w, cw, cd, c, time⟩
    exact ⟨w, ⟨cw, cd, c⟩, time⟩

section Runs
variable {P : Platform} {base : Store Bytes Bytes} {world : TpccWorld}

private theorem history_of_run (bare : ∀ id : HistoryId, tables P.host base id.key = none)
    (reachable : TpccReachable P base world) :
    HistoryOf P.host (tables P.host world.db.store) world.db.log := by
  have whole := serial_induction (Q := fun version tables =>
    HistoryOf P.host tables (world.db.log.take version)) reachable (.nil bare) ?_ (Nat.le_refl _)
  · rwa [List.take_length] at whole
  · intro version commit logged after serial before
    rw [take_logged logged]
    exact before.append serial.history

variable {events : List (Event (NewOrderRequest ⊕ PaymentParams))}
  (ran : (World.initial base).run (tpccClient P) events = some world)
include ran

/-- A commit sets the history row of the payment it makes, at its time, and no other. -/
theorem records_iff {entry : TpccCommit × Inputs (NewOrderRequest ⊕ PaymentParams)}
    (member : entry ∈ world.db.log.zip (history events).committed) (id : HistoryId) :
    Records P.host id entry.1 ↔
      ∃ ctx, paymentOf entry.1 = some ctx ∧ id = ctx.historyId entry.2.latest.now := by
  obtain ⟨version, found⟩ := List.getElem?_of_mem member
  obtain ⟨logged, noted⟩ := List.getElem?_zip_eq_some.mp found
  cases made : paymentOf entry.1 with
  | none =>
    cases (serial_step ⟨events, ran⟩ logged).history with
    | order _ sets => simp [sets]
    | payment ctx made' => rw [made] at made'; cases made'
  | some ctx =>
    obtain ⟨inputs, _, cv, noted', _, _, _, _, writes⟩ := payment_request ran logged made
    cases noted.symm.trans noted'
    simp [records_payment writes]

private theorem recordsApart_iff : RecordsApart P.host world.db.log ↔
    (datedPayments world.db.log (history events).committed).Pairwise fun earlier later =>
      ¬ SameSecond earlier later := by
  have first : (world.db.log.zip (history events).committed).map Prod.fst = world.db.log :=
    List.map_fst_zip (Nat.le_of_eq (tpcc_kept ran).commits)
  have same : RecordsApart P.host world.db.log ↔
      RecordsApart P.host ((world.db.log.zip (history events).committed).map Prod.fst) := by rw [first]
  rw [same, RecordsApart, List.pairwise_map, datedPayments, List.pairwise_filterMap]
  refine List.Pairwise.iff_of_mem fun {earlier later} member member' => ?_
  simp only [records_iff ran member, records_iff ran member', Option.map_eq_some_iff]
  constructor
  · rintro apart _ ⟨ctx, made, rfl⟩ _ ⟨ctx', made', rfl⟩ clash
    exact apart _ ⟨ctx, made, rfl⟩ ⟨ctx', made', historyId_inj.mpr clash⟩
  · rintro apart _ ⟨ctx, made, rfl⟩ ⟨ctx', made', clash⟩
    exact apart _ ⟨ctx, made, rfl⟩ _ ⟨ctx', made', rfl⟩ (historyId_inj.mp clash)

/-- **Every payment leaves its history row** in a run from a store without history exactly if no
two committed payments by one customer at one warehouse saw the same second, modulo `2^32`. -/
theorem history_complete_iff (bare : ∀ id : HistoryId, tables P.host base id.key = none) :
    HistoryComplete P.host (tables P.host base) (tables P.host world.db.store) world.db.log ↔
      (datedPayments world.db.log (history events).committed).Pairwise fun earlier later =>
        ¬ SameSecond earlier later := by
  have history := history_of_run bare ⟨events, ran⟩
  rw [← recordsApart_iff ran]
  constructor
  · intro complete
    exact history.count.mp complete.rows
  · intro apart
    refine ⟨history.count.mpr apart, fun w d c => ?_⟩
    rw [history.total apart]
    exact ytd_payment_total ⟨events, ran⟩ w d c

end Runs

/-! ## Payments on the small store -/

private theorem smallLoaded_history (id : HistoryId) : tables .little smallLoaded id.key = none := by
  rw [← Option.not_isSome_iff_eq_none]
  intro present
  obtain ⟨w, _, same | ⟨d, _, same | same⟩⟩ :=
    loaded_present (P := plainPlatform) smallStore_unloaded present (by simp [HistoryId.key, Key.table]) <;>
  simp [HistoryId.key] at same

/-- A payment of 100 at time 0, once the rows it needs are there. -/
private theorem payment_at_zero {world : TpccWorld}
    (reachable : TpccReachable plainPlatform smallLoaded world)
    (supplied : Payment.Supplied plainPlatform (smallPayment 1).ctx wv dv cv
      (tables .little world.db.store)) :
    ∃ world' commit, TpccReachable plainPlatform smallLoaded world' ∧
      world'.db = world.db.append commit ∧ (paymentOf commit).isSome ∧
      Records .little (1, (1, 1, 1), 0) commit ∧
      ∃ wv dv cv, Payment.Supplied plainPlatform (smallPayment 1).ctx wv dv cv
        (tables .little world'.db.store) := by
  obtain ⟨world', commit, ctx, reached, grown, made, context, writes⟩ :=
    payment_commits_rows reachable (smallPayment 1) 0 supplied
  refine ⟨world', commit, reached, grown, by rw [made]; rfl, ?_, supplied.step (serial_last reached grown)⟩
  have set := (Payment.rows_history plainPlatform ctx cv 0 1 1 1 1 0).trans
    (if_pos (by rw [context]; exact ⟨rfl, rfl, rfl, rfl, rfl⟩))
  rw [Records, writes]
  exact ⟨_, mem_built.mpr (mem_of_lastWrite set)⟩

/-- Two payments of one customer in one second leave at most one history row: they have the same
key, and the second replaces the first. -/
theorem payments_share_history : ∃ world first second, TpccReachable plainPlatform smallLoaded world ∧
    world.db.log = [first, second] ∧ (paymentOf first).isSome ∧ (paymentOf second).isSome ∧
    (∀ id : HistoryId, tables .little smallLoaded id.key = none) ∧
    historyCount (tables .little world.db.store) < 2 ∧
    ¬ HistoryComplete .little (tables .little smallLoaded) (tables .little world.db.store)
      world.db.log := by
  have start : TpccReachable plainPlatform smallLoaded (World.initial smallLoaded) := ⟨[], rfl⟩
  obtain ⟨wv, warehouse, _⟩ := smallLoaded_warehouse 1 (.inl rfl)
  obtain ⟨dv, district, _⟩ := smallLoaded_district 1 (.inl rfl)
  have supplied : Payment.Supplied plainPlatform (smallPayment 1).ctx wv dv PackedRow.zero
      (tables .little smallLoaded) := ⟨warehouse, district, smallLoaded_customer 1 (.inl rfl)⟩
  rw [← World.initial_store (L := TpccState) smallLoaded] at supplied
  obtain ⟨middle, first, reached, grown, made, records, wv', dv', cv', still⟩ :=
    payment_at_zero start supplied
  obtain ⟨world, second, reached', grown', made', records', _⟩ := payment_at_zero reached still
  have log : world.db.log = [first, second] := by rw [grown', grown]; rfl
  have history := history_of_run (P := plainPlatform) smallLoaded_history reached'
  have meets : ¬ RecordsApart plainPlatform.host world.db.log := by
    rw [log]
    intro apart
    exact List.rel_of_pairwise_cons apart (List.mem_singleton_self second) _ records records'
  have payments : (world.db.log.filterMap paymentOf).length = 2 := by
    obtain ⟨ctx, made⟩ := Option.isSome_iff_exists.mp made
    obtain ⟨ctx', made'⟩ := Option.isSome_iff_exists.mp made'
    simp [log, made, made']
  have fewer := Nat.lt_of_le_of_ne history.atMost fun full => meets (history.count.mp full)
  rw [payments] at fewer
  refine ⟨world, first, second, reached', log, made, made', smallLoaded_history, fewer, ?_⟩
  exact fun complete => meets (history.count.mp complete.rows)

/-- A single payment meets the condition, and leaves its row. -/
theorem history_complete_iff_single : ∃ world commit,
    TpccReachable plainPlatform smallLoaded world ∧ world.db.log = [commit] ∧
    (paymentOf commit).isSome ∧
    HistoryComplete .little (tables .little smallLoaded) (tables .little world.db.store) world.db.log := by
  obtain ⟨world, commit, ctx, reached, grown, made, _⟩ := small_payment 1 (.inl rfl)
  have log : world.db.log = [commit] := by rw [grown]; rfl
  obtain ⟨events, ran⟩ := reached
  refine ⟨world, commit, ⟨events, ran⟩, log, by rw [made]; rfl, ?_⟩
  refine (history_complete_iff (P := plainPlatform) ran smallLoaded_history).mpr ?_
  obtain ⟨inputs, single⟩ := List.length_eq_one_iff.mp ((tpcc_kept ran).commits ▸ congrArg List.length log)
  rw [log, single, datedPayments, List.zip_cons_cons, List.zip_nil_left, List.filterMap_cons, made]
  exact List.pairwise_singleton _ _

end H2oTpcc

import H2oTpcc.RandomRange
import H2oTpcc.TfbHandlers

/-! `/queries` beyond its first read. The reads are submitted with `multi_query_next` as
their callback, which takes one argument, the context. A callback is called with the
future first: `multi_query_next` then takes the memory of the future for a context, and
the request itself is left as it is. `on_multi_query_result`, written for the purpose,
would answer every query in order. -/
namespace H2oTpcc
open Stmt

abbrev MultiQuerySession := Session MultiQueryCtx MultiQueryCallback Bytes Bytes Response

namespace MultiQuery
variable (P : Platform)

/-- The context after a row, with its number; 0 for one that is missing or too short. -/
def withNumber (number : Option UInt32) (ctx : MultiQueryCtx) : MultiQueryCtx :=
  { ctx with
    randomNumbers := Function.update ctx.randomNumbers ctx.numResult (number.getD 0)
    numResult := ctx.numResult + 1 }

/-- `on_multi_query_result`, which nothing registers. -/
def onMultiQueryResult (future : Future Bytes Bytes) : MultiQueryProg Unit := do
  if future.getError ≠ 0 then
    finish (serviceUnavailable "FDB error")
  else
    let ctx ← load
    index ctx.numResult ctx.numQuery
    store (withNumber (worldNumber P.host future.getValue))
    multiQueryNext P

/-! ## Callbacks and the addresses they are called with -/

abbrev Address := Nat

/-- What lies at each address, taken for the context of a request and what goes with it. -/
abbrev Objects := Address → MultiQuerySession

/-- A function is called for the context at `p`. -/
def callAt (answers : Answers) (p : Address) (body : MultiQueryProg Unit) (objects : Objects) :
    Objects :=
  Function.update objects p (body.run answers (objects p)).2

/-- The function that a read is submitted with; the source has the first. -/
inductive Registered where
  | multiQueryNext
  | onMultiQueryResult
  deriving DecidableEq

/-- `ctx->cb(future, ctx->ctx)` of `future_callback`, for a future at its own address. -/
def futureCallback (cb : Registered) (answers : Answers) (future ctx : Address)
    (result : Future Bytes Bytes) :
    Objects → Objects :=
  match cb with
  | .multiQueryNext => callAt answers future (multiQueryNext P)
  | .onMultiQueryResult => callAt answers ctx (onMultiQueryResult P result)

section Reads
variable (cb : Registered) (answers : Answers) (table : Bytes → Option Bytes) (ctx : Address)

/-- The read that is outstanding for the request completes, its future being at `future`. -/
def complete (future : Address) (objects : Objects) : Option Objects :=
  match (objects ctx).pending with
  | some (.get key, _) =>
    let fired := Function.update objects ctx { objects ctx with pending := none, sets := [] }
    some (futureCallback P cb answers future ctx (.value (table key)) fired)
  | _ => none

/-- After `k` completed reads, of which the i-th has its future at `futures i`. -/
def completed (futures : Nat → Address) (objects : Objects) : Nat → Option Objects
  | 0 => some objects
  | k + 1 => (completed futures objects k).bind (complete P cb answers table ctx (futures k))

end Reads

/-! ## What is to be seen -/

section Answer
variable (n : Nat) (ids numbers : Nat → UInt32)

/-- The request after its first `k` reads: `k` results, and either the read of the next
id or the whole answer. -/
structure InStep (k : Nat) (session : MultiQuerySession) : Prop where
  numResult : session.ctx.numResult = k
  reads : k < n → session.pending.map Prod.fst = some (.get (worldKey P.host (ids k))) ∧
    session.reply = none
  answers : k = n → session.pending = none ∧
    session.reply = some (.json (.array ((List.range n).map fun i => worldJson (ids i) (numbers i))))

/-- What the arrays hold as well. -/
structure Filled (k : Nat) (ctx : MultiQueryCtx) : Prop where
  numQuery : ctx.numQuery = n
  numResult : ctx.numResult = k
  ids : ctx.ids = ids
  numbers : ∀ i < k, ctx.randomNumbers i = numbers i

end Answer

section Runs
variable (answers : Answers) (session : MultiQuerySession)

private theorem run_multiQueryNext :
    ((multiQueryNext P).run answers session).2 =
      if session.ctx.numResult = session.ctx.numQuery then
        { session with reply := some (.json (.array ((List.range session.ctx.numResult).map fun i =>
          worldJson (session.ctx.ids i) (session.ctx.randomNumbers i)))) }
      else session.submit answers (.get (worldKey P.host (session.ctx.ids session.ctx.numResult)))
        .multiQueryNext := by
  have skip (count bound : Nat) :
      (forRange count fun i => index i bound : MultiQueryProg Unit).run answers session = ((), session) :=
    Prog.run_forRange_skip answers session count _ fun _ _ => Prog.run_index ..
  by_cases done : session.ctx.numResult = session.ctx.numQuery
  · simp [multiQueryNext, done, skip]
  · simp [multiQueryNext, done]

private theorem run_onMultiQueryResult (found : Option Bytes) :
    ((onMultiQueryResult P (.value found)).run answers session).2 =
      ((multiQueryNext P).run answers
        { session with ctx := withNumber (worldNumber P.host found) session.ctx }).2 := by
  simp [onMultiQueryResult]

/-- What `queries_handler` leaves is what `multi_query_next` makes of the context it has
filled in. -/
theorem run_queriesHandler (parameter : Option Int32) (allocated : answers.alloc = true)
    (created : answers.create = true) :
    ((queriesHandler P parameter).run answers { ctx := {} }).2 =
      ((multiQueryNext P).run answers { ctx := {
        numQuery := getQueryNumber parameter
        ids := (Update.drawIds P (fun _ => 0) (List.range (getQueryNumber parameter))).value
          { seed := answers.seed } } }).2 := by
  unfold queriesHandler
  simp only [run_openRequest, allocated, created, if_true, Prog.run_bind, Prog.run_draw, Prog.run_store]
  rw [Prog.run_forRange_skip _ _ _ _ fun _ _ => Prog.run_index ..]

end Runs

section Progress
variable {n : Nat} {ids numbers : Nat → UInt32} {k : Nat} {session : MultiQuerySession}

/-- `multi_query_next` for a context in which the first `k` numbers are filled in. -/
theorem inStep_of_filled {answers : Answers} (accepts : answers.accept = true)
    (filled : Filled n ids numbers k session.ctx) (idle : session.pending = none)
    (silent : session.reply = none)
    (inside : k ≤ n) :
    InStep P n ids numbers k ((multiQueryNext P).run answers session).2 ∧
      Filled n ids numbers k ((multiQueryNext P).run answers session).2.ctx := by
  rw [run_multiQueryNext, filled.numResult, filled.numQuery, filled.ids]
  by_cases last : k = n
  · subst last
    rw [if_pos rfl]
    have rows : ((List.range k).map fun i => worldJson (ids i) (session.ctx.randomNumbers i)) =
        (List.range k).map fun i => worldJson (ids i) (numbers i) := by
      refine List.map_congr_left fun i member => ?_
      rw [filled.numbers i (List.mem_range.mp member)]
    refine ⟨⟨filled.numResult, fun more => absurd more (Nat.lt_irrefl k), fun _ => ⟨idle, ?_⟩⟩, filled⟩
    exact congrArg (fun rows => some (Response.json (.array rows))) rows
  · rw [if_neg last]
    refine ⟨⟨?_, fun _ => ⟨?_, ?_⟩, fun done => absurd done last⟩, ?_⟩
    · rw [Session.submit_ctx, filled.numResult]
    · rw [Session.submit_pending, if_pos accepts]
      rfl
    · rw [Session.submit_reply, silent]
    · rwa [Session.submit_ctx]

private theorem Filled.withNumber {ctx : MultiQueryCtx} (filled : Filled n ids numbers k ctx) :
    Filled n ids numbers (k + 1) (withNumber (some (numbers k)) ctx) := by
  refine ⟨filled.numQuery, congrArg (· + 1) filled.numResult, filled.ids, fun i inside => ?_⟩
  change Function.update ctx.randomNumbers ctx.numResult (numbers k) i = numbers i
  rw [filled.numResult]
  rcases Nat.lt_succ_iff_lt_or_eq.mp inside with earlier | rfl
  · rw [Function.update_of_ne (Nat.ne_of_lt earlier), filled.numbers i earlier]
  · exact Function.update_self ..

variable {answers : Answers} {table : Bytes → Option Bytes} {ctx : Address} {futures : Nat → Address}
  {objects : Objects}

private theorem complete_eq (cb : Registered) (future : Address) {key : Bytes}
    (pending : (objects ctx).pending.map Prod.fst = some (.get key)) :
    complete P cb answers table ctx future objects =
      some (futureCallback P cb answers future ctx (.value (table key))
        (Function.update objects ctx { objects ctx with pending := none, sets := [] })) := by
  obtain ⟨⟨_, callback⟩, submitted, rfl⟩ := Option.map_eq_some_iff.mp pending
  rw [complete, submitted]

/-- Had the reads been submitted with `on_multi_query_result`. -/
private theorem completed_onMultiQueryResult (accepts : answers.accept = true)
    (rows : ∀ i < n, worldNumber P.host (table (worldKey P.host (ids i))) = some (numbers i))
    (opened : objects ctx = ((multiQueryNext P).run answers { ctx := { numQuery := n, ids } }).2) {k : Nat}
    (inside : k ≤ n) :
    ∃ after, completed P .onMultiQueryResult answers table ctx futures objects k = some after ∧
      InStep P n ids numbers k (after ctx) ∧ Filled n ids numbers k (after ctx).ctx := by
  induction k with
  | zero =>
    refine ⟨objects, rfl, ?_⟩
    rw [opened]
    exact inStep_of_filled P accepts ⟨rfl, rfl, rfl,
      fun _ impossible => absurd impossible (Nat.not_lt_zero _)⟩
      rfl rfl inside
  | succ k ih =>
    obtain ⟨before, reached, inStep, filled⟩ := ih (Nat.le_of_succ_le inside)
    obtain ⟨pending, silent⟩ := inStep.reads inside
    refine ⟨_, (congrArg (Option.bind · _) reached).trans (complete_eq P _ _ pending), ?_⟩
    rw [futureCallback, callAt, Function.update_self, Function.update_self, run_onMultiQueryResult,
      rows k inside]
    exact inStep_of_filled P accepts filled.withNumber rfl silent inside

/-- With `multi_query_next` in its place the request stays as it was before its first
read, with no read outstanding. -/
theorem completed_multiQueryNext_first (accepts : answers.accept = true) (several : 0 < n)
    (opened : objects ctx = ((multiQueryNext P).run answers { ctx := { numQuery := n, ids } }).2)
    (apart : ∀ i, futures i ≠ ctx) :
    ∃ after, completed P .multiQueryNext answers table ctx futures objects 1 = some after ∧
      (after ctx).pending = none ∧ (after ctx).reply = none ∧ (after ctx).ctx = { numQuery := n, ids } := by
  rw [run_multiQueryNext, if_neg (Nat.ne_of_lt several)] at opened
  have pending : (objects ctx).pending.map Prod.fst = some (.get (worldKey P.host (ids 0))) := by
    rw [opened, Session.submit_pending, if_pos accepts]
    rfl
  refine ⟨_, complete_eq P _ _ pending, ?_⟩
  rw [futureCallback, callAt, Function.update_of_ne (apart 0).symm, Function.update_self, opened]
  exact ⟨rfl, Session.submit_reply .., Session.submit_ctx ..⟩

/-- So there is no second read. -/
private theorem completed_multiQueryNext_later (accepts : answers.accept = true) (several : 0 < n)
    (opened : objects ctx = ((multiQueryNext P).run answers { ctx := { numQuery := n, ids } }).2)
    (apart : ∀ i, futures i ≠ ctx) (k : Nat) :
    completed P .multiQueryNext answers table ctx futures objects (k + 2) = none := by
  induction k with
  | zero =>
    obtain ⟨after, reached, idle, -⟩ := completed_multiQueryNext_first P accepts several opened apart
    rw [completed, reached, Option.bind_some, complete, idle]
  | succ k ih => rw [completed, ih, Option.bind_none]

end Progress
end MultiQuery

open MultiQuery

/-- **/queries answers every query in order** as far as its first read: after that it
neither goes on nor answers, for every number of queries, ids and rows, and whatever the
memory of the futures holds. With `on_multi_query_result` as the callback of the reads it
would answer all. -/
theorem queries_answered_iff (P : Platform) (n : Nat) (several : 1 ≤ n) (ids numbers : Nat → UInt32)
    (table : Bytes → Option Bytes)
    (rows : ∀ i < n, worldNumber P.host (table (worldKey P.host (ids i))) = some (numbers i))
    (answers : Answers) (accepts : answers.accept = true) (ctx : Address) (futures : Nat → Address)
    (apart : ∀ i, futures i ≠ ctx) (objects : Objects)
    (opened : objects ctx = ((multiQueryNext P).run answers { ctx := { numQuery := n, ids } }).2)
    (cb : Registered) (k : Nat) (inside : k ≤ n) :
    (∃ after, completed P cb answers table ctx futures objects k = some after ∧
      InStep P n ids numbers k (after ctx)) ↔ k = 0 ∨ cb = .onMultiQueryResult := by
  have written : ∃ after, completed P .onMultiQueryResult answers table ctx futures objects k = some after ∧
      InStep P n ids numbers k (after ctx) := by
    obtain ⟨after, reached, inStep, -⟩ := completed_onMultiQueryResult P accepts rows opened inside
    exact ⟨after, reached, inStep⟩
  cases cb with
  | onMultiQueryResult => exact iff_of_true written (.inr rfl)
  | multiQueryNext =>
    match k with
    | 0 => exact iff_of_true written (.inl rfl)
    | 1 =>
      refine iff_of_false ?_ (by decide)
      rintro ⟨after, reached, inStep⟩
      obtain ⟨after', reached', -, -, same⟩ := completed_multiQueryNext_first P accepts several opened apart
      cases reached.symm.trans reached'
      have counted := inStep.numResult
      rw [same] at counted
      cases counted
    | k + 2 =>
      refine iff_of_false ?_ (by simp)
      rintro ⟨after, reached, -⟩
      rw [completed_multiQueryNext_later P accepts several opened apart] at reached
      cases reached

/-- A request for one row, the row being there: after the read there is neither a result
nor an answer, and no read is outstanding. -/
theorem queries_stop_after_first_read :
    let P := steadyPlatform 5 (by decide)
    let objects : Objects := fun p =>
      if p = 1 then ((queriesHandler P (some 1)).run {} { ctx := {} }).2 else { ctx := {} }
    let table : Bytes → Option Bytes := fun _ => some [0, 0, 0, 9]
    ∃ after, completed P .multiQueryNext {} table 1 (fun _ => 2) objects 1 = some after ∧
      (after 1).ctx.numResult = 0 ∧ (after 1).pending = none ∧ (after 1).reply = none := by
  intro P objects table
  have opened : objects 1 = _ := run_queriesHandler P {} (some 1) rfl rfl
  have apart : ∀ _ : Nat, 2 ≠ 1 := fun _ => by decide
  obtain ⟨after, reached, idle, silent, same⟩ :=
    completed_multiQueryNext_first P rfl (getQueryNumber_pos (some 1)) opened apart
  exact ⟨after, reached, congrArg MultiQueryCtx.numResult same, idle, silent⟩

/-- A request for two rows whose first read is outstanding is where it should be, also with the
callback that the source registers. -/
theorem queries_answered_iff_first :
    let P := steadyPlatform 5 (by decide)
    let ids : Nat → UInt32 := fun i => UInt32.ofNat (i + 3)
    let objects : Objects := fun _ => ((multiQueryNext P).run {} { ctx := { numQuery := 2, ids } }).2
    ∃ after, completed P .multiQueryNext {} (fun _ => some [0, 0, 0, 9]) 1 (fun _ => 2) objects 0 =
      some after ∧
      InStep P 2 ids (fun _ => 9) 0 (after 1) := by
  intro P ids objects
  exact (queries_answered_iff P 2 (by decide) ids (fun _ => 9) (fun _ => some [0, 0, 0, 9])
    (fun _ _ => by decide)
    {} rfl 1 (fun _ => 2) (fun _ => by decide) objects rfl .multiQueryNext 0 (by decide)).mpr (.inl rfl)

end H2oTpcc

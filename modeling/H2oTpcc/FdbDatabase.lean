import H2oTpcc.CallbackChain
import H2oTpcc.Rows

/-! The adapter of `fdb_database.c` as the handlers use it, and what they answer
their clients. Every call takes the transaction out of the request's context, and
every handler ignores whether the submission succeeded. -/
namespace H2oTpcc
open Stmt

/-- What yajl renders. -/
inductive Json where
  | str (text : String)
  | int (value : Int)
  | map (entries : List (String × Json))
  | array (elements : List Json)

/-- An answer to the client. -/
inductive Response where
  /-- `h2o_send_inline` of a rendered document: status 200. -/
  | json (body : Json)
  /-- `h2o_send_inline` of a text: status 200. -/
  | inline (body : String)
  /-- `h2o_send_error_generic`. -/
  | error (status : Nat) (reason body : String)

/-- The answer has status 200. -/
def Response.ok : Response → Bool
  | json _ => true
  | inline _ => true
  | error .. => false

/-- `h2o_send_error_503(req, "Service Unavailable", body, 0)`. -/
def serviceUnavailable (body : String) : Response := .error 503 "Service Unavailable" body

section Calls
variable {σ κ ρ : Type}

/-- `fdb_async_get(ctx->fdb_state, ctx->tr, ...)`. -/
def fdbAsyncGet (key : Bytes) (callback : κ) : Prog σ κ Bytes Bytes ρ Unit := do
  let _ ← load
  let _ ← submit (.get key) callback

/-- `fdb_async_get_range`. -/
def fdbAsyncGetRange (first last : Bytes) (callback : κ) : Prog σ κ Bytes Bytes ρ Unit := do
  let _ ← load
  let _ ← submit (.getRange first last) callback

/-- `fdb_sync_set`. -/
def fdbSyncSet (key value : Bytes) : Prog σ κ Bytes Bytes ρ Unit := do
  let _ ← load
  set key value

/-- `fdb_async_commit`. -/
def fdbAsyncCommit (callback : κ) : Prog σ κ Bytes Bytes ρ Unit := do
  let _ ← load
  let _ ← submit .commit callback

/-- `fdb_handle_error`. -/
def fdbHandleError (code : Nat) (callback : κ) : Prog σ κ Bytes Bytes ρ Unit := do
  let _ ← load
  let _ ← submit (.onError code) callback

/-- Answer, destroy the transaction and free the context, in this order. -/
def finish (response : Response) : Prog σ κ Bytes Bytes Response Unit := do
  let _ ← load
  send response
  let _ ← load
  destroy
  free

/-- The callbacks of a transaction that is retried: a failed future goes to
`fdb_handle_error`. -/
def orRetry (retry : κ) (future : Future Bytes Bytes) (rest : Prog σ κ Bytes Bytes ρ Unit) :
    Prog σ κ Bytes Bytes ρ Unit :=
  if future.getError ≠ 0 then fdbHandleError future.getError retry else rest

/-- Those of them that need a row, present and as long as its struct. -/
def onRowRead [PackedRow ν] (host : Endian) (retry : κ) (missing : Prog σ κ Bytes Bytes ρ Unit)
    (found : ν → Prog σ κ Bytes Bytes ρ Unit) (future : Future Bytes Bytes) :
    Prog σ κ Bytes Bytes ρ Unit :=
  orRetry retry future <|
    match asRow host future.getValue with
    | none => missing
    | some row => found row

/-- What the entry points have in common: allocate the context and fill it, create the
transaction, submit the first operation. -/
def openRequest (outOfMemory failed : String) (fill submitFirst : Prog σ κ Bytes Bytes Response Unit) :
    Prog σ κ Bytes Bytes Response Unit := do
  if ← alloc then
    fill
    if ← create then submitFirst
    else
      free
      send (serviceUnavailable failed)
  else send (serviceUnavailable outOfMemory)

variable (answers : Answers) (session : Session σ κ Bytes Bytes ρ)

@[simp] theorem run_fdbAsyncGet (key : Bytes) (callback : κ) :
    (fdbAsyncGet key callback : Prog σ κ Bytes Bytes ρ Unit).run answers session =
      ((), session.submit answers (.get key) callback) := by
  simp [fdbAsyncGet]

@[simp] theorem run_fdbSyncSet (key value : Bytes) :
    (fdbSyncSet key value : Prog σ κ Bytes Bytes ρ Unit).run answers session =
      ((), { session with sets := session.sets ++ [(key, value)] }) := by
  simp [fdbSyncSet]

@[simp] theorem run_fdbAsyncCommit (callback : κ) :
    (fdbAsyncCommit callback : Prog σ κ Bytes Bytes ρ Unit).run answers session =
      ((), session.submit answers .commit callback) := by
  simp [fdbAsyncCommit]

@[simp] theorem run_fdbHandleError (code : Nat) (callback : κ) :
    (fdbHandleError code callback : Prog σ κ Bytes Bytes ρ Unit).run answers session =
      ((), session.submit answers (.onError code) callback) := by
  simp [fdbHandleError]

@[simp] theorem run_finish (response : Response) (session : Session σ κ Bytes Bytes Response) :
    (finish response : Prog σ κ Bytes Bytes Response Unit).run answers session =
      ((), { session with reply := some response }) := by
  simp [finish]

@[simp] theorem run_orRetry_error (retry : κ) (rest : Prog σ κ Bytes Bytes ρ Unit) (nonzero : code ≠ 0) :
    (orRetry retry (.error code) rest).run answers session =
      ((), session.submit answers (.onError code) retry) := by
  simp [orRetry, nonzero]

@[simp] theorem orRetry_done (retry : κ) (rest : Prog σ κ Bytes Bytes ρ Unit) :
    orRetry retry .done rest = rest := by
  simp [orRetry]

@[simp] theorem run_onRowRead_error [PackedRow ν] (host : Endian) (retry : κ)
    (missing : Prog σ κ Bytes Bytes ρ Unit) (found : ν → Prog σ κ Bytes Bytes ρ Unit)
    (nonzero : code ≠ 0) :
    (onRowRead host retry missing found (.error code)).run answers session =
      ((), session.submit answers (.onError code) retry) :=
  run_orRetry_error answers session retry _ nonzero

/-- A value that is absent, or too short for the struct it is cast to, counts as a missing row. -/
theorem onRowRead_none [PackedRow ν] {host : Endian} {value : Option Bytes}
    (row : (asRow host value : Option ν) = none) (retry : κ) (missing : Prog σ κ Bytes Bytes ρ Unit)
    (found : ν → Prog σ κ Bytes Bytes ρ Unit) :
    onRowRead host retry missing found (.value value) = missing := by
  simp [onRowRead, orRetry, row]

/-- A value that is long enough is read as the struct, whatever its bytes are. -/
theorem onRowRead_some [PackedRow ν] {host : Endian} {value : Option Bytes} {row : ν}
    (cast : asRow host value = some row) (retry : κ) (missing : Prog σ κ Bytes Bytes ρ Unit)
    (found : ν → Prog σ κ Bytes Bytes ρ Unit) :
    onRowRead host retry missing found (.value value) = found row := by
  simp [onRowRead, orRetry, cast]

/-- A callback that needs a row retries after an error, gives up if there is no row to be cast,
and goes on with the row otherwise. -/
theorem run_onRowRead_cases [PackedRow ν] (host : Endian) (retry : κ)
    (missing : Prog σ κ Bytes Bytes ρ Unit) (found : ν → Prog σ κ Bytes Bytes ρ Unit)
    (future : Future Bytes Bytes) :
    (∃ code, (onRowRead host retry missing found future).run answers session =
      ((), session.submit answers (.onError code) retry)) ∨
    onRowRead host retry missing found future = missing ∨
    ∃ row, onRowRead host retry missing found future = found row := by
  unfold onRowRead orRetry
  split
  · exact .inl ⟨future.getError, run_fdbHandleError ..⟩
  · split
    · exact .inr (.inl rfl)
    · exact .inr (.inr ⟨_, rfl⟩)

/-- The three ways in which a request is opened: without memory for its context, without a
transaction, and with both, when it submits its first operation. -/
theorem run_openRequest (outOfMemory failed : String)
    (fill submitFirst : Prog σ κ Bytes Bytes Response Unit) (session : Session σ κ Bytes Bytes Response) :
    ((openRequest outOfMemory failed fill submitFirst).run answers session).2 =
      if answers.alloc then
        let filled := (fill.run answers session).2
        if answers.create then (submitFirst.run answers filled).2
        else { filled with reply := some (serviceUnavailable failed) }
      else { session with reply := some (serviceUnavailable outOfMemory) } := by
  cases alloc : answers.alloc <;> cases create : answers.create <;>
    simp [openRequest, alloc, create]

end Calls

end H2oTpcc

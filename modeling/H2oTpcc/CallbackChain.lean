import Mathlib.Data.List.Basic

/-! Requests served by chains of callbacks. A request owns a context, a
transaction and one reply; each callback runs to its end, and on its way may read
and change the context, buffer sets, submit one operation whose future runs the
next callback, answer the client, and release what it holds. A callback body is a
`Prog`, so that it can be both executed and examined statement by statement. -/
namespace H2oTpcc

/-- What can be asked of the database through a future. -/
inductive Operation (K : Type) where
  | get (key : K)
  | getRange (first last : K)
  | commit
  | onError (code : Nat)

/-- A ready future; a `code` is never 0. -/
inductive Future (K V : Type) where
  | error (code : Nat)
  | value (value : Option V)
  | rows (rows : List (K × V)) (more : Bool)
  | done

namespace Future

/-- `fdb_future_get_error`. -/
def getError : Future K V → Nat
  | error code => code
  | _ => 0

/-- `fdb_future_get_value`: nothing when the call fails or the key is absent. -/
def getValue : Future K V → Option V
  | value found => found
  | _ => none

/-- `fdb_future_get_keyvalue_array`: the rows, whether or not there are more. -/
def getKeyvalueArray : Future K V → List (K × V)
  | rows found _ => found
  | _ => []

@[simp] theorem getError_error (code : Nat) : (error code : Future K V).getError = code := rfl
@[simp] theorem getError_value (found : Option V) : (value found : Future K V).getError = 0 := rfl
@[simp] theorem getError_done : (done : Future K V).getError = 0 := rfl
@[simp] theorem getValue_value (found : Option V) : (value found : Future K V).getValue = found := rfl
@[simp] theorem getValue_done : (done : Future K V).getValue = none := rfl

end Future

/-- A callback body over contexts `σ`, callback names `κ` and replies `ρ`. -/
inductive Prog (σ κ K V ρ α : Type) where
  | pure (result : α)
  /-- Allocate the zeroed context. -/
  | alloc (next : Bool → Prog σ κ K V ρ α)
  /-- Create the transaction. -/
  | create (next : Bool → Prog σ κ K V ρ α)
  | load (next : σ → Prog σ κ K V ρ α)
  | store (update : σ → σ) (next : Prog σ κ K V ρ α)
  /-- An array access at `position` in an array of `bound` elements. -/
  | index (position bound : Nat) (next : Prog σ κ K V ρ α)
  | time (next : Int64 → Prog σ κ K V ρ α)
  /-- The seed that all requests share, wherever their draws have left it. The draws of
  one callback go on from there. -/
  | draw (next : UInt32 → Prog σ κ K V ρ α)
  | set (key : K) (value : V) (next : Prog σ κ K V ρ α)
  | submit (operation : Operation K) (callback : κ) (next : Bool → Prog σ κ K V ρ α)
  | send (reply : ρ) (next : Prog σ κ K V ρ α)
  | destroy (next : Prog σ κ K V ρ α)
  | free (next : Prog σ κ K V ρ α)

namespace Prog
variable {σ κ K V ρ α β : Type}

protected def bind : Prog σ κ K V ρ α → (α → Prog σ κ K V ρ β) → Prog σ κ K V ρ β
  | pure result, rest => rest result
  | alloc next, rest => alloc fun ok => (next ok).bind rest
  | create next, rest => create fun ok => (next ok).bind rest
  | load next, rest => load fun ctx => (next ctx).bind rest
  | store update next, rest => store update (next.bind rest)
  | index position bound next, rest => index position bound (next.bind rest)
  | time next, rest => time fun now => (next now).bind rest
  | draw next, rest => draw fun seed => (next seed).bind rest
  | set key value next, rest => set key value (next.bind rest)
  | submit operation callback next, rest => submit operation callback fun ok => (next ok).bind rest
  | send reply next, rest => send reply (next.bind rest)
  | destroy next, rest => destroy (next.bind rest)
  | free next, rest => free (next.bind rest)

instance : Monad (Prog σ κ K V ρ) where
  pure := Prog.pure
  bind := Prog.bind

end Prog

/-! ## Statements -/

namespace Stmt
variable {σ κ K V ρ : Type}

def alloc : Prog σ κ K V ρ Bool := .alloc .pure
def create : Prog σ κ K V ρ Bool := .create .pure
def load : Prog σ κ K V ρ σ := .load .pure
def store (update : σ → σ) : Prog σ κ K V ρ Unit := .store update (.pure ())
def index (position bound : Nat) : Prog σ κ K V ρ Unit := .index position bound (.pure ())
def time : Prog σ κ K V ρ Int64 := .time .pure
def draw : Prog σ κ K V ρ UInt32 := .draw .pure
def set (key : K) (value : V) : Prog σ κ K V ρ Unit := .set key value (.pure ())
def submit (operation : Operation K) (callback : κ) : Prog σ κ K V ρ Bool :=
  .submit operation callback .pure
def send (reply : ρ) : Prog σ κ K V ρ Unit := .send reply (.pure ())
def destroy : Prog σ κ K V ρ Unit := .destroy (.pure ())
def free : Prog σ κ K V ρ Unit := .free (.pure ())

def forEach (body : Nat → Prog σ κ K V ρ Unit) : List Nat → Prog σ κ K V ρ Unit
  | [] => pure ()
  | i :: rest => do
    body i
    forEach body rest

/-- `for (i = 0; i < count; i++)`. -/
def forRange (count : Nat) (body : Nat → Prog σ κ K V ρ Unit) : Prog σ κ K V ρ Unit :=
  forEach body (List.range count)

end Stmt

/-! ## Running a callback to its end -/

/-- How the environment answers what one callback asks of it. -/
structure Answers where
  /-- The context could be allocated. -/
  alloc : Bool := true
  /-- The transaction could be created. -/
  create : Bool := true
  /-- The future was created and its callback registered. -/
  accept : Bool := true
  /-- The clock. -/
  now : Int64 := 0
  /-- The shared seed. -/
  seed : UInt32 := 0

/-- A request between two callbacks: its context, the operation whose future is
outstanding with the callback it will run, the reply, and the sets buffered by
the callback that ran last. -/
structure Session (σ κ K V ρ : Type) where
  ctx : σ
  pending : Option (Operation K × κ) := none
  reply : Option ρ := none
  sets : List (K × V) := []

/-- The session after a submission, whose future exists only if it was accepted. -/
def Session.submit (answers : Answers) (operation : Operation K) (callback : κ)
    (session : Session σ κ K V ρ) : Session σ κ K V ρ :=
  if answers.accept then { session with pending := some (operation, callback) } else session

section Submit
variable {σ κ K V ρ : Type} (answers : Answers) (operation : Operation K) (callback : κ)
  (session : Session σ κ K V ρ)

@[simp] theorem Session.submit_ctx : (session.submit answers operation callback).ctx = session.ctx := by
  unfold submit
  split <;> rfl

@[simp] theorem Session.submit_reply :
    (session.submit answers operation callback).reply = session.reply := by
  unfold submit
  split <;> rfl

@[simp] theorem Session.submit_sets : (session.submit answers operation callback).sets = session.sets := by
  unfold submit
  split <;> rfl

/-- An operation that is not accepted leaves the session as it was: the callback will never run. -/
theorem Session.submit_pending :
    (session.submit answers operation callback).pending =
      if answers.accept then some (operation, callback) else session.pending := by
  unfold submit
  split <;> rfl

end Submit

namespace Prog
variable {σ κ K V ρ α β : Type}

def run (answers : Answers) : Prog σ κ K V ρ α → Session σ κ K V ρ → α × Session σ κ K V ρ
  | pure result, session => (result, session)
  | alloc next, session => (next answers.alloc).run answers session
  | create next, session => (next answers.create).run answers session
  | load next, session => (next session.ctx).run answers session
  | store update next, session => next.run answers { session with ctx := update session.ctx }
  | index _ _ next, session => next.run answers session
  | time next, session => (next answers.now).run answers session
  | draw next, session => (next answers.seed).run answers session
  | set key value next, session =>
    next.run answers { session with sets := session.sets ++ [(key, value)] }
  | submit operation callback next, session =>
    (next answers.accept).run answers (session.submit answers operation callback)
  | send reply next, session => next.run answers { session with reply := some reply }
  | destroy next, session => next.run answers session
  | free next, session => next.run answers session

variable (answers : Answers) (session : Session σ κ K V ρ)

@[simp] theorem run_pure (result : α) :
    (Pure.pure result : Prog σ κ K V ρ α).run answers session = (result, session) := rfl

@[simp] theorem run_bind (first : Prog σ κ K V ρ α) (rest : α → Prog σ κ K V ρ β) :
    (first >>= rest).run answers session =
      (rest (first.run answers session).1).run answers (first.run answers session).2 := by
  change (first.bind rest).run answers session = _
  induction first generalizing session with
  | pure => rfl
  | _ => simp only [Prog.bind, run, *]

@[simp] theorem run_alloc :
    (Stmt.alloc : Prog σ κ K V ρ Bool).run answers session = (answers.alloc, session) := rfl

@[simp] theorem run_create :
    (Stmt.create : Prog σ κ K V ρ Bool).run answers session = (answers.create, session) := rfl

@[simp] theorem run_load :
    (Stmt.load : Prog σ κ K V ρ σ).run answers session = (session.ctx, session) := rfl

@[simp] theorem run_store (update : σ → σ) :
    (Stmt.store update : Prog σ κ K V ρ Unit).run answers session =
      ((), { session with ctx := update session.ctx }) := rfl

@[simp] theorem run_index (position bound : Nat) :
    (Stmt.index position bound : Prog σ κ K V ρ Unit).run answers session = ((), session) := rfl

@[simp] theorem run_time :
    (Stmt.time : Prog σ κ K V ρ Int64).run answers session = (answers.now, session) := rfl

@[simp] theorem run_draw :
    (Stmt.draw : Prog σ κ K V ρ UInt32).run answers session = (answers.seed, session) := rfl

@[simp] theorem run_set (key : K) (value : V) :
    (Stmt.set key value : Prog σ κ K V ρ Unit).run answers session =
      ((), { session with sets := session.sets ++ [(key, value)] }) := rfl

@[simp] theorem run_submit (operation : Operation K) (callback : κ) :
    (Stmt.submit operation callback : Prog σ κ K V ρ Bool).run answers session =
      (answers.accept, session.submit answers operation callback) := rfl

@[simp] theorem run_send (reply : ρ) :
    (Stmt.send reply : Prog σ κ K V ρ Unit).run answers session =
      ((), { session with reply := some reply }) := rfl

@[simp] theorem run_destroy :
    (Stmt.destroy : Prog σ κ K V ρ Unit).run answers session = ((), session) := rfl

@[simp] theorem run_free :
    (Stmt.free : Prog σ κ K V ρ Unit).run answers session = ((), session) := rfl

/-- A loop whose iterations buffer one set each buffers them in order. -/
theorem run_forRange_sets (count : Nat) (body : Nat → Prog σ κ K V ρ Unit) (set : Nat → K × V)
    (iteration : ∀ i session, (body i).run answers session =
      ((), { session with sets := session.sets ++ [set i] })) :
    (Stmt.forRange count body).run answers session =
      ((), { session with sets := session.sets ++ (List.range count).map set }) := by
  unfold Stmt.forRange
  induction List.range count generalizing session with
  | nil => simp [Stmt.forEach]
  | cons i rest ih => simp [Stmt.forEach, iteration, ih]

theorem run_forRange_skip (count : Nat) (body : Nat → Prog σ κ K V ρ Unit)
    (iteration : ∀ i session, (body i).run answers session = ((), session)) :
    (Stmt.forRange count body).run answers session = ((), session) := by
  unfold Stmt.forRange
  induction List.range count generalizing session with
  | nil => simp [Stmt.forEach]
  | cons i rest ih => simp [Stmt.forEach, iteration, ih]

end Prog

/-- A kind of request: its zeroed context, its entry point and its callbacks. -/
structure Chain (S σ κ K V ρ : Type) where
  zero : σ
  entry : S → Prog σ κ K V ρ Unit
  body : κ → Future K V → Prog σ κ K V ρ Unit

namespace Chain
variable {S σ κ K V ρ : Type} (chain : Chain S σ κ K V ρ)

/-- The entry point, from the request to its first outstanding future. -/
def start (parameters : S) (answers : Answers) : Session σ κ K V ρ :=
  ((chain.entry parameters).run answers { ctx := chain.zero }).2

/-- A future becomes ready: its callback runs. -/
def resume (answers : Answers) (session : Session σ κ K V ρ) (future : Future K V) :
    Session σ κ K V ρ :=
  match session.pending with
  | none => session
  | some (_, callback) =>
    ((chain.body callback future).run answers { session with pending := none, sets := [] }).2

/-- The sessions that a request goes through as one future after the other becomes ready. -/
def trail (session : Session σ κ K V ρ) : List (Answers × Future K V) → List (Session σ κ K V ρ)
  | [] => [session]
  | (answers, future) :: rest => session :: trail (chain.resume answers session future) rest

end Chain

end H2oTpcc

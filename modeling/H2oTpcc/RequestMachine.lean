import Mathlib.Logic.Relation
import H2oTpcc.CallbackChain

/-! One request, statement by statement. A future may become ready at any moment after
it was submitted, also before the submitting call has returned, so several callbacks of
a request can be in progress at once and they interleave freely; a callback that runs
inside the submission is the case where the newest goes first. The machine notes every
answer, every release, every array access, and every access to a context or a
transaction that is not there. -/
namespace H2oTpcc

/-- The context of a request. -/
inductive Memory (σ : Type) where
  | absent
  | live (ctx : σ)
  | freed

/-- The transaction of a request. -/
inductive Handle where
  | absent
  | live
  | destroyed
  deriving DecidableEq

/-- An access that must not happen. -/
inductive Fault where
  | noContext
  | noTransaction

/-- A request with what it has outstanding, the callbacks in progress and a record of
what has happened. -/
structure Request (σ κ K V ρ : Type) where
  memory : Memory σ := .absent
  transaction : Handle := .absent
  outstanding : List (Operation K × κ) := []
  frames : List (Prog σ κ K V ρ Unit)
  sent : List ρ := []
  destroyed : Nat := 0
  freed : Nat := 0
  /-- Positions used in arrays, with the number of elements in use. -/
  accesses : List (Nat × Nat) := []
  faults : List Fault := []

section Machine
variable {S σ κ K V ρ : Type}

namespace Request

/-- The transaction is used. -/
def useTransaction (request : Request σ κ K V ρ) : Request σ κ K V ρ :=
  if request.transaction = .live then request
  else { request with faults := request.faults ++ [.noTransaction] }

theorem useTransaction_live {request : Request σ κ K V ρ} (live : request.transaction = .live) :
    request.useTransaction = request := if_pos live

/-- The context is used; a callback that finds none ends there. -/
def useContext (request : Request σ κ K V ρ) (next : σ → Request σ κ K V ρ × Prog σ κ K V ρ Unit) :
    Request σ κ K V ρ × Prog σ κ K V ρ Unit :=
  match request.memory with
  | .live ctx => next ctx
  | _ => ({ request with faults := request.faults ++ [.noContext] }, .pure ())

theorem useContext_live {request : Request σ κ K V ρ} (live : request.memory = .live ctx)
    (next : σ → Request σ κ K V ρ × Prog σ κ K V ρ Unit) : request.useContext next = next ctx := by
  rw [useContext, live]

end Request

/-- One statement of a callback. -/
def Prog.exec (zero : σ) (answers : Answers) (request : Request σ κ K V ρ) :
    Prog σ κ K V ρ Unit → Request σ κ K V ρ × Prog σ κ K V ρ Unit
  | pure result => (request, pure result)
  | alloc next =>
    (if answers.alloc then { request with memory := .live zero } else request, next answers.alloc)
  | create next =>
    (if answers.create then { request with transaction := .live } else request, next answers.create)
  | load next => request.useContext fun ctx => (request, next ctx)
  | store update next =>
    request.useContext fun ctx => ({ request with memory := .live (update ctx) }, next)
  | index position bound next =>
    ({ request with accesses := request.accesses ++ [(position, bound)] }, next)
  | time next => (request, next answers.now)
  | draw next => (request, next answers.seed)
  | set _ _ next => (request.useTransaction, next)
  | submit operation callback next =>
    (if answers.accept then
      { request.useTransaction with outstanding := request.outstanding ++ [(operation, callback)] }
    else request.useTransaction, next answers.accept)
  | send reply next => ({ request with sent := request.sent ++ [reply] }, next)
  | destroy next =>
    ({ request.useTransaction with transaction := .destroyed, destroyed := request.destroyed + 1 }, next)
  | free next => request.useContext fun _ =>
    ({ request with memory := .freed, freed := request.freed + 1 }, next)

namespace Request

/-- What can happen next to a request. -/
inductive Move (K V : Type) where
  /-- The `i`-th callback goes on; one that has ended stays where it is. -/
  | run (i : Nat) (answers : Answers)
  /-- The `i`-th outstanding future becomes ready, with any outcome. -/
  | fire (i : Nat) (future : Future K V)

def move (chain : Chain S σ κ K V ρ) (request : Request σ κ K V ρ) :
    Move K V → Option (Request σ κ K V ρ)
  | .run i answers => request.frames[i]?.map fun frame =>
    { (frame.exec chain.zero answers request).1 with
      frames := request.frames.set i (frame.exec chain.zero answers request).2 }
  | .fire i future => request.outstanding[i]?.map fun waiting =>
    { request with
      outstanding := request.outstanding.eraseIdx i
      frames := request.frames ++ [chain.body waiting.2 future] }

def Step (chain : Chain S σ κ K V ρ) (request request' : Request σ κ K V ρ) : Prop :=
  ∃ move, request.move chain move = some request'

/-- The states that a request with these parameters can get into. -/
def Reachable (chain : Chain S σ κ K V ρ) (parameters : S) (request : Request σ κ K V ρ) : Prop :=
  Relation.ReflTransGen (Step chain) { frames := [chain.entry parameters] } request

/-- One move after the other. -/
def play (chain : Chain S σ κ K V ρ) (request : Request σ κ K V ρ) :
    List (Move K V) → Option (Request σ κ K V ρ)
  | [] => some request
  | next :: rest => (request.move chain next).bind (play chain · rest)

theorem Reachable.play {chain : Chain S σ κ K V ρ} {parameters : S}
    {request request' : Request σ κ K V ρ}
    (reachable : Reachable chain parameters request) (moves : List (Move K V))
    (played : request.play chain moves = some request') : Reachable chain parameters request' := by
  induction moves generalizing request with
  | nil =>
    cases played
    exact reachable
  | cons next rest ih =>
    obtain ⟨middle, moved, played⟩ := Option.bind_eq_some_iff.mp played
    exact ih (reachable.tail ⟨next, moved⟩) played

end Request

/-! ## A discipline for callbacks -/

/-- What the callback that is responsible for a request knows of it. -/
structure Own (σ : Type) where
  memory : Memory σ := .absent
  transaction : Handle := .absent
  sent : Bool := false

namespace Own

/-- Everything is in place and the client waits. -/
def held (ctx : σ) : Own σ where
  memory := .live ctx
  transaction := .live

/-- Nothing may be touched any more: the request is finished, or the next callback is
responsible for it. -/
def gone : Own σ where
  memory := .freed
  transaction := .destroyed
  sent := true

@[simp] theorem held_memory (ctx : σ) : (held ctx).memory = .live ctx := rfl
@[simp] theorem held_transaction (ctx : σ) : (held ctx).transaction = .live := rfl
@[simp] theorem held_sent (ctx : σ) : (held ctx).sent = false := rfl
@[simp] theorem mk_held (ctx : σ) : mk (.live ctx) .live false = held ctx := rfl
@[simp] theorem gone_memory : (gone : Own σ).memory = .freed := rfl
@[simp] theorem gone_transaction : (gone : Own σ).transaction = .destroyed := rfl
@[simp] theorem gone_sent : (gone : Own σ).sent = true := rfl
@[simp] theorem mk_gone : (mk .freed .destroyed true : Own σ) = gone := rfl

@[simp] theorem held_inj {ctx ctx' : σ} : held ctx = held ctx' ↔ ctx = ctx' := by
  constructor
  · rintro ⟨⟩
    rfl
  · rintro rfl
    rfl

end Own

variable (zero : σ) (At : κ → σ → Prop) (Bound : Nat → Prop)

/-- The body may run from here, ending in `post`: it touches only what is there,
releases and answers at most once, hands the request over in a state fit for the next
callback, and after that touches nothing. -/
def Prog.Safe : Prog σ κ K V ρ α → Own σ → (α → Own σ → Prop) → Prop
  | pure result, own, post => post result own
  | alloc next, own, post => own.memory = .absent ∧
    (next true).Safe { own with memory := .live zero } post ∧ (next false).Safe own post
  | create next, own, post => own.transaction = .absent ∧
    (next true).Safe { own with transaction := .live } post ∧ (next false).Safe own post
  | load next, own, post => ∃ ctx, own.memory = .live ctx ∧ (next ctx).Safe own post
  | store update next, own, post =>
    ∃ ctx, own.memory = .live ctx ∧ next.Safe { own with memory := .live (update ctx) } post
  | index position bound next, own, post => (position < bound ∧ Bound bound) ∧ next.Safe own post
  | time next, own, post => ∀ now, (next now).Safe own post
  | draw next, own, post => ∀ seed, (next seed).Safe own post
  | set _ _ next, own, post => own.transaction = .live ∧ next.Safe own post
  | submit _ callback next, own, post =>
    (∃ ctx, own = .held ctx ∧ At callback ctx) ∧ (next true).Safe .gone post ∧ (next false).Safe own post
  | send _ next, own, post => own.sent = false ∧ next.Safe { own with sent := true } post
  | destroy next, own, post =>
    own.transaction = .live ∧ next.Safe { own with transaction := .destroyed } post
  | free next, own, post =>
    (∃ ctx, own.memory = .live ctx) ∧ next.Safe { own with memory := .freed } post

section Rules
variable {zero At Bound} {own : Own σ}

@[simp] theorem safe_pure {post : α → Own σ → Prop} (result : α) :
    (Pure.pure result : Prog σ κ K V ρ α).Safe zero At Bound own post ↔ post result own := Iff.rfl

@[simp] theorem safe_bind {post : β → Own σ → Prop} (first : Prog σ κ K V ρ α)
    (rest : α → Prog σ κ K V ρ β) :
    (first >>= rest).Safe zero At Bound own post ↔
      first.Safe zero At Bound own fun result own' => (rest result).Safe zero At Bound own' post := by
  change (first.bind rest).Safe zero At Bound own post ↔ _
  induction first generalizing own with
  | pure => rfl
  | _ => simp only [Prog.bind, Prog.Safe, *]

theorem Prog.Safe.mono {post post' : α → Own σ → Prop} {body : Prog σ κ K V ρ α}
    (safe : body.Safe zero At Bound own post)
    (weaker : ∀ result own', post result own' → post' result own') :
    body.Safe zero At Bound own post' := by
  induction body generalizing own with
  | pure => exact weaker _ _ safe
  | _ => simp only [Prog.Safe] at safe ⊢; grind

section Statements

@[simp] theorem safe_alloc {post : Bool → Own σ → Prop} :
    (Stmt.alloc : Prog σ κ K V ρ Bool).Safe zero At Bound own post ↔ own.memory = .absent ∧
      post true { own with memory := .live zero } ∧ post false own := Iff.rfl

@[simp] theorem safe_create {post : Bool → Own σ → Prop} :
    (Stmt.create : Prog σ κ K V ρ Bool).Safe zero At Bound own post ↔ own.transaction = .absent ∧
      post true { own with transaction := .live } ∧ post false own := Iff.rfl

@[simp] theorem safe_load {post : σ → Own σ → Prop} :
    (Stmt.load : Prog σ κ K V ρ σ).Safe zero At Bound own post ↔
      ∃ ctx, own.memory = .live ctx ∧ post ctx own := Iff.rfl

@[simp] theorem safe_store {post : Unit → Own σ → Prop} (update : σ → σ) :
    (Stmt.store update : Prog σ κ K V ρ Unit).Safe zero At Bound own post ↔
      ∃ ctx, own.memory = .live ctx ∧ post () { own with memory := .live (update ctx) } := Iff.rfl

@[simp] theorem safe_index {post : Unit → Own σ → Prop} (position bound : Nat) :
    (Stmt.index position bound : Prog σ κ K V ρ Unit).Safe zero At Bound own post ↔
      (position < bound ∧ Bound bound) ∧ post () own := Iff.rfl

@[simp] theorem safe_time {post : Int64 → Own σ → Prop} :
    (Stmt.time : Prog σ κ K V ρ Int64).Safe zero At Bound own post ↔ ∀ now, post now own := Iff.rfl

@[simp] theorem safe_draw {post : UInt32 → Own σ → Prop} :
    (Stmt.draw : Prog σ κ K V ρ UInt32).Safe zero At Bound own post ↔ ∀ seed, post seed own := Iff.rfl

@[simp] theorem safe_set {post : Unit → Own σ → Prop} (key : K) (value : V) :
    (Stmt.set key value : Prog σ κ K V ρ Unit).Safe zero At Bound own post ↔
      own.transaction = .live ∧ post () own := Iff.rfl

@[simp] theorem safe_submit {post : Bool → Own σ → Prop} (operation : Operation K) (callback : κ) :
    (Stmt.submit operation callback : Prog σ κ K V ρ Bool).Safe zero At Bound own post ↔
      (∃ ctx, own = .held ctx ∧ At callback ctx) ∧ post true .gone ∧ post false own := Iff.rfl

@[simp] theorem safe_send {post : Unit → Own σ → Prop} (reply : ρ) :
    (Stmt.send reply : Prog σ κ K V ρ Unit).Safe zero At Bound own post ↔
      own.sent = false ∧ post () { own with sent := true } := Iff.rfl

@[simp] theorem safe_destroy {post : Unit → Own σ → Prop} :
    (Stmt.destroy : Prog σ κ K V ρ Unit).Safe zero At Bound own post ↔
      own.transaction = .live ∧ post () { own with transaction := .destroyed } := Iff.rfl

@[simp] theorem safe_free {post : Unit → Own σ → Prop} :
    (Stmt.free : Prog σ κ K V ρ Unit).Safe zero At Bound own post ↔
      (∃ ctx, own.memory = .live ctx) ∧ post () { own with memory := .freed } := Iff.rfl

/-- A loop whose iterations leave everything in place is safe, and so is what follows it. -/
theorem safe_forRange {post : Unit → Own σ → Prop} {count : Nat} {body : Nat → Prog σ κ K V ρ Unit}
    (iteration : ∀ i < count, (body i).Safe zero At Bound own fun _ own' => own' = own)
    (after : post () own) : (Stmt.forRange count body).Safe zero At Bound own post := by
  have indices : ∀ i ∈ List.range count, (body i).Safe zero At Bound own fun _ own' => own' = own :=
    fun i member => iteration i (List.mem_range.mp member)
  unfold Stmt.forRange
  generalize List.range count = loop at indices
  induction loop with
  | nil => exact after
  | cons i rest ih =>
    simp only [Stmt.forEach, safe_bind]
    refine (indices i List.mem_cons_self).mono fun _ own' same => ?_
    rw [same]
    exact ih fun j member => indices j (List.mem_cons_of_mem _ member)

end Statements

end Rules

/-! ## What the discipline gives -/

/-- The record so far is as it should be. -/
structure Request.Clean (Bound : Nat → Prop) (request : Request σ κ K V ρ) : Prop where
  no_fault : request.faults = []
  in_bounds : ∀ access ∈ request.accesses, access.1 < access.2 ∧ Bound access.2
  sent_once : request.sent.length ≤ 1
  destroyed_once : request.destroyed = if request.transaction = .destroyed then 1 else 0
  freed_once : request.freed = match request.memory with | .freed => 1 | _ => 0

theorem Request.Clean.index {Bound : Nat → Prop} {request : Request σ κ K V ρ}
    (clean : request.Clean Bound) (inside : position < bound ∧ Bound bound) :
    Request.Clean Bound { request with accesses := request.accesses ++ [(position, bound)] } := by
  refine { clean with in_bounds := fun access member => ?_ }
  rcases List.mem_append.mp member with old | new
  · exact clean.in_bounds access old
  · rw [List.mem_singleton.mp new]
    exact inside

/-- What the responsible callback should know. -/
def Request.own (request : Request σ κ K V ρ) : Own σ where
  memory := request.memory
  transaction := request.transaction
  sent := !request.sent.isEmpty

section Steps
variable {zero At Bound} {request : Request σ κ K V ρ} {frame : Prog σ κ K V ρ Unit}
  {post : Unit → Own σ → Prop}

/-- A statement of the responsible callback: it stays responsible, or it has just
handed the request over. -/
theorem Prog.Safe.exec (safe : frame.Safe zero At Bound request.own post) (clean : request.Clean Bound)
    (answers : Answers) :
    (frame.exec zero answers request).1.Clean Bound ∧
    (((frame.exec zero answers request).1.outstanding = request.outstanding ∧
        (frame.exec zero answers request).2.Safe zero At Bound (frame.exec zero answers request).1.own
          post) ∨
      ∃ operation callback ctx,
        (frame.exec zero answers request).1.outstanding = request.outstanding ++ [(operation, callback)] ∧
        (frame.exec zero answers request).1.own = .held ctx ∧ At callback ctx ∧
        (frame.exec zero answers request).2.Safe zero At Bound .gone post) := by
  cases frame with
  | pure result => exact ⟨clean, .inl ⟨rfl, safe⟩⟩
  | time next => exact ⟨clean, .inl ⟨rfl, safe answers.now⟩⟩
  | draw next => exact ⟨clean, .inl ⟨rfl, safe answers.seed⟩⟩
  | alloc next =>
    obtain ⟨absent, allocated, failed⟩ := safe
    change request.memory = .absent at absent
    cases answered : answers.alloc <;> simp only [Prog.exec, answered]
    · exact ⟨clean, .inl ⟨rfl, failed⟩⟩
    · have none := clean.freed_once
      rw [absent] at none
      exact ⟨{ clean with freed_once := none }, .inl ⟨rfl, allocated⟩⟩
  | create next =>
    obtain ⟨absent, created, failed⟩ := safe
    change request.transaction = .absent at absent
    cases answered : answers.create <;> simp only [Prog.exec, answered]
    · exact ⟨clean, .inl ⟨rfl, failed⟩⟩
    · have none := clean.destroyed_once
      rw [absent] at none
      exact ⟨{ clean with destroyed_once := none }, .inl ⟨rfl, created⟩⟩
  | load next =>
    obtain ⟨ctx, live, rest⟩ := safe
    change request.memory = .live ctx at live
    simp only [Prog.exec, Request.useContext_live live]
    exact ⟨clean, .inl ⟨trivial, rest⟩⟩
  | store update next =>
    obtain ⟨ctx, live, rest⟩ := safe
    change request.memory = .live ctx at live
    have none := clean.freed_once
    rw [live] at none
    simp only [Prog.exec, Request.useContext_live live]
    exact ⟨{ clean with freed_once := none }, .inl ⟨trivial, rest⟩⟩
  | index position bound next =>
    obtain ⟨inside, rest⟩ := safe
    exact ⟨clean.index inside, .inl ⟨rfl, rest⟩⟩
  | set key value next =>
    obtain ⟨live, rest⟩ := safe
    change request.transaction = .live at live
    simp only [Prog.exec, Request.useTransaction_live live]
    exact ⟨clean, .inl ⟨trivial, rest⟩⟩
  | submit operation callback next =>
    obtain ⟨⟨ctx, held, fit⟩, accepted, refused⟩ := safe
    have live : request.transaction = .live := congrArg Own.transaction held
    cases answered : answers.accept <;> simp only [Prog.exec, Request.useTransaction_live live, answered]
    · exact ⟨clean, .inl ⟨rfl, refused⟩⟩
    · exact ⟨{ clean with }, .inr ⟨operation, callback, ctx, rfl, held, fit, accepted⟩⟩
  | send reply next =>
    obtain ⟨unsent, rest⟩ := safe
    have none : request.sent = [] := by simpa [Request.own] using unsent
    refine ⟨{ clean with sent_once := ?_ }, .inl ⟨rfl, ?_⟩⟩
    · simp [Prog.exec, none]
    · simpa [Prog.exec, Request.own, none] using rest
  | destroy next =>
    obtain ⟨live, rest⟩ := safe
    change request.transaction = .live at live
    have none := clean.destroyed_once
    rw [live] at none
    simp only [Prog.exec, Request.useTransaction_live live]
    exact ⟨{ clean with destroyed_once := by simp [none] }, .inl ⟨trivial, rest⟩⟩
  | free next =>
    obtain ⟨⟨ctx, live⟩, rest⟩ := safe
    change request.memory = .live ctx at live
    have none := clean.freed_once
    rw [live] at none
    simp only [Prog.exec, Request.useContext_live live]
    exact ⟨{ clean with freed_once := by simp [none] }, .inl ⟨trivial, rest⟩⟩

/-- A statement of a callback that is not responsible touches nothing. -/
theorem Prog.Safe.exec_gone (safe : frame.Safe zero At Bound .gone post) (clean : request.Clean Bound)
    (answers : Answers) :
    (∃ accesses, (frame.exec zero answers request).1 = { request with accesses }) ∧
    (frame.exec zero answers request).1.Clean Bound ∧
    (frame.exec zero answers request).2.Safe zero At Bound .gone post := by
  cases frame with
  | pure result => exact ⟨⟨_, rfl⟩, clean, safe⟩
  | time next => exact ⟨⟨_, rfl⟩, clean, safe answers.now⟩
  | draw next => exact ⟨⟨_, rfl⟩, clean, safe answers.seed⟩
  | index position bound next =>
    obtain ⟨inside, rest⟩ := safe
    exact ⟨⟨_, rfl⟩, clean.index inside, rest⟩
  | submit operation callback next =>
    obtain ⟨⟨ctx, held, _⟩, _⟩ := safe
    cases held
  | load next | store update next =>
    obtain ⟨ctx, live, _⟩ := safe
    cases live
  | free next =>
    obtain ⟨⟨ctx, live⟩, _⟩ := safe
    cases live
  | alloc next | create next | set key value next | send reply next | destroy next =>
    exact absurd safe.1 (by simp)

end Steps

/-- One callback in progress that is `Good` is in charge of the request, or the callback
of an outstanding future is; all other callbacks in progress are `Inert`. -/
inductive Request.Charge (At : κ → σ → Prop) (Good : Prog σ κ K V ρ Unit → Own σ → Prop)
    (Inert : Prog σ κ K V ρ Unit → Prop) (request : Request σ κ K V ρ) : Prop where
  | running (i : Nat) (active : Prog σ κ K V ρ Unit) (found : request.frames[i]? = some active)
      (idle : request.outstanding = []) (good : Good active request.own)
      (others : ∀ j frame, j ≠ i → request.frames[j]? = some frame → Inert frame)
  | waiting (operation : Operation K) (callback : κ) (ctx : σ)
      (pending : request.outstanding = [(operation, callback)]) (held : request.own = .held ctx)
      (fit : At callback ctx) (others : ∀ frame ∈ request.frames, Inert frame)

/-- The callback in charge keeps the discipline; the others may still run and touch nothing. -/
def Request.Custody (request : Request σ κ K V ρ) : Prop :=
  request.Charge At (fun active own => active.Safe zero At Bound own fun _ _ => True)
    fun frame => frame.Safe zero At Bound .gone fun _ _ => True

/-- Every callback keeps the discipline when it runs where `At` lets it. -/
structure Chain.Disciplined (chain : Chain S σ κ K V ρ) (parameters : S) (At : κ → σ → Prop)
    (Bound : Nat → Prop) : Prop where
  entry : (chain.entry parameters).Safe chain.zero At Bound {} fun _ _ => True
  body : ∀ callback future ctx, At callback ctx →
    (chain.body callback future).Safe chain.zero At Bound (.held ctx) fun _ _ => True

section Custody
variable {chain : Chain S σ κ K V ρ} {parameters : S} {At Bound} {request request' : Request σ κ K V ρ}

/-- Callbacks in progress other than one may be replaced by ones that touch nothing. -/
theorem inert_set {frames : List (Prog σ κ K V ρ Unit)} {frame' : Prog σ κ K V ρ Unit} {i : Nat}
    {Inert : Prog σ κ K V ρ Unit → Prop} (inert : Inert frame')
    (others : ∀ j frame, j ≠ i → frames[j]? = some frame → Inert frame) :
    ∀ frame ∈ frames.set i frame', Inert frame := by
  intro frame member
  obtain ⟨j, found⟩ := List.mem_iff_getElem?.mp member
  rw [List.getElem?_set] at found
  split at found
  · split at found <;> cases found
    exact inert
  · exact others j frame (Ne.symm ‹_›) found

section Charge
variable {Good : Prog σ κ K V ρ Unit → Own σ → Prop} {Inert : Prog σ κ K V ρ Unit → Prop}

/-- The callback of the future that becomes ready takes over the charge that the future stood
for. -/
theorem Request.Charge.fire (charge : request.Charge At Good Inert)
    (moved : request.move chain (.fire i future) = some request')
    (starts : ∀ callback ctx, At callback ctx → Good (chain.body callback future) (.held ctx)) :
    request'.Charge At Good Inert := by
  obtain ⟨⟨operation, callback⟩, waiting, rfl⟩ := Option.map_eq_some_iff.mp moved
  cases charge with
  | running _ _ _ idle => simp [idle] at waiting
  | waiting operation' callback' ctx pending held fit others =>
    rw [pending, List.getElem?_singleton] at waiting
    split at waiting <;> cases waiting
    rename_i first
    subst first
    refine .running request.frames.length (chain.body callback future) (by simp) (by simp [pending]) ?_ ?_
    · change Good (chain.body callback future) request.own
      rw [held]
      exact starts callback ctx fit
    · intro j frame apart found
      have old : j < request.frames.length := by
        obtain ⟨bound, _⟩ := List.getElem?_eq_some_iff.mp found
        rw [List.length_append, List.length_singleton] at bound
        omega
      rw [List.getElem?_append_left old] at found
      exact others frame (List.mem_of_getElem? found)

/-- The callback in charge keeps the request or hands it over; the others do nothing. -/
theorem Request.Charge.run (charge : request.Charge At Good Inert)
    (moved : request.move chain (.run i answers) = some request')
    (goesOn : ∀ frame, request.frames[i]? = some frame → Good frame request.own →
      ((frame.exec chain.zero answers request).1.outstanding = request.outstanding ∧
        Good (frame.exec chain.zero answers request).2 (frame.exec chain.zero answers request).1.own) ∨
      ∃ operation callback ctx,
        (frame.exec chain.zero answers request).1.outstanding =
          request.outstanding ++ [(operation, callback)] ∧
        (frame.exec chain.zero answers request).1.own = .held ctx ∧ At callback ctx ∧
        Inert (frame.exec chain.zero answers request).2)
    (idles : ∀ frame, request.frames[i]? = some frame → Inert frame →
      (∃ accesses, (frame.exec chain.zero answers request).1 = { request with accesses }) ∧
      Inert (frame.exec chain.zero answers request).2) :
    request'.Charge At Good Inert := by
  obtain ⟨frame, running, rfl⟩ := Option.map_eq_some_iff.mp moved
  obtain ⟨inside, _⟩ := List.getElem?_eq_some_iff.mp running
  cases charge with
  | running j active found idle good others =>
    by_cases own : i = j
    · subst own
      cases found.symm.trans running
      obtain ⟨kept, good⟩ | ⟨operation, callback, ctx, grown, held, fit, inert⟩ :=
        goesOn frame running good
      · refine .running i _ (by simp [inside]) (kept.trans idle) good ?_
        intro j frame apart found'
        rw [List.getElem?_set_ne (Ne.symm apart)] at found'
        exact others j frame apart found'
      · refine .waiting operation callback ctx ?_ held fit (inert_set inert others)
        rw [grown, idle, List.nil_append]
    · obtain ⟨⟨accesses, same⟩, inert⟩ := idles frame running (others i frame own running)
      rw [same]
      refine .running j active (by rw [List.getElem?_set_ne own]; exact found) idle good ?_
      intro k frame' apart found'
      rw [List.getElem?_set] at found'
      split at found'
      · cases found'
        exact inert
      · exact others k frame' apart found'
  | waiting operation callback ctx pending held fit others =>
    obtain ⟨⟨accesses, same⟩, inert⟩ := idles frame running (others frame (List.mem_of_getElem? running))
    rw [same]
    exact .waiting operation callback ctx pending held fit
      (inert_set inert fun j frame _ found => others frame (List.mem_of_getElem? found))

end Charge

/-- A callback in progress is the responsible one, or one that touches nothing any more. -/
theorem Request.Custody.frame {i : Nat} {frame : Prog σ κ K V ρ Unit}
    (custody : request.Custody chain.zero At Bound) (running : request.frames[i]? = some frame) :
    frame.Safe chain.zero At Bound request.own (fun _ _ => True) ∨
      frame.Safe chain.zero At Bound .gone fun _ _ => True := by
  have member := List.mem_of_getElem? running
  cases custody with
  | running j active found idle safe others =>
    by_cases own : i = j
    · subst own
      cases found.symm.trans running
      exact .inl safe
    · exact .inr (others i frame own running)
  | waiting _ _ _ _ _ _ others => exact .inr (others frame member)

/-- A future that becomes ready starts a callback that is in charge of the context, as its chain
promises. -/
theorem Request.Custody.fire (disciplined : chain.Disciplined parameters At Bound)
    (clean : request.Clean Bound) (custody : request.Custody chain.zero At Bound)
    (moved : request.move chain (.fire i future) = some request') :
    request'.Clean Bound ∧ request'.Custody chain.zero At Bound := by
  refine ⟨?_, Request.Charge.fire custody moved fun callback ctx => disciplined.body callback future ctx⟩
  obtain ⟨_, _, rfl⟩ := Option.map_eq_some_iff.mp moved
  exact { clean with }

/-- One statement of a callback passes the charge on: to the rest of the body, to a future, or
to nobody once everything is released. -/
theorem Request.Custody.run (clean : request.Clean Bound) (custody : request.Custody chain.zero At Bound)
    (moved : request.move chain (.run i answers) = some request') :
    request'.Clean Bound ∧ request'.Custody chain.zero At Bound := by
  obtain ⟨frame, running, made⟩ := Option.map_eq_some_iff.mp moved
  have clean' : (frame.exec chain.zero answers request).1.Clean Bound := by
    rcases custody.frame running with safe | inert
    · exact (safe.exec clean answers).1
    · exact (inert.exec_gone clean answers).2.1
  refine ⟨by rw [← made]; exact { clean' with }, Request.Charge.run custody moved ?_ ?_⟩
  · exact fun frame _ safe => (safe.exec clean answers).2
  · intro frame _ inert
    obtain ⟨same, _, rest⟩ := inert.exec_gone clean answers
    exact ⟨same, rest⟩

/-- One request, one answer: in every state that the request can get into. -/
structure Request.WellBehaved (Bound : Nat → Prop) (request : Request σ κ K V ρ) : Prop where
  one_future : request.outstanding.length ≤ 1
  /-- After the context is freed no callback can start. -/
  quiet : request.memory = .freed → request.outstanding = []
  /-- Nothing touches a context or a transaction that is not there. -/
  no_fault : request.faults = []
  sent_once : request.sent.length ≤ 1
  destroyed_once : request.destroyed ≤ 1
  freed_once : request.freed ≤ 1
  in_bounds : ∀ access ∈ request.accesses, access.1 < access.2 ∧ Bound access.2

/-- While the charge is kept, nothing is used after it is freed, nothing is freed twice and no
second answer is sent. -/
theorem Request.Custody.wellBehaved (clean : request.Clean Bound)
    (custody : request.Custody chain.zero At Bound) : request.WellBehaved Bound := by
  have destroyed := clean.destroyed_once
  have freed := clean.freed_once
  refine ⟨?_, ?_, clean.no_fault, clean.sent_once, ?_, ?_, clean.in_bounds⟩
  · cases custody with
    | running _ _ _ idle => simp [idle]
    | waiting _ _ _ pending => simp [pending]
  · intro gone
    cases custody with
    | running _ _ _ idle => exact idle
    | waiting _ _ ctx _ held =>
      have live : request.memory = .live ctx := congrArg Own.memory held
      rw [gone] at live
      cases live
  · split at destroyed <;> omega
  · split at freed <;> omega

/-- Along every run of a disciplined chain the charge is kept, by one future or one callback at
a time. -/
theorem Chain.Disciplined.custody (disciplined : chain.Disciplined parameters At Bound)
    (reachable : Request.Reachable chain parameters request) :
    request.Clean Bound ∧ request.Custody chain.zero At Bound := by
  induction reachable with
  | refl =>
    refine ⟨⟨rfl, by simp, Nat.zero_le _, rfl, rfl⟩, .running 0 _ rfl rfl disciplined.entry ?_⟩
    intro j frame apart found
    rw [List.getElem?_singleton, if_neg apart] at found
    cases found
  | tail _ stepped ih =>
    obtain ⟨next, moved⟩ := stepped
    cases next with
    | fire i future => exact Request.Custody.fire disciplined ih.1 ih.2 moved
    | run i answers => exact Request.Custody.run ih.1 ih.2 moved

/-- A disciplined chain behaves well in every state of every request. -/
theorem Chain.Disciplined.wellBehaved (disciplined : chain.Disciplined parameters At Bound)
    (reachable : Request.Reachable chain parameters request) : request.WellBehaved Bound :=
  have ⟨clean, custody⟩ := disciplined.custody reachable
  custody.wellBehaved clean

end Custody

end Machine

end H2oTpcc

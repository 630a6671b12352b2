import H2oTpcc.Ownership
import H2oTpcc.RequestMachine

/-! The adapter of `fdb_database.c`, statement by statement. A submission creates a future,
allocates a wrapper for its callback and sets the callback; each of the three can fail, and
what was made before is given back. When the future is ready, `future_callback` calls the
callback through the wrapper, destroys the future and frees the wrapper. The callbacks of a
request interleave as in the request machine, now also in the middle of a submission and
between a callback and the end of the `future_callback` that called it. -/
namespace H2oTpcc
open Ownership

variable {S σ κ K V ρ : Type}

/-- A call of `fdb_async_get`, `fdb_async_get_range`, `fdb_async_commit` or
`fdb_handle_error`, with what its caller does next. -/
structure Submission (σ κ K V ρ : Type) where
  operation : Operation K
  callback : κ
  next : Bool → Prog σ κ K V ρ Unit

/-- Where a thread of control is: in the handler's code, in `submit_future` or in
`future_callback`. The `caller` is the future and the wrapper of the `future_callback` that
called the handler's code; the entry point has none. -/
inductive Activation (σ κ K V ρ : Type) where
  | body (caller : Option (Nat × Nat)) (rest : Prog σ κ K V ρ Unit)
  /-- `submit_future` starts: `malloc`. -/
  | allocating (caller : Option (Nat × Nat)) (future : Nat) (call : Submission σ κ K V ρ)
  /-- `fdb_future_set_callback`. -/
  | setting (caller : Option (Nat × Nat)) (future wrapper : Nat) (call : Submission σ κ K V ρ)
  /-- It failed: `fdb_future_destroy(future)`. -/
  | refusing (caller : Option (Nat × Nat)) (future : Nat) (wrapper : Option Nat)
      (call : Submission σ κ K V ρ)
  /-- It failed: `free(ctx)`. -/
  | dropping (caller : Option (Nat × Nat)) (wrapper : Nat) (call : Submission σ κ K V ρ)
  /-- The callback has returned to `future_callback`: `fdb_future_destroy(future)`. -/
  | destroying (future wrapper : Nat)
  /-- `free(ctx)`. -/
  | freeing (wrapper : Nat)
  | returned

/-- A use of something that is not there. -/
inductive Misuse where
  | future (name : Nat)
  | wrapper (name : Nat)

/-- A request with the futures and wrappers that the adapter made for it. -/
structure Adapter (σ κ K V ρ : Type) where
  /-- The context, the transaction and the record of the request. What it has outstanding
  and the callbacks in progress are not kept there but below. -/
  core : Request σ κ K V ρ
  /-- Every `FDBFuture`, with the operation it is for. -/
  futures : Heap (Operation K) := {}
  /-- Every `fdb_callback_ctx_t`, with its `cb`. -/
  wrappers : Heap κ := {}
  /-- The futures whose callback is set and that are not ready, each with the argument
  that `future_callback` will get. -/
  registered : List (Nat × Nat) := []
  activations : List (Activation σ κ K V ρ)
  misuses : List Misuse := []

/-- How the environment answers one statement. -/
structure AdapterAnswers where
  toBody : Answers := {}
  /-- `fdb_transaction_get` and the like return a future. -/
  future : Bool := true
  /-- `malloc` returns a wrapper. -/
  wrapper : Bool := true
  /-- `fdb_future_set_callback` succeeds. -/
  set : Bool := true

namespace Adapter
variable (state : Adapter σ κ K V ρ)

def useFuture (name : Nat) : Adapter σ κ K V ρ :=
  if state.futures.Live name then state
  else { state with misuses := state.misuses ++ [.future name] }

def useWrapper (name : Nat) : Adapter σ κ K V ρ :=
  if state.wrappers.Live name then state
  else { state with misuses := state.misuses ++ [.wrapper name] }

/-- A callback may read its future, or a row inside it, with every statement. -/
def useCaller : Option (Nat × Nat) → Adapter σ κ K V ρ
  | none => state
  | some (future, _) => state.useFuture future

/-- `fdb_future_destroy`. -/
def destroyFuture (name : Nat) : Adapter σ κ K V ρ :=
  { state.useFuture name with futures := state.futures.release name }

/-- `free(ctx)`. -/
def freeWrapper (name : Nat) : Adapter σ κ K V ρ :=
  { state.useWrapper name with wrappers := state.wrappers.release name }

end Adapter

/-- Where the handler's code returns to. -/
def Activation.afterBody : Option (Nat × Nat) → Activation σ κ K V ρ
  | none => .returned
  | some (future, wrapper) => .destroying future wrapper

/-- One statement of the handler's code; a submission enters the adapter, which asks the
database for the future. -/
def Adapter.runBody (zero : σ) (answers : AdapterAnswers) (state : Adapter σ κ K V ρ)
    (caller : Option (Nat × Nat)) : Prog σ κ K V ρ Unit → Adapter σ κ K V ρ × Activation σ κ K V ρ
  | .pure _ => (state, .afterBody caller)
  | .submit operation callback next =>
    if answers.future then
      ({ state with
          core := state.core.useTransaction
          futures := state.futures.alloc operation },
        .allocating caller state.futures.size ⟨operation, callback, next⟩)
    else ({ state with core := state.core.useTransaction }, .body caller (next false))
  | statement =>
    ({ state with core := (statement.exec zero answers.toBody state.core).1 },
      .body caller (statement.exec zero answers.toBody state.core).2)

/-- One statement of an activation. -/
def Activation.exec (zero : σ) (answers : AdapterAnswers) (state : Adapter σ κ K V ρ) :
    Activation σ κ K V ρ → Adapter σ κ K V ρ × Activation σ κ K V ρ
  | body caller rest => (state.useCaller caller).runBody zero answers caller rest
  | allocating caller future call =>
    if answers.wrapper then
      ({ state with wrappers := state.wrappers.alloc call.callback },
        setting caller future state.wrappers.size call)
    else (state, refusing caller future none call)
  | setting caller future wrapper call =>
    let state := (state.useFuture future).useWrapper wrapper
    if answers.set then
      ({ state with registered := state.registered ++ [(future, wrapper)] },
        body caller (call.next true))
    else (state, refusing caller future (some wrapper) call)
  | refusing caller future none call => (state.destroyFuture future, body caller (call.next false))
  | refusing caller future (some wrapper) call =>
    (state.destroyFuture future, dropping caller wrapper call)
  | dropping caller wrapper call => (state.freeWrapper wrapper, body caller (call.next false))
  | destroying future wrapper => (state.destroyFuture future, freeing wrapper)
  | freeing wrapper => (state.freeWrapper wrapper, returned)
  | returned => (state, returned)

namespace Adapter

/-- What can happen next. -/
inductive Move (K V : Type) where
  /-- The `i`-th activation goes on. -/
  | run (i : Nat) (answers : AdapterAnswers)
  /-- The `i`-th registered future becomes ready, with any outcome. -/
  | fire (i : Nat) (future : Future K V)

/-- `future_callback` starts: it reads `ctx->cb` and calls it. -/
def futureCallback (chain : Chain S σ κ K V ρ) (state : Adapter σ κ K V ρ) (pair : Nat × Nat)
    (future : Future K V) : Activation σ κ K V ρ :=
  match state.wrappers.value? pair.2 with
  | some callback => .body (some pair) (chain.body callback future)
  | none => .returned

def move (chain : Chain S σ κ K V ρ) (state : Adapter σ κ K V ρ) :
    Move K V → Option (Adapter σ κ K V ρ)
  | .run i answers => state.activations[i]?.map fun activation =>
    { (activation.exec chain.zero answers state).1 with
      activations := state.activations.set i (activation.exec chain.zero answers state).2 }
  | .fire i future => state.registered[i]?.map fun pair =>
    { state.useWrapper pair.2 with
      registered := state.registered.eraseIdx i
      activations := state.activations ++ [state.futureCallback chain pair future] }

/-- The entry point is called. -/
def start (chain : Chain S σ κ K V ρ) (parameters : S) : Adapter σ κ K V ρ where
  core := { frames := [] }
  activations := [.body none (chain.entry parameters)]

/-- One move after the other. -/
def play (chain : Chain S σ κ K V ρ) (state : Adapter σ κ K V ρ) :
    List (Move K V) → Option (Adapter σ κ K V ρ)
  | [] => some state
  | next :: rest => (state.move chain next).bind (play chain · rest)

/-- The states that a request can get into. -/
def Reachable (chain : Chain S σ κ K V ρ) (parameters : S) (state : Adapter σ κ K V ρ) : Prop :=
  ∃ moves, (start chain parameters).play chain moves = some state

end Adapter

/-! ## Who holds what -/

/-- The futures that the activation has yet to destroy. -/
def Activation.futures : Activation σ κ K V ρ → List Nat
  | body caller _ | dropping caller _ _ => caller.toList.map Prod.fst
  | allocating caller future _ | setting caller future _ _ | refusing caller future _ _ =>
    future :: caller.toList.map Prod.fst
  | destroying future _ => [future]
  | freeing _ | returned => []

/-- The wrappers that the activation has yet to free. -/
def Activation.wrappers : Activation σ κ K V ρ → List Nat
  | body caller _ | allocating caller _ _ => caller.toList.map Prod.snd
  | setting caller _ wrapper _ | dropping caller wrapper _ => wrapper :: caller.toList.map Prod.snd
  | refusing caller _ wrapper _ => wrapper.toList ++ caller.toList.map Prod.snd
  | destroying _ wrapper | freeing wrapper => [wrapper]
  | returned => []

namespace Adapter

/-- A registered future is held by the database. -/
def futureHolders (state : Adapter σ κ K V ρ) : List Nat :=
  state.activations.flatMap Activation.futures ++ state.registered.map Prod.fst

def wrapperHolders (state : Adapter σ κ K V ρ) : List Nat :=
  state.activations.flatMap Activation.wrappers ++ state.registered.map Prod.snd

/-- Futures and wrappers are accounted for, and none was used when it was not there. -/
structure Accounts (state : Adapter σ κ K V ρ) (futures wrappers : List Nat) : Prop where
  futures : Accounted state.futures futures
  wrappers : Accounted state.wrappers wrappers
  unmisused : state.misuses = []

section Uses
variable {state : Adapter σ κ K V ρ} {name : Nat} {futures wrappers : List Nat}

private theorem useFuture_live (live : state.futures.Live name) :
    state.useFuture name = state := if_pos live

private theorem useWrapper_live (live : state.wrappers.Live name) :
    state.useWrapper name = state := if_pos live

theorem Accounts.useFuture (accounts : state.Accounts futures wrappers) (holds : name ∈ futures) :
    state.useFuture name = state := useFuture_live (accounts.futures.live holds)

theorem Accounts.useWrapper (accounts : state.Accounts futures wrappers) (holds : name ∈ wrappers) :
    state.useWrapper name = state := useWrapper_live (accounts.wrappers.live holds)

/-- Destroying a future that is held once releases it, and counts no misuse. -/
theorem Accounts.destroyFuture_eq (accounts : state.Accounts (name :: futures) wrappers) :
    state.destroyFuture name = { state with futures := state.futures.release name } := by
  rw [Adapter.destroyFuture, accounts.useFuture List.mem_cons_self]

/-- Freeing a wrapper that is held once releases it, and counts no misuse. -/
theorem Accounts.freeWrapper_eq (accounts : state.Accounts futures (name :: wrappers)) :
    state.freeWrapper name = { state with wrappers := state.wrappers.release name } := by
  rw [Adapter.freeWrapper, accounts.useWrapper List.mem_cons_self]

private theorem Accounts.destroyFuture (accounts : state.Accounts (name :: futures) wrappers) :
    (state.destroyFuture name).Accounts futures wrappers := by
  rw [accounts.destroyFuture_eq]
  exact ⟨accounts.futures.release, accounts.wrappers, accounts.unmisused⟩

private theorem Accounts.freeWrapper (accounts : state.Accounts futures (name :: wrappers)) :
    (state.freeWrapper name).Accounts futures wrappers := by
  rw [accounts.freeWrapper_eq]
  exact ⟨accounts.futures, accounts.wrappers.release, accounts.unmisused⟩

theorem Accounts.perm {futures' wrappers' : List Nat} (accounts : state.Accounts futures wrappers)
    (sameFutures : futures.Perm futures') (sameWrappers : wrappers.Perm wrappers') :
    state.Accounts futures' wrappers' :=
  ⟨accounts.futures.perm sameFutures, accounts.wrappers.perm sameWrappers, accounts.unmisused⟩

/-- A body may look at the future it was called with: its caller still holds it. -/
theorem Accounts.useCaller {caller : Option (Nat × Nat)}
    (accounts : state.Accounts (caller.toList.map Prod.fst ++ futures) wrappers) :
    state.useCaller caller = state := by
  cases caller with
  | none => rfl
  | some pair => exact accounts.useFuture (by simp)

end Uses

/-- The handler's code returns, submits, or does something else that is the request's own
affair. -/
theorem runBody_cases (zero : σ) (answers : AdapterAnswers) (state : Adapter σ κ K V ρ)
    (caller : Option (Nat × Nat)) (rest : Prog σ κ K V ρ Unit) :
    rest = .pure () ∨ (∃ operation callback next, rest = .submit operation callback next) ∨
      ((∀ operation callback next, rest ≠ .submit operation callback next) ∧
        state.runBody zero answers caller rest =
          ({ state with core := (rest.exec zero answers.toBody state.core).1 },
            .body caller (rest.exec zero answers.toBody state.core).2)) := by
  cases rest with
  | pure result => exact .inl rfl
  | submit operation callback next => exact .inr (.inl ⟨operation, callback, next, rfl⟩)
  | _ => exact .inr (.inr ⟨nofun, rfl⟩)

/-- One statement: what the activation held before, it holds or has registered after, but
for what it made or released. -/
structure After (before : Adapter σ κ K V ρ) (result : Adapter σ κ K V ρ × Activation σ κ K V ρ)
    (added : List (Nat × Nat)) (futures wrappers : List Nat) : Prop where
  registered : result.1.registered = before.registered ++ added
  accounts : result.1.Accounts (result.2.futures ++ (added.map Prod.fst ++ futures))
    (result.2.wrappers ++ (added.map Prod.snd ++ wrappers))

section Steps
variable {state : Adapter σ κ K V ρ} {futures wrappers : List Nat} {caller : Option (Nat × Nat)}
  {zero : σ} {answers : AdapterAnswers}

private theorem Accounts.afterBody (rest : Prog σ κ K V ρ Unit)
    (accounts : state.Accounts ((Activation.body caller rest).futures ++ futures)
      ((Activation.body caller rest).wrappers ++ wrappers)) :
    state.Accounts ((Activation.afterBody caller : Activation σ κ K V ρ).futures ++ futures)
      ((Activation.afterBody caller : Activation σ κ K V ρ).wrappers ++ wrappers) := by
  cases caller <;> exact accounts

/-- One statement of a body keeps the books: what it submits is registered with a pair of its
own, and what it was called with stays with the caller. -/
theorem Accounts.runBody (rest : Prog σ κ K V ρ Unit)
    (accounts : state.Accounts ((Activation.body caller rest).futures ++ futures)
      ((Activation.body caller rest).wrappers ++ wrappers)) :
    state.After (state.runBody zero answers caller rest) [] futures wrappers := by
  rcases state.runBody_cases zero answers caller rest with
    rfl | ⟨operation, callback, next, rfl⟩ | other
  · exact ⟨(List.append_nil _).symm, accounts.afterBody⟩
  · simp only [Adapter.runBody]
    split
    · exact ⟨(List.append_nil _).symm,
        accounts.futures.alloc operation, accounts.wrappers, accounts.unmisused⟩
    · exact ⟨(List.append_nil _).symm, accounts.futures, accounts.wrappers, accounts.unmisused⟩
  · rw [other.2]
    exact ⟨(List.append_nil _).symm, accounts.futures, accounts.wrappers, accounts.unmisused⟩

/-- One statement of the adapter keeps the books, whichever of its functions it belongs to; a
callback that it makes run at once takes its pair over. -/
theorem Accounts.exec (activation : Activation σ κ K V ρ)
    (accounts : state.Accounts (activation.futures ++ futures) (activation.wrappers ++ wrappers)) :
    ∃ added, state.After (activation.exec zero answers state) added futures wrappers := by
  cases activation with
  | body caller rest =>
    refine ⟨[], ?_⟩
    rw [Activation.exec, accounts.useCaller]
    exact accounts.runBody rest
  | allocating caller future call =>
    refine ⟨[], ?_⟩
    simp only [Activation.exec]
    split
    · exact ⟨(List.append_nil _).symm,
        accounts.futures, accounts.wrappers.alloc call.callback, accounts.unmisused⟩
    · exact ⟨(List.append_nil _).symm, accounts⟩
  | setting caller future wrapper call =>
    have unchanged : (state.useFuture future).useWrapper wrapper = state := by
      rw [accounts.useFuture (by simp [Activation.futures]),
        accounts.useWrapper (by simp [Activation.wrappers])]
    simp only [Activation.exec, unchanged]
    split
    · refine ⟨[(future, wrapper)], rfl, ?_⟩
      -- The pair goes from the activation to the database.
      have moves (name : Nat) (kept others : List Nat) :
          (name :: kept ++ others).Perm (kept ++ ([name] ++ others)) := List.perm_middle.symm
      have accounts := accounts.perm (moves ..) (moves ..)
      exact ⟨accounts.futures, accounts.wrappers, accounts.unmisused⟩
    · exact ⟨[], (List.append_nil _).symm, accounts⟩
  | refusing caller future wrapper call =>
    have kept := congrArg Adapter.registered accounts.destroyFuture_eq
    cases wrapper with
    | none => exact ⟨[], kept.trans (List.append_nil _).symm, accounts.destroyFuture⟩
    | some wrapper => exact ⟨[], kept.trans (List.append_nil _).symm, accounts.destroyFuture⟩
  | dropping caller wrapper call =>
    have kept := congrArg Adapter.registered accounts.freeWrapper_eq
    exact ⟨[], kept.trans (List.append_nil _).symm, accounts.freeWrapper⟩
  | destroying future wrapper =>
    have kept := congrArg Adapter.registered accounts.destroyFuture_eq
    exact ⟨[], kept.trans (List.append_nil _).symm, accounts.destroyFuture⟩
  | freeing wrapper =>
    have kept := congrArg Adapter.registered accounts.freeWrapper_eq
    exact ⟨[], kept.trans (List.append_nil _).symm, accounts.freeWrapper⟩
  | returned => exact ⟨[], (List.append_nil _).symm, accounts⟩

end Steps

/-- Every future and every wrapper is held by one activation or by the database, or was
released. -/
def Sound (state : Adapter σ κ K V ρ) : Prop := state.Accounts state.futureHolders state.wrapperHolders

section Moves
variable {chain : Chain S σ κ K V ρ} {state state' : Adapter σ κ K V ρ} {i : Nat}

/-- What one activation holds, apart from the others and the database. -/
theorem Sound.activation {activation : Activation σ κ K V ρ} (sound : state.Sound)
    (found : state.activations[i]? = some activation) :
    state.Accounts
      (activation.futures ++
        ((state.activations.eraseIdx i).flatMap Activation.futures ++ state.registered.map Prod.fst))
      (activation.wrappers ++
        ((state.activations.eraseIdx i).flatMap Activation.wrappers ++ state.registered.map Prod.snd)) := by
  refine sound.perm ?_ ?_
  · rw [← List.append_assoc]
    exact (holders_split Activation.futures found).append_right _
  · rw [← List.append_assoc]
    exact (holders_split Activation.wrappers found).append_right _

/-- A statement of any callback keeps the state sound: nothing is used or released that nobody
holds. -/
theorem Sound.run {answers : AdapterAnswers} (sound : state.Sound)
    (moved : state.move chain (.run i answers) = some state') : state'.Sound := by
  obtain ⟨activation, found, rfl⟩ := Option.map_eq_some_iff.mp moved
  obtain ⟨added, registered, accounts⟩ := (sound.activation found).exec activation
  have whole (now added others waiting : List Nat) :
      (now ++ (added ++ (others ++ waiting))).Perm ((now ++ others) ++ (waiting ++ added)) := by
    rw [List.append_assoc]
    refine .append_left now ?_
    exact List.perm_append_comm.trans (by rw [List.append_assoc])
  have accounts := accounts.perm ((whole ..).trans ((holders_set _ found).symm.append_right _))
    ((whole ..).trans ((holders_set _ found).symm.append_right _))
  rw [← List.map_append, ← List.map_append, ← registered] at accounts
  exact ⟨accounts.futures, accounts.wrappers, accounts.unmisused⟩

/-- The wrapper of a registered future is there, and has its callback. -/
theorem Sound.wrapper {pair : Nat × Nat} (sound : state.Sound)
    (found : state.registered[i]? = some pair) :
    state.useWrapper pair.2 = state ∧ ∃ callback, state.wrappers.value? pair.2 = some callback := by
  have holds : pair.2 ∈ state.wrapperHolders :=
    List.mem_append_right _ (List.mem_map_of_mem (List.mem_of_getElem? found))
  exact ⟨Accounts.useWrapper sound holds, Heap.Live.value? (sound.wrappers.live holds)⟩

/-- A future that becomes ready hands its pair over to the callback that runs for it. -/
theorem Sound.fire {future : Future K V} (sound : state.Sound)
    (moved : state.move chain (.fire i future) = some state') : state'.Sound := by
  obtain ⟨pair, found, rfl⟩ := Option.map_eq_some_iff.mp moved
  obtain ⟨used, callback, known⟩ := sound.wrapper found
  obtain ⟨inside, rfl⟩ := List.getElem?_eq_some_iff.mp found
  have waiting := List.getElem_cons_eraseIdx_perm inside
  -- The pair goes from the database to the activation that starts.
  have moves (names : Nat × Nat → Nat) (holders : List Nat) :
      (holders ++ state.registered.map names).Perm
        (holders ++ [names state.registered[i]] ++ (state.registered.eraseIdx i).map names) := by
    rw [List.append_assoc]
    exact .append_left holders (waiting.symm.map names)
  have accounts := sound.perm (moves ..) (moves ..)
  rw [futureCallback, known, used]
  refine ⟨?_, ?_, accounts.unmisused⟩
  · rw [futureHolders, List.flatMap_append, List.flatMap_singleton]
    exact accounts.futures
  · rw [wrapperHolders, List.flatMap_append, List.flatMap_singleton]
    exact accounts.wrappers

/-- Whatever happens next keeps the state sound: futures and wrappers are released exactly by
those who hold them. -/
theorem Sound.move {next : Move K V} (sound : state.Sound)
    (moved : state.move chain next = some state') :
    state'.Sound := by
  cases next with
  | run i answers => exact sound.run moved
  | fire i future => exact sound.fire moved

theorem Sound.play {moves : List (Move K V)} (sound : state.Sound)
    (played : state.play chain moves = some state') : state'.Sound := by
  induction moves generalizing state with
  | nil =>
    cases played
    exact sound
  | cons next rest ih =>
    obtain ⟨middle, moved, played⟩ := Option.bind_eq_some_iff.mp played
    exact ih (sound.move moved) played

/-- A chain starts without futures or wrappers, and has misused none. -/
theorem start_sound (chain : Chain S σ κ K V ρ) (parameters : S) : (start chain parameters).Sound :=
  ⟨.empty, .empty, rfl⟩

end Moves

end Adapter

/-! ## Rest -/

/-- The activation has come to its end. -/
def Activation.ended : Activation σ κ K V ρ → Bool
  | returned => true
  | _ => false

namespace Adapter
variable {state : Adapter σ κ K V ρ}

/-- Every activation has returned and no future is registered: nothing will happen any more. -/
structure AtRest (state : Adapter σ κ K V ρ) : Prop where
  idle : state.registered = []
  ended : ∀ activation ∈ state.activations, activation.ended = true

instance : Decidable state.AtRest :=
  decidable_of_iff (state.registered = [] ∧ ∀ activation ∈ state.activations, activation.ended = true)
    ⟨fun both => ⟨both.1, both.2⟩, fun rest => ⟨rest.idle, rest.ended⟩⟩

/-- Activations that have returned hold nothing, neither the future they ran for nor its
wrapper. -/
theorem AtRest.unheld {holds : Activation σ κ K V ρ → List Nat} (none : holds .returned = [])
    (rest : state.AtRest) : state.activations.flatMap holds = [] := by
  apply List.flatMap_eq_nil_iff.mpr
  intro activation member
  have ended := rest.ended activation member
  cases activation with
  | returned => exact none
  | _ => cases ended

/-- At rest nobody holds a future or a wrapper: all that was made has been released. -/
theorem AtRest.futureHolders (rest : state.AtRest) : state.futureHolders = [] := by
  rw [Adapter.futureHolders, rest.unheld rfl, rest.idle]
  rfl

theorem AtRest.wrapperHolders (rest : state.AtRest) : state.wrapperHolders = [] := by
  rw [Adapter.wrapperHolders, rest.unheld rfl, rest.idle]
  rfl

end Adapter
end H2oTpcc

import H2oTpcc.FutureAdapter
import H2oTpcc.Quiescence
import Mathlib.Data.List.InsertIdx

/-! The request machine is what the adapter looks like from above: a submission that is in
progress has not begun there, and it is accepted when the callback is set, or refused when
`submit_future` is about to return. Every run of a request through the adapter is followed by
a run of the request machine with the same answers, releases and array accesses, so what is
true of all states of the request machine is true of the code below it. -/
namespace H2oTpcc
open Ownership

variable {S σ κ K V ρ : Type}

/-! ## What the request machine sees -/

/-- The handler's code that is left, with a submission as if it had not begun. -/
@[simp] def Activation.frame : Activation σ κ K V ρ → Prog σ κ K V ρ Unit
  | body _ rest => rest
  | allocating _ _ call | setting _ _ _ call | refusing _ _ _ call | dropping _ _ call =>
    .submit call.operation call.callback call.next
  | destroying .. | freeing _ | returned => .pure ()

namespace Adapter

/-- The operation of a registered future and the callback it will run. -/
def asked (state : Adapter σ κ K V ρ) (pair : Nat × Nat) : Option (Operation K × κ) :=
  (state.futures.value? pair.1).bind fun operation =>
    (state.wrappers.value? pair.2).map fun callback => (operation, callback)

/-- The request without the adapter. -/
def request (state : Adapter σ κ K V ρ) (outstanding : List (Operation K × κ)) (faults : List Fault) :
    Request σ κ K V ρ :=
  { state.core with outstanding, frames := state.activations.map Activation.frame, faults }

end Adapter

/-- What `submit_future` has made so far is for the call it was made for. -/
def Activation.Known (state : Adapter σ κ K V ρ) : Activation σ κ K V ρ → Prop
  | allocating _ future call => state.futures.value? future = some call.operation
  | setting _ future wrapper call =>
    state.asked (future, wrapper) = some (call.operation, call.callback)
  | _ => True

namespace Adapter

/-- The two states agree in everything but the faults that were noted, which come at
different moments. -/
structure Shows (state : Adapter σ κ K V ρ) (outstanding : List (Operation K × κ)) : Prop where
  waiting : state.registered.map state.asked = outstanding.map some
  known : ∀ activation ∈ state.activations, activation.Known state

/-- Futures and wrappers stay what they are. -/
structure Grows (state state' : Adapter σ κ K V ρ) : Prop where
  futures : ∀ i operation, state.futures.value? i = some operation →
    state'.futures.value? i = some operation
  wrappers : ∀ i callback, state.wrappers.value? i = some callback →
    state'.wrappers.value? i = some callback

section Grows
variable {state state' : Adapter σ κ K V ρ}

private theorem asked_eq_some {pair : Nat × Nat} {operation : Operation K} {callback : κ} :
    state.asked pair = some (operation, callback) ↔
      state.futures.value? pair.1 = some operation ∧ state.wrappers.value? pair.2 = some callback := by
  simp [asked, Option.bind_eq_some_iff]

/-- What a pair of future and wrapper was made for is never forgotten: an operation once
submitted keeps its callback while the adapter goes on allocating. -/
theorem Grows.asked {pair : Nat × Nat} {known : Operation K × κ} (grows : state.Grows state')
    (before : state.asked pair = some known) : state'.asked pair = some known := by
  obtain ⟨operation, callback⟩ := known
  obtain ⟨future, wrapper⟩ := asked_eq_some.mp before
  exact asked_eq_some.mpr ⟨grows.futures _ _ future, grows.wrappers _ _ wrapper⟩

/-- A callback in progress that refers to a pair keeps referring to one that exists. -/
theorem Grows.known {activation : Activation σ κ K V ρ} (grows : state.Grows state')
    (before : activation.Known state) : activation.Known state' := by
  cases activation with
  | allocating caller future call => exact grows.futures _ _ before
  | setting caller future wrapper call => exact grows.asked before
  | _ => trivial

/-- The registered pairs still stand for the operations that the abstract request has
outstanding. -/
theorem Grows.waiting {outstanding : List (Operation K × κ)} {pairs : List (Nat × Nat)}
    (grows : state.Grows state') (before : pairs.map state.asked = outstanding.map some) :
    pairs.map state'.asked = outstanding.map some := by
  rw [← before]
  apply List.map_congr_left
  intro pair member
  have named : state.asked pair ∈ outstanding.map some := before ▸ List.mem_map_of_mem member
  obtain ⟨known, _, same⟩ := List.mem_map.mp named
  rw [← same, grows.asked same.symm]

end Grows

end Adapter

/-! ## One statement -/

/-- What a statement other than a submission does depends only on the context and the
transaction, and it notes a fault in one state as in the other. -/
theorem Prog.exec_request (zero : σ) (answers : Answers) (core : Request σ κ K V ρ)
    (outstanding : List (Operation K × κ)) (frames : List (Prog σ κ K V ρ Unit)) (faults : List Fault)
    (statement : Prog σ κ K V ρ Unit)
    (plain : ∀ operation callback next, statement ≠ .submit operation callback next) :
    ∃ faults', statement.exec zero answers { core with outstanding, frames, faults } =
        ({ (statement.exec zero answers core).1 with outstanding, frames, faults := faults' },
          (statement.exec zero answers core).2) ∧
      (core.faults = [] → faults' = [] → (statement.exec zero answers core).1.faults = []) := by
  cases statement with
  | submit operation callback next => exact absurd rfl (plain operation callback next)
  | alloc next =>
    refine ⟨faults, ?_, fun none _ => ?_⟩ <;> cases answered : answers.alloc <;> simp [exec, *]
  | create next =>
    refine ⟨faults, ?_, fun none _ => ?_⟩ <;> cases answered : answers.create <;> simp [exec, *]
  | load next | store update next | free next =>
    cases held : core.memory with
    | live ctx =>
      refine ⟨faults, by simp [exec, Request.useContext, held], fun none _ => ?_⟩
      simpa [exec, Request.useContext, held] using none
    | absent => exact ⟨faults ++ [.noContext], by simp [exec, Request.useContext, held], by simp⟩
    | freed => exact ⟨faults ++ [.noContext], by simp [exec, Request.useContext, held], by simp⟩
  | set key value next | destroy next =>
    by_cases live : core.transaction = .live
    · refine ⟨faults, by simp [exec, Request.useTransaction, live], fun none _ => ?_⟩
      simpa [exec, Request.useTransaction, live] using none
    · exact ⟨faults ++ [.noTransaction], by simp [exec, Request.useTransaction, live], by simp⟩
  | _ => exact ⟨faults, rfl, fun none _ => none⟩

/-- `submit_future` has failed and is giving back what was made. -/
@[simp] def Activation.failing : Activation σ κ K V ρ → Bool
  | refusing .. | dropping .. => true
  | _ => false

/-- The next statement asks for a future, a wrapper or the callback to be set, and that fails. -/
@[simp] def Activation.fails (answers : AdapterAnswers) : Activation σ κ K V ρ → Bool
  | body _ (.submit ..) => !answers.future
  | allocating .. => !answers.wrapper
  | setting .. => !answers.set
  | _ => false

namespace Adapter

def failing (state : Adapter σ κ K V ρ) : Bool := state.activations.any Activation.failing

/-- The state after one statement of the `i`-th activation. -/
def after (state : Adapter σ κ K V ρ) (i : Nat) (result : Adapter σ κ K V ρ × Activation σ κ K V ρ) :
    Adapter σ κ K V ρ :=
  { result.1 with activations := state.activations.set i result.2 }

/-- The request machine follows from one state to the next, and what fails in the adapter is
refused there, at the latest when `submit_future` returns. -/
def Followed (chain : Chain S σ κ K V ρ) (state state' : Adapter σ κ K V ρ)
    (outstanding : List (Operation K × κ)) (faults : List Fault) (fails : Bool) : Prop :=
  ∃ moves outstanding' faults',
    (state.request outstanding faults).play chain moves = some (state'.request outstanding' faults') ∧
    state'.Shows outstanding' ∧
    ((state.request outstanding faults).refused chain moves || state'.failing) = (fails || state.failing)

section Follow
variable {chain : Chain S σ κ K V ρ} {state now : Adapter σ κ K V ρ}
  {activation activation' : Activation σ κ K V ρ} {i : Nat}
  {outstanding outstanding' : List (Operation K × κ)} {faults : List Fault} {fails : Bool}

private theorem failing_set (found : state.activations[i]? = some activation) :
    ∃ others, state.failing = (activation.failing || others) ∧
      ∀ activation', (state.activations.set i activation').any Activation.failing =
        (activation'.failing || others) := by
  obtain ⟨inside, rfl⟩ := List.getElem?_eq_some_iff.mp found
  refine ⟨(state.activations.eraseIdx i).any Activation.failing, ?_, fun activation' => ?_⟩
  · exact (List.getElem_cons_eraseIdx_perm inside).symm.any_eq
  · exact (List.set_perm_cons_eraseIdx inside activation').any_eq

/-- Putting a step of one callback back into the state: it is enough that the state has grown,
that the callback's own pair is known in it, and that the registrations still match. -/
theorem Shows.after (shows : state.Shows outstanding) (grows : state.Grows now)
    (known : activation'.Known now)
    (waiting : now.registered.map now.asked = outstanding'.map some) :
    (state.after i (now, activation')).Shows outstanding' := by
  refine ⟨waiting, fun found member => ?_⟩
  rcases List.mem_or_eq_of_mem_set member with old | rfl
  · exact grows.known (shows.known found old)
  · exact known

/-- Statements of the adapter by itself (making a wrapper, registering it, releasing a pair) are
not seen from above: the request stays as it is. -/
theorem Shows.unseen (shows : state.Shows outstanding) (found : state.activations[i]? = some activation)
    (core : ∃ faults, now.core = { state.core with faults }) (grows : state.Grows now)
    (registered : now.registered = state.registered) (known : activation'.Known now)
    (frame : activation'.frame = activation.frame)
    (flag : activation'.failing = (fails || activation.failing)) :
    Followed chain state (state.after i (now, activation')) outstanding faults fails := by
  obtain ⟨others, before, later⟩ := failing_set found
  have same : (state.activations.set i activation').map Activation.frame =
      state.activations.map Activation.frame := by
    obtain ⟨inside, rfl⟩ := List.getElem?_eq_some_iff.mp found
    rw [List.map_set, frame, ← List.map_set, List.set_getElem_self]
  obtain ⟨noted, core⟩ := core
  refine ⟨[], outstanding, faults, ?_, shows.after grows known ?_, ?_⟩
  · simp only [Request.play, request, Adapter.after, same, core]
  · rw [registered]
    exact grows.waiting shows.waiting
  · rw [before, failing, Adapter.after, later, flag, Bool.or_assoc]
    rfl

/-- The others are statements of the handler's own code, and the request machine takes the same
step. -/
theorem Shows.seen {answers : Answers} {faults' : List Fault} (shows : state.Shows outstanding)
    (found : state.activations[i]? = some activation)
    (done : activation.frame.exec chain.zero answers (state.request outstanding faults) =
      ({ now.core with
          outstanding := outstanding'
          frames := state.activations.map Activation.frame
          faults := faults' }, activation'.frame))
    (grows : state.Grows now) (known : activation'.Known now)
    (waiting : now.registered.map now.asked = outstanding'.map some)
    (flag : (activation.frame.refused answers || activation'.failing) = (fails || activation.failing)) :
    Followed chain state (state.after i (now, activation')) outstanding faults fails := by
  obtain ⟨others, before, later⟩ := failing_set found
  have frame : (state.request outstanding faults).frames[i]? = some activation.frame := by
    simp [request, found]
  have moved : (state.request outstanding faults).move chain (.run i answers) =
      some ((state.after i (now, activation')).request outstanding' faults') := by
    simp only [Request.move, frame, Option.map_some, done]
    simp [request, Adapter.after, List.map_set]
  refine ⟨[.run i answers], outstanding', faults', ?_, shows.after grows known waiting, ?_⟩
  · simp only [Request.play, moved, Option.bind_some]
  · rw [before, failing, Adapter.after, later, ← Bool.or_assoc, ← Bool.or_assoc, ← flag]
    simp [Request.refused, Request.Move.refused, frame, moved]

/-- A step that makes no future and no wrapper loses nothing that was known. -/
theorem Grows.same (futures : now.futures = state.futures) (wrappers : now.wrappers = state.wrappers) :
    state.Grows now := by
  refine ⟨?_, ?_⟩
  · rw [futures]
    exact fun _ _ known => known
  · rw [wrappers]
    exact fun _ _ known => known

private theorem grows_destroyFuture (state : Adapter σ κ K V ρ) (name : Nat) :
    state.Grows { state with futures := state.futures.release name } :=
  ⟨fun _ _ known => Heap.value?_release.trans known, fun _ _ known => known⟩

private theorem grows_freeWrapper (state : Adapter σ κ K V ρ) (name : Nat) :
    state.Grows { state with wrappers := state.wrappers.release name } :=
  ⟨fun _ _ known => known, fun _ _ known => Heap.value?_release.trans known⟩

private theorem useTransaction_faults (core : Request σ κ K V ρ) :
    ∃ faults, core.useTransaction = { core with faults } := by
  unfold Request.useTransaction
  split
  · exact ⟨core.faults, rfl⟩
  · exact ⟨_, rfl⟩

/-- A submission, as the request machine sees it. -/
private theorem exec_submit (call : Submission σ κ K V ρ) (zero : σ) (accept : Bool) :
    ∃ faults', (Prog.submit call.operation call.callback call.next).exec zero { accept }
        (state.request outstanding faults) =
      ({ state.core with
          outstanding := if accept then outstanding ++ [(call.operation, call.callback)] else outstanding
          frames := state.activations.map Activation.frame
          faults := faults' }, call.next accept) := by
  obtain ⟨noted, used⟩ := useTransaction_faults (state.request outstanding faults)
  refine ⟨noted, ?_⟩
  simp only [Prog.exec, used]
  cases accept <;> rfl

variable {answers : AdapterAnswers}

/-- A statement of the handler's code is the same statement in the request machine; a submission
shows as one that was accepted if all of its statements went well. -/
theorem Shows.runBody {caller : Option (Nat × Nat)} {rest : Prog σ κ K V ρ Unit}
    (shows : state.Shows outstanding) (found : state.activations[i]? = some (.body caller rest)) :
    Followed chain state (state.after i (state.runBody chain.zero answers caller rest))
      outstanding faults ((Activation.body caller rest).fails answers) := by
  rcases state.runBody_cases chain.zero answers caller rest with
    rfl | ⟨operation, callback, next, rfl⟩ | other
  · refine shows.unseen found ⟨_, rfl⟩ (.same rfl rfl) rfl ?_ ?_ ?_
    all_goals cases caller <;> trivial
  · obtain ⟨noted, used⟩ := useTransaction_faults state.core
    cases given : answers.future with
    | false =>
      obtain ⟨noted', done⟩ := exec_submit ⟨operation, callback, next⟩ chain.zero false
      rw [show state.runBody chain.zero answers caller (.submit operation callback next) =
        ({ state with core := { state.core with faults := noted } }, .body caller (next false)) by
          simp [Adapter.runBody, given, used]]
      exact shows.seen found done (.same rfl rfl) trivial shows.waiting (by simp [given, Prog.refused])
    | true =>
      rw [show state.runBody chain.zero answers caller (.submit operation callback next) =
        ({ state with
            core := { state.core with faults := noted }
            futures := state.futures.alloc operation },
          .allocating caller state.futures.size ⟨operation, callback, next⟩) by
          simp [Adapter.runBody, given, used]]
      refine shows.unseen found ⟨_, rfl⟩ ?_ rfl Heap.value?_alloc_self rfl ?_
      · exact ⟨fun _ _ known => Heap.value?_alloc known, fun _ _ known => known⟩
      · simp [given]
  · obtain ⟨plain, ran⟩ := other
    obtain ⟨noted, done, _⟩ := rest.exec_request chain.zero answers.toBody state.core outstanding
      (state.activations.map Activation.frame) faults plain
    have unrefused : rest.refused answers.toBody = false := by
      cases rest with
      | submit operation callback next => exact absurd rfl (plain operation callback next)
      | _ => rfl
    have unfailed : (Activation.body caller rest).fails answers = false := by
      cases rest with
      | submit operation callback next => exact absurd rfl (plain operation callback next)
      | _ => rfl
    rw [ran, unfailed]
    exact shows.seen found done (.same rfl rfl) trivial shows.waiting
      (by simp [unrefused])

/-- A statement of `submit_future` or of `future_callback` after its callback has returned. -/
theorem Shows.exec (sound : state.Sound) (shows : state.Shows outstanding)
    (found : state.activations[i]? = some activation) :
    Followed chain state (state.after i (activation.exec chain.zero answers state)) outstanding faults
      (activation.fails answers) := by
  have accounts := sound.activation found
  have known := shows.known activation (List.mem_of_getElem? found)
  cases activation with
  | body caller rest =>
    rw [Activation.exec, accounts.useCaller]
    exact shows.runBody found
  | allocating caller future call =>
    cases given : answers.wrapper with
    | false =>
      simp only [Activation.exec, given, Bool.false_eq_true, ↓reduceIte]
      exact shows.unseen found ⟨_, rfl⟩ (.same rfl rfl) rfl trivial rfl (by simp [given])
    | true =>
      simp only [Activation.exec, given, ↓reduceIte]
      refine shows.unseen found ⟨_, rfl⟩ ?_ rfl ?_ rfl (by simp [given])
      · exact ⟨fun _ _ known => known, fun _ _ known => Heap.value?_alloc known⟩
      · exact asked_eq_some.mpr ⟨known, Heap.value?_alloc_self⟩
  | setting caller future wrapper call =>
    have unchanged : (state.useFuture future).useWrapper wrapper = state := by
      rw [accounts.useFuture (by simp [Activation.futures]),
        accounts.useWrapper (by simp [Activation.wrappers])]
    cases given : answers.set with
    | false =>
      simp only [Activation.exec, unchanged, given, Bool.false_eq_true, ↓reduceIte]
      exact shows.unseen found ⟨_, rfl⟩ (.same rfl rfl) rfl trivial rfl (by simp [given])
    | true =>
      obtain ⟨noted, done⟩ := exec_submit call chain.zero true
      simp only [Activation.exec, unchanged, given, ↓reduceIte]
      refine shows.seen found done (.same rfl rfl) trivial ?_ (by simp [given, Prog.refused])
      rw [List.map_append, if_pos rfl, List.map_append, ← shows.waiting]
      exact congrArg (_ ++ [·]) known
  | refusing caller future wrapper call =>
    have grows := grows_destroyFuture state future
    cases wrapper with
    | none =>
      obtain ⟨noted, done⟩ := exec_submit call chain.zero false
      rw [Activation.exec, accounts.destroyFuture_eq]
      exact shows.seen found done grows trivial (grows.waiting shows.waiting) rfl
    | some wrapper =>
      rw [Activation.exec, accounts.destroyFuture_eq]
      exact shows.unseen found ⟨_, rfl⟩ grows rfl trivial rfl rfl
  | dropping caller wrapper call =>
    have grows := grows_freeWrapper state wrapper
    obtain ⟨noted, done⟩ := exec_submit call chain.zero false
    rw [Activation.exec, accounts.freeWrapper_eq]
    exact shows.seen found done grows trivial (grows.waiting shows.waiting) rfl
  | destroying future wrapper =>
    rw [Activation.exec, accounts.destroyFuture_eq]
    exact shows.unseen found ⟨_, rfl⟩ (grows_destroyFuture state future) rfl trivial rfl rfl
  | freeing wrapper =>
    rw [Activation.exec, accounts.freeWrapper_eq]
    exact shows.unseen found ⟨_, rfl⟩ (grows_freeWrapper state wrapper) rfl trivial rfl rfl
  | returned => exact shows.unseen found ⟨_, rfl⟩ (.same rfl rfl) rfl trivial rfl rfl

/-- A future that becomes ready in the adapter is the one that becomes ready in the request
machine: the registered pair tells which. -/
theorem Shows.fire {future : Future K V} (sound : state.Sound) (shows : state.Shows outstanding)
    (moved : state.move chain (.fire i future) = some now) :
    Followed chain state now outstanding faults false := by
  obtain ⟨pair, found, rfl⟩ := Option.map_eq_some_iff.mp moved
  obtain ⟨used, callback, known⟩ := sound.wrapper found
  obtain ⟨waiting, there, here⟩ : ∃ waiting, outstanding[i]? = some waiting ∧
      some waiting = state.asked pair := by
    have here : (outstanding.map some)[i]? = some (state.asked pair) := by
      rw [← shows.waiting, List.getElem?_map, found]
      rfl
    rw [List.getElem?_map] at here
    exact Option.map_eq_some_iff.mp here
  have called : waiting.2 = callback := by
    have both := asked_eq_some.mp here.symm
    exact Option.some.inj (both.2.symm.trans known)
  have body : state.futureCallback chain pair future = .body (some pair) (chain.body callback future) := by
    rw [futureCallback, known]
  rw [used, body]
  refine ⟨[.fire i future], outstanding.eraseIdx i, faults, ?_, ⟨?_, ?_⟩, ?_⟩
  · simp [Request.play, Request.move, request, there, called]
  · change (state.registered.eraseIdx i).map state.asked = _
    rw [← List.eraseIdx_map, shows.waiting, List.eraseIdx_map]
  · intro activation member
    rcases List.mem_append.mp member with old | new
    · exact shows.known activation old
    · rw [List.mem_singleton.mp new]
      trivial
  · simp [Request.refused, Request.Move.refused, Request.move, request, there, failing]

end Follow

/-! ## Faults -/

section Faults
variable {chain : Chain S σ κ K V ρ} {state now : Adapter σ κ K V ρ} {activation : Activation σ κ K V ρ}
  {i : Nat} {outstanding : List (Operation K × κ)} {faults : List Fault} {answers : AdapterAnswers}

/-- A fault of the handler's code is one that the request machine can get into. -/
theorem faultless_runBody {caller : Option (Nat × Nat)} {rest : Prog σ κ K V ρ Unit}
    (found : state.activations[i]? = some (.body caller rest)) (none : state.core.faults = [])
    (tame : ∀ answers next, (state.request outstanding faults).move chain (.run i answers) = some next →
      next.faults = []) :
    (state.runBody chain.zero answers caller rest).1.core.faults = [] := by
  have frame : (state.request outstanding faults).frames[i]? = some rest := by
    simp [request, found]
  have quiet (answers : Answers) :
      (rest.exec chain.zero answers (state.request outstanding faults)).1.faults = [] := by
    have outcome := tame answers _ (by rw [Request.move, frame]; rfl)
    exact outcome
  rcases state.runBody_cases chain.zero answers caller rest with
    rfl | ⟨operation, callback, next, rfl⟩ | other
  · exact none
  · by_cases live : state.core.transaction = .live
    · simp only [runBody, Request.useTransaction_live live]
      split <;> exact none
    · -- The request machine could run the submission at this point.
      have noted := quiet { accept := false }
      simp [Prog.exec, Request.useTransaction, request, live] at noted
  · obtain ⟨plain, ran⟩ := other
    obtain ⟨noted, done, same⟩ := rest.exec_request chain.zero answers.toBody state.core outstanding
      (state.activations.map Activation.frame) faults plain
    rw [ran]
    apply same none
    calc noted = (rest.exec chain.zero answers.toBody (state.request outstanding faults)).1.faults :=
          (congrArg (·.1.faults) done).symm
      _ = [] := quiet answers.toBody

/-- The adapter's own statements touch neither the context nor the transaction. -/
theorem Sound.core_exec (sound : state.Sound) (found : state.activations[i]? = some activation)
    (own : ∀ caller rest, activation ≠ .body caller rest) :
    (activation.exec chain.zero answers state).1.core = state.core := by
  have accounts := sound.activation found
  cases activation with
  | body caller rest => exact absurd rfl (own caller rest)
  | allocating caller future call =>
    simp only [Activation.exec]
    split <;> rfl
  | setting caller future wrapper call =>
    have unchanged : (state.useFuture future).useWrapper wrapper = state := by
      rw [accounts.useFuture (by simp [Activation.futures]),
        accounts.useWrapper (by simp [Activation.wrappers])]
    simp only [Activation.exec, unchanged]
    split <;> rfl
  | refusing caller future wrapper call =>
    cases wrapper <;> rw [Activation.exec, accounts.destroyFuture_eq]
  | destroying future wrapper => rw [Activation.exec, accounts.destroyFuture_eq]
  | dropping caller wrapper call | freeing wrapper => rw [Activation.exec, accounts.freeWrapper_eq]
  | returned => rfl

private theorem faultless_move {next : Move K V} (sound : state.Sound) (none : state.core.faults = [])
    (tame : ∀ move next, (state.request outstanding faults).move chain move = some next → next.faults = [])
    (moved : state.move chain next = some now) : now.core.faults = [] := by
  cases next with
  | fire i future =>
    obtain ⟨pair, found, rfl⟩ := Option.map_eq_some_iff.mp moved
    rw [(sound.wrapper found).1]
    exact none
  | run i answers =>
    obtain ⟨activation, found, rfl⟩ := Option.map_eq_some_iff.mp moved
    by_cases body : ∃ caller rest, activation = .body caller rest
    · obtain ⟨caller, rest, rfl⟩ := body
      rw [Activation.exec, (sound.activation found).useCaller]
      exact faultless_runBody found none fun answers => tame (.run i answers)
    · change (activation.exec chain.zero answers state).1.core.faults = []
      rw [sound.core_exec found fun caller rest same => body ⟨caller, rest, same⟩]
      exact none

end Faults

/-! ## Whole runs -/

/-- The move is a statement of the adapter that fails. -/
def Move.fails (state : Adapter σ κ K V ρ) : Move K V → Bool
  | .run i answers => (state.activations[i]?.map (Activation.fails answers)).getD false
  | .fire .. => false

/-- A statement of the adapter fails in the course of the moves. -/
def failed (chain : Chain S σ κ K V ρ) (state : Adapter σ κ K V ρ) : List (Move K V) → Bool
  | [] => false
  | next :: rest => next.fails state || ((state.move chain next).map (failed chain · rest)).getD false

end Adapter

namespace Request
variable {chain : Chain S σ κ K V ρ} {request request' : Request σ κ K V ρ}

private theorem play_append (first second : List (Move K V)) :
    request.play chain (first ++ second) = (request.play chain first).bind (play chain · second) := by
  induction first generalizing request with
  | nil => rfl
  | cons next rest ih => simp only [List.cons_append, play, ih, Option.bind_assoc]

private theorem refused_append {first : List (Move K V)} (second : List (Move K V))
    (played : request.play chain first = some request') :
    request.refused chain (first ++ second) =
      (request.refused chain first || request'.refused chain second) := by
  induction first generalizing request with
  | nil =>
    cases played
    rfl
  | cons next rest ih =>
    obtain ⟨middle, moved, played⟩ := Option.bind_eq_some_iff.mp played
    simp only [List.cons_append, refused, moved, Option.map_some, Option.getD_some, ih played,
      Bool.or_assoc]

end Request

namespace Adapter
section Runs
variable {chain : Chain S σ κ K V ρ} {parameters : S} {state state' : Adapter σ κ K V ρ}
  {outstanding : List (Operation K × κ)}

/-- One move of the adapter is followed by the request machine, with the failure of a statement
mapped to a submission that was not accepted. -/
theorem Shows.move {next : Move K V} (sound : state.Sound) (shows : state.Shows outstanding)
    (faults : List Fault) (moved : state.move chain next = some state') :
    Followed chain state state' outstanding faults (next.fails state) := by
  cases next with
  | fire i future => exact shows.fire sound moved
  | run i answers =>
    obtain ⟨activation, found, rfl⟩ := Option.map_eq_some_iff.mp moved
    rw [Move.fails, found]
    exact shows.exec sound found

/-- The request machine follows whole runs, step by step, with no more steps than the adapter
takes. -/
theorem Shows.play {moves : List (Move K V)} (sound : state.Sound) (shows : state.Shows outstanding)
    (faults : List Fault) (played : state.play chain moves = some state') :
    Followed chain state state' outstanding faults (state.failed chain moves) := by
  induction moves generalizing state outstanding faults with
  | nil =>
    cases played
    exact ⟨[], outstanding, faults, rfl, shows, rfl⟩
  | cons next rest ih =>
    obtain ⟨middle, moved, played⟩ := Option.bind_eq_some_iff.mp played
    obtain ⟨first, outstanding₁, faults₁, went, shows₁, flag₁⟩ := shows.move sound faults moved
    obtain ⟨second, outstanding₂, faults₂, goes, shows₂, flag₂⟩ :=
      ih (sound.move moved) shows₁ faults₁ played
    refine ⟨first ++ second, outstanding₂, faults₂, ?_, shows₂, ?_⟩
    · rw [Request.play_append, went, Option.bind_some, goes]
    · rw [Request.refused_append second went, failed, moved, Bool.or_assoc, flag₂]
      simp only [Option.map_some, Option.getD_some]
      rw [Bool.or_right_comm, ← flag₁]
      simp only [Bool.or_assoc, Bool.or_comm]

/-- A request that nothing goes wrong with in the request machine has no fault here. -/
theorem Shows.faultless {moves : List (Move K V)} (sound : state.Sound) (shows : state.Shows outstanding)
    (none : state.core.faults = []) (faults : List Fault)
    (tame : ∀ moves next, (state.request outstanding faults).play chain moves = some next →
      next.faults = [])
    (played : state.play chain moves = some state') : state'.core.faults = [] := by
  induction moves generalizing state outstanding faults with
  | nil =>
    cases played
    exact none
  | cons next rest ih =>
    obtain ⟨middle, moved, played⟩ := Option.bind_eq_some_iff.mp played
    obtain ⟨first, outstanding₁, faults₁, went, shows₁, _⟩ := shows.move sound faults moved
    have tame₁ : ∀ moves next, (middle.request outstanding₁ faults₁).play chain moves = some next →
        next.faults = [] := by
      intro moves next played
      refine tame (first ++ moves) next ?_
      rw [Request.play_append, went, Option.bind_some, played]
    have steps : ∀ move next, (state.request outstanding faults).move chain move = some next →
        next.faults = [] := fun move next moved => tame [move] next (by simp [Request.play, moved])
    exact ih (sound.move moved) shows₁ (faultless_move sound none steps moved) faults₁ tame₁ played

/-- A fresh adapter has nothing registered, as a fresh request has nothing outstanding. -/
theorem start_shows (chain : Chain S σ κ K V ρ) (parameters : S) :
    (start chain parameters).Shows [] := by
  refine ⟨rfl, fun activation member => ?_⟩
  rw [List.mem_singleton.mp member]
  trivial

end Runs
end Adapter

end H2oTpcc

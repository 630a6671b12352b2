import H2oTpcc.WorkerPool

/-! What the worker pool delivers. Each worker's ring is the bounded queue of
`SpscRing`, so what was accepted for the worker is what it has run, what it has in hand
and what its ring holds; the counter decides whose turn it is. -/
namespace H2oTpcc
variable {α : Type}

/-! ## One worker -/

/-- The item that the worker has popped and not run yet. -/
def WorkerStage.inHand : WorkerStage α → List α
  | .executing item => [item]
  | _ => []

/-- What was accepted has been run, is in the worker's hand or lies in its ring. -/
def Worker.Serves (worker : Worker α) (accepted executed : List α) : Prop :=
  ∃ queue, accepted = executed ++ worker.stage.inHand ++ queue ∧
    (worker.stage ≠ .absent → Holds spscCapacity worker.spsc queue)

private theorem spscCapacity_pow : spscCapacity.toNat = 2 ^ 10 := rfl

/-- The thread runs, and the flag says so. -/
structure Worker.Alive (worker : Worker α) : Prop where
  running : worker.running = true
  created : worker.stage ≠ .absent
  loops : worker.stage ≠ .exited

section Worker
variable {worker worker' : Worker α} {item : Option α} {accepted executed : List α}

/-- Only a worker that was started and has not returned does anything. -/
theorem WorkerStep.loops (step : WorkerStep worker worker' item) :
    worker.stage ≠ .absent ∧ worker.stage ≠ .exited := by
  cases step <;> simp [*]

private theorem WorkerStep.alive (step : WorkerStep worker worker' item) (alive : worker.Alive) :
    worker'.Alive := by
  cases step with
  | stopped testing cleared =>
    rw [alive.running] at cleared
    cases cleared
  | popping popping spsc ran => exact ⟨alive.running, alive.created, alive.loops⟩
  | _ => exact ⟨alive.running, by simp, by simp⟩

/-- Each step of a worker's loop keeps its books: what it has executed is the front of what its
ring has accepted. -/
theorem WorkerStep.serves (step : WorkerStep worker worker' item)
    (serves : worker.Serves accepted executed) :
    worker'.Serves accepted (executed ++ item.toList) := by
  obtain ⟨queue, items, holds⟩ := serves
  have holds := holds step.loops.1
  cases step with
  | tested testing running =>
    rw [testing] at items
    exact ⟨queue, by simpa [WorkerStage.inHand] using items, fun _ => { holds with consumer := trivial }⟩
  | stopped testing cleared =>
    rw [testing] at items
    exact ⟨queue, by simpa [WorkerStage.inHand] using items, fun _ => holds⟩
  | popping popping spsc ran => exact ⟨queue, by simpa using items, fun _ => pop_step holds ran⟩
  | popped popping spsc item ran =>
    obtain ⟨queue', next, holds'⟩ := pop_step holds ran
    cases next
    rw [popping] at items
    exact ⟨queue', by simpa [WorkerStage.inHand] using items, fun _ => holds'⟩
  | yielded popping spsc ran =>
    obtain ⟨queue', next, holds'⟩ := pop_step holds ran
    cases next
    rw [popping] at items
    exact ⟨[], by simpa [WorkerStage.inHand] using items, fun _ => holds'⟩
  | executed item executing =>
    rw [executing] at items
    exact ⟨queue, by simpa [WorkerStage.inHand] using items, fun _ => holds⟩

/-- A push to a worker's ring shows what it has added: an accepted item is the last of those to
be executed. -/
theorem Worker.Serves.push {spsc : SpscState α} (serves : worker.Serves accepted executed)
    (created : worker.stage ≠ .absent) (ran : spscRingPush worker.spsc = some (spsc, action)) :
    { worker with spsc }.Serves (accepted ++ Fifo.accepted action.toList) executed := by
  obtain ⟨queue, items, holds⟩ := serves
  have steps := push_step spscCapacity_pow (holds created) ran
  cases action with
  | none => exact ⟨queue, by simpa [Fifo.accepted] using items, fun _ => steps⟩
  | some action =>
    obtain ⟨queue', next, holds'⟩ := steps
    obtain ⟨item, ok, rfl⟩ := (spscRingPush_shows ran).2.2 _ rfl
    cases next with
    | push room => exact ⟨_, by simp [Fifo.accepted, items], fun _ => holds'⟩
    | full full => exact ⟨_, by simpa [Fifo.accepted] using items, fun _ => holds'⟩

end Worker

/-! ## The pool -/

/-- Whether a dispatch has moved the counter on and not returned yet. -/
def MainStage.underway : MainStage → Nat
  | .pushing _ => 1
  | _ => 0

/-- What the owner knows of the workers. -/
def MainStage.Knows (n : UInt64) (attempts : List (UInt64 × α × Bool)) (workers : UInt64 → Worker α) :
    MainStage → Prop
  | .initialising i => i < n ∧ attempts = [] ∧ (∀ w < i, (workers w).Alive) ∧
    ∀ w, i ≤ w → (workers w).stage = .absent
  | .serving => ∀ w < n, (workers w).Alive
  | .pushing idx => (∀ w < n, (workers w).Alive) ∧ idx = UInt64.ofNat attempts.length % n
  | .clearing i | .joining i => i < n ∧ ∀ w < i, (workers w).stage = .exited
  | .destroyed => ∀ w < n, (workers w).stage = .exited

structure PoolInv (n : UInt64) (actions : List (PoolAction α)) (pool : WorkerPool α) : Prop where
  positive : 0 < n
  size : pool.numWorkers = n
  serves : ∀ w, (pool.workers w).Serves (acceptedBy w actions) (executedBy w actions)
  counter : pool.nextWorker = UInt64.ofNat ((dispatches actions).length + pool.main.underway)
  targets : ∀ k attempt, (dispatches actions)[k]? = some attempt → attempt.1 = UInt64.ofNat k % n
  main : pool.main.Knows n (dispatches actions) pool.workers

section Pool
variable {n : UInt64} {actions : List (PoolAction α)} {pool pool' : WorkerPool α}

theorem setWorker_workers (pool : WorkerPool α) (i w : UInt64) (worker : Worker α) :
    (pool.setWorker i worker).workers w = if w = i then worker else pool.workers w :=
  Function.update_apply ..

/-- One worker changes, and what concerns it alone. -/
private theorem serves_setWorker {accepted executed accepted' executed' : UInt64 → List α}
    (serves : ∀ w, (pool.workers w).Serves (accepted w) (executed w)) (i : UInt64) (worker : Worker α)
    (own : worker.Serves (accepted' i) (executed' i))
    (others : ∀ w, w ≠ i → accepted' w = accepted w ∧ executed' w = executed w) (w : UInt64) :
    ((pool.setWorker i worker).workers w).Serves (accepted' w) (executed' w) := by
  rw [setWorker_workers]
  split
  · subst w
    exact own
  · rename_i other
    rw [(others w other).1, (others w other).2]
    exact serves w

/-- What a worker keeps that changes as the owner expects. -/
structure Worker.Keeps (worker worker' : Worker α) : Prop where
  alive : worker.Alive → worker'.Alive
  exited : worker.stage = .exited → worker'.stage = .exited
  absent : worker.stage = .absent → worker'.stage = .absent

/-- A worker's own steps leave the producer's side of its ring alone. -/
theorem WorkerStep.keeps {worker worker' : Worker α} (step : WorkerStep worker worker' item) :
    worker.Keeps worker' where
  alive := step.alive
  exited exited := absurd exited step.loops.2
  absent absent := absurd absent step.loops.1

theorem Worker.Keeps.ring (worker : Worker α) (spsc : SpscState α) :
    worker.Keeps { worker with spsc } where
  alive alive := ⟨alive.running, alive.created, alive.loops⟩
  exited exited := exited
  absent absent := absent

/-- What the main thread knows of the rings stays true while a worker goes on. -/
theorem MainStage.Knows.setWorker (main : MainStage) {attempts : List (UInt64 × α × Bool)} {i : UInt64}
    {worker : Worker α} (knows : main.Knows n attempts pool.workers)
    (keeps : (pool.workers i).Keeps worker) :
    main.Knows n attempts (pool.setWorker i worker).workers := by
  have each (w : UInt64) : (pool.workers w).Keeps ((pool.setWorker i worker).workers w) := by
    rw [setWorker_workers]
    split
    · subst w
      exact keeps
    · exact ⟨id, id, id⟩
  cases main with
  | initialising j =>
    obtain ⟨inside, none, below, above⟩ := knows
    exact ⟨inside, none, fun w less => (each w).alive (below w less),
      fun w least => (each w).absent (above w least)⟩
  | serving => exact fun w inside => (each w).alive (knows w inside)
  | pushing idx => exact ⟨fun w inside => (each w).alive (knows.1 w inside), knows.2⟩
  | clearing j | joining j => exact ⟨knows.1, fun w less => (each w).exited (knows.2 w less)⟩
  | destroyed => exact fun w inside => (each w).exited (knows w inside)

/-- The pool that `worker_pool_init` starts from: no worker, no attempt, and no ring. -/
theorem PoolInv.init (init : workerPoolInit n = some pool) : PoolInv n [] pool := by
  unfold workerPoolInit at init
  split at init
  · rename_i positive
    cases init
    refine ⟨positive, rfl, fun w => ⟨[], rfl, fun created => absurd rfl created⟩, rfl, ?_, ?_⟩
    · intro k attempt found
      cases found
    · refine ⟨positive, rfl, fun w less => ?_, fun _ _ => rfl⟩
      exact absurd less (UInt64.not_lt.mpr (UInt64.zero_le))
  · cases init

/-- Counting up to a bound does not wrap. -/
private theorem lt_succ_iff_of_lt {i w : UInt64} (inside : i < n) : w < i + 1 ↔ w < i ∨ w = i := by
  have bound := n.toNat_lt
  rw [UInt64.lt_iff_toNat_lt] at inside
  have next : (i + 1).toNat = i.toNat + 1 := by
    rw [UInt64.toNat_add]
    exact Nat.mod_eq_of_lt (by simp; omega)
  rw [UInt64.lt_iff_toNat_lt, UInt64.lt_iff_toNat_lt, ← UInt64.toNat_inj, next]
  omega

/-- Another attempt, to the worker whose turn it is. -/
private theorem PoolInv.targets_append (inv : PoolInv n actions pool) (attempt : UInt64 × α × Bool)
    (turn : attempt.1 = UInt64.ofNat (dispatches actions).length % n) :
    ∀ k attempt', (dispatches actions ++ [attempt])[k]? = some attempt' →
      attempt'.1 = UInt64.ofNat k % n := by
  intro k attempt' found
  rw [List.getElem?_append] at found
  split at found
  · exact inv.targets k attempt' found
  · rw [List.getElem?_singleton] at found
    split at found <;> cases found
    obtain rfl : k = (dispatches actions).length := by omega
    exact turn

/-- A step of a worker keeps the invariant of the pool, with what it executed added to the
actions. -/
theorem PoolInv.worker (inv : PoolInv n actions pool) {i : UInt64} {worker : Worker α} {item : Option α}
    (step : WorkerStep (pool.workers i) worker item) :
    PoolInv n (actions ++ (item.map (PoolAction.executed i)).toList) (pool.setWorker i worker) := by
  have attempts : dispatches (actions ++ (item.map (PoolAction.executed i)).toList) =
      dispatches actions := by
    cases item <;> simp [dispatches]
  have accepted (w : UInt64) : acceptedBy w (actions ++ (item.map (PoolAction.executed i)).toList) =
      acceptedBy w actions := by rw [acceptedBy, attempts, acceptedBy]
  have executed (w : UInt64) : executedBy w (actions ++ (item.map (PoolAction.executed i)).toList) =
      executedBy w actions ++ if i = w then item.toList else [] := by
    rw [executedBy_append]
    cases item <;> by_cases own : i = w <;> simp [executedBy, own]
  refine ⟨inv.positive, inv.size, ?_, by rw [attempts]; exact inv.counter,
    by rw [attempts]; exact inv.targets, by rw [attempts]; exact inv.main.setWorker _ step.keeps⟩
  refine serves_setWorker inv.serves i worker ?_ fun w other => ?_
  · rw [accepted, executed, if_pos rfl]
    exact step.serves (inv.serves i)
  · rw [accepted, executed, if_neg other.symm, List.append_nil]
    exact ⟨rfl, rfl⟩

/-- A dispatch begins: the counter moves on, and the worker whose turn it is is given an item to
push. -/
theorem PoolInv.called (inv : PoolInv n actions pool) (serving : pool.main = .serving) (item : α)
    {idx : UInt64} (chosen : idx = pool.nextWorker % pool.numWorkers) :
    PoolInv n actions ({ pool with nextWorker := pool.nextWorker + 1, main := .pushing idx }.setWorker idx
      { pool.workers idx with spsc := { (pool.workers idx).spsc with producer := .called item } }) := by
  have counter := inv.counter
  have knows := inv.main
  rw [serving] at counter knows
  refine ⟨inv.positive, inv.size, ?_, ?_, inv.targets, ?_⟩
  · refine serves_setWorker inv.serves idx _ ?_ fun _ _ => ⟨rfl, rfl⟩
    obtain ⟨queue, items, holds⟩ := inv.serves idx
    exact ⟨queue, items, fun created => { holds created with producer := trivial }⟩
  · simp [counter, MainStage.underway, WorkerPool.setWorker]
  · refine MainStage.Knows.setWorker (.pushing idx) ⟨knows, ?_⟩ (.ring ..)
    rw [chosen, inv.size, counter]
    rfl

/-- `worker_pool_init` starts one worker more, with an empty ring. -/
theorem PoolInv.started (inv : PoolInv n actions pool) {i : UInt64}
    (initialising : pool.main = .initialising i) {slots : UInt64 → Option α} {ring : SpscRing α}
    (init : spscRingInit slots spscCapacity = some ring) :
    PoolInv n actions ({ pool with
      main := if i + 1 < pool.numWorkers then .initialising (i + 1) else .serving }.setWorker i
        { spsc := { ring }, running := true, stage := .testing }) := by
  have knows := inv.main
  have counter := inv.counter
  rw [initialising] at knows counter
  obtain ⟨inside, none, below, above⟩ := knows
  obtain ⟨_, rfl⟩ := capacity_pow init
  have alive (w : UInt64) (less : w < i + 1) : ((pool.setWorker i
      { spsc := { ring := ⟨slots, spscCapacity - 1, 0, 0⟩ }, running := true,
        stage := .testing }).workers w).Alive := by
    rw [setWorker_workers]
    split
    · exact ⟨rfl, by simp, by simp⟩
    · rename_i other
      exact below w (((lt_succ_iff_of_lt inside).mp less).resolve_right other)
  refine ⟨inv.positive, inv.size, ?_, ?_, inv.targets, ?_⟩
  · refine serves_setWorker inv.serves i _ ?_ fun _ _ => ⟨rfl, rfl⟩
    obtain ⟨queue, items, _⟩ := inv.serves i
    rw [acceptedBy, none, List.filterMap_nil, eq_comm, List.append_assoc, List.append_eq_nil_iff] at items
    refine ⟨[], by simp [acceptedBy, none, items.1, WorkerStage.inHand], fun _ => ?_⟩
    exact ⟨rfl, Nat.zero_le _, rfl, fun _ less => absurd less (Nat.not_lt_zero _), trivial, trivial⟩
  · rw [counter]
    change _ = UInt64.ofNat ((dispatches actions).length + MainStage.underway (if _ then _ else _))
    split <;> rfl
  · change MainStage.Knows n _ _ (if i + 1 < pool.numWorkers then _ else _)
    rw [inv.size]
    split
    · rename_i more
      refine ⟨more, none, alive, fun w least => ?_⟩
      have apart : ¬ (w < i ∨ w = i) := (lt_succ_iff_of_lt inside).not.mp (UInt64.not_lt.mpr least)
      rw [not_or] at apart
      exact (congrArg Worker.stage (setWorker_workers pool i w _)).trans
        (by rw [if_neg apart.2]; exact above w (UInt64.not_lt.mp apart.1))
    · rename_i last
      exact fun w less => alive w (UInt64.lt_of_lt_of_le less (UInt64.not_lt.mp last))

theorem PoolInv.turn_lt (inv : PoolInv n actions pool) (k : UInt64) : k % n < n := by
  have positive := UInt64.lt_iff_toNat_lt.mp inv.positive
  rw [UInt64.lt_iff_toNat_lt, UInt64.toNat_mod]
  exact Nat.mod_lt _ positive

/-- An access of a push to a worker's ring that is not yet its last changes nothing that the
actions tell. -/
theorem PoolInv.pushing (inv : PoolInv n actions pool) {idx : UInt64}
    (pushing : pool.main = .pushing idx)
    {spsc : SpscState α} (ran : spscRingPush (pool.workers idx).spsc = some (spsc, none)) :
    PoolInv n actions (pool.setWorker idx { pool.workers idx with spsc }) := by
  have knows := inv.main
  rw [pushing] at knows
  have alive := knows.1 idx (knows.2 ▸ inv.turn_lt _)
  refine ⟨inv.positive, inv.size, ?_, inv.counter, inv.targets, inv.main.setWorker _ (.ring ..)⟩
  refine serves_setWorker inv.serves idx _ ?_ fun _ _ => ⟨rfl, rfl⟩
  simpa [Fifo.accepted] using (inv.serves idx).push alive.created ran

/-- The last access of a push is the dispatch: accepted or refused, it is that worker's turn,
and the turn moves on. -/
theorem PoolInv.pushed (inv : PoolInv n actions pool) {idx : UInt64} (pushing : pool.main = .pushing idx)
    {spsc : SpscState α} {item : α} {accepted : Bool}
    (ran : spscRingPush (pool.workers idx).spsc = some (spsc, some (.push item accepted))) :
    PoolInv n (actions ++ [.dispatched idx item accepted])
      ({ pool with main := .serving }.setWorker idx { pool.workers idx with spsc }) := by
  have knows := inv.main
  have counter := inv.counter
  rw [pushing] at knows counter
  have alive := knows.1 idx (knows.2 ▸ inv.turn_lt _)
  have attempts : dispatches (actions ++ [.dispatched idx item accepted]) =
      dispatches actions ++ [(idx, item, accepted)] := by simp [dispatches]
  refine ⟨inv.positive, inv.size, ?_, ?_, ?_, ?_⟩
  · refine serves_setWorker inv.serves idx _ ?_ fun w other => ?_
    · have served := (inv.serves idx).push alive.created ran
      cases accepted <;> simpa [Fifo.accepted, acceptedBy, executedBy, dispatches] using served
    · simp [acceptedBy, executedBy, dispatches, other.symm]
  · rw [attempts, List.length_append]
    exact counter
  · rw [attempts]
    exact inv.targets_append _ knows.2
  · exact MainStage.Knows.setWorker .serving knows.1 (.ring ..)

theorem PoolInv.step (inv : PoolInv n actions pool)
    (stepped : (poolMachine α).step choice pool = some (pool', action)) :
    PoolInv n (actions ++ action.toList) pool' := by
  have size := inv.size
  have counter := inv.counter
  have knows := inv.main
  cases poolStep_cases stepped with
  | worker i inside worker item step => exact inv.worker step
  | refused item serving =>
    rw [serving] at counter knows
    refine ⟨inv.positive, size, fun w => ?_, ?_, ?_, ?_⟩
    · simpa [acceptedBy, executedBy, dispatches] using inv.serves w
    · simp [counter, serving, MainStage.underway, dispatches]
    · rw [dispatches_append]
      refine inv.targets_append (_, item, false) ?_
      rw [size, counter]
      rfl
    · rw [serving]
      exact knows
  | called item serving idx chosen =>
    rw [Option.toList_none, List.append_nil]
    exact inv.called serving item chosen
  | started i initialising ring init =>
    rw [Option.toList_none, List.append_nil]
    exact inv.started initialising init
  | pushing idx pushing spsc ran =>
    rw [Option.toList_none, List.append_nil]
    exact inv.pushing pushing ran
  | pushed idx pushing spsc item accepted ran => exact inv.pushed pushing ran
  | destroy serving =>
    rw [serving] at counter
    rw [Option.toList_none, List.append_nil]
    exact ⟨inv.positive, size, inv.serves, counter, inv.targets, inv.positive,
      fun w less => absurd less (UInt64.not_lt.mpr UInt64.zero_le)⟩
  | cleared i clearing =>
    rw [clearing] at knows counter
    rw [Option.toList_none, List.append_nil]
    refine ⟨inv.positive, size, ?_, counter, inv.targets, knows.1, fun w less => ?_⟩
    · exact serves_setWorker inv.serves i _ (inv.serves i) fun _ _ => ⟨rfl, rfl⟩
    · change ((pool.setWorker i _).workers w).stage = _
      rw [setWorker_workers]
      split
      · subst w
        exact knows.2 i less
      · exact knows.2 w less
  | joined i joining exited =>
    rw [joining] at knows counter
    rw [Option.toList_none, List.append_nil]
    have gone (w : UInt64) (less : w < i + 1) : (pool.workers w).stage = .exited := by
      rcases (lt_succ_iff_of_lt knows.1).mp less with below | rfl
      · exact knows.2 w below
      · exact exited
    refine ⟨inv.positive, size, inv.serves, ?_, inv.targets, ?_⟩
    · rw [counter]
      split <;> rfl
    · rw [size]
      split
      · exact ⟨‹_›, gone⟩
      · rename_i last
        exact fun w less => gone w (UInt64.lt_of_lt_of_le less (UInt64.not_lt.mp last))

/-- Every run of the pool keeps the invariant, from its initialisation on. -/
theorem PoolInv.run (init : workerPoolInit n = some pool)
    (ran : (poolMachine α).run choices pool = some (actions, pool')) : PoolInv n actions pool' :=
  Machine.run_invariant (I := PoolInv n) PoolInv.step (.init init) ran

end Pool

/-! ## A refused dispatch -/

/-- A step of the owner leaves every ring as it was. -/
def KeepsRings (choice : PoolChoice α) (pool pool' : WorkerPool α) : Prop :=
  (∀ i, choice ≠ .worker i) → ∀ w, (pool'.workers w).spsc.ring = (pool.workers w).spsc.ring

/-- The owner has seen room in a ring and has set the slot. -/
def SlotWritten (pool : WorkerPool α) : Prop :=
  ∃ idx item head, pool.main = .pushing idx ∧ (pool.workers idx).spsc.producer = .written item head

section Refused
variable {pool pool' : WorkerPool α} {choice : PoolChoice α} {action : Option (PoolAction α)}

theorem WorkerStep.producer {worker worker' : Worker α} (step : WorkerStep worker worker' item) :
    worker'.spsc.producer = worker.spsc.producer := by
  cases step with
  | tested | stopped | executed => rfl
  | popping _ _ ran | popped _ _ _ ran | yielded _ _ ran => exact (spscRingPop_shows ran).1

/-- A push that has set its slot can only be accepted: there was room, and nobody else can take
it. -/
theorem SlotWritten.step (written : SlotWritten pool)
    (stepped : (poolMachine α).step choice pool = some (pool', action)) :
    (dispatches action.toList = [] → SlotWritten pool') ∧
      ∀ w item accepted, action = some (.dispatched w item accepted) → accepted = true := by
  obtain ⟨idx, waiting, head, main, producer⟩ := written
  cases poolStep_cases stepped with
  | worker i inside worker item step =>
    refine ⟨fun _ => ⟨idx, waiting, head, main, ?_⟩, fun w item' accepted shown => ?_⟩
    · rw [setWorker_workers]
      split
      · subst i
        exact step.producer.trans producer
      · exact producer
    · cases item <;> cases shown
  | pushing idx' pushing spsc ran =>
    cases main.symm.trans pushing
    simp [spscRingPush, producer] at ran
  | pushed idx' pushing spsc item' accepted ran =>
    cases main.symm.trans pushing
    simp only [spscRingPush, producer, Option.some.injEq, Prod.mk.injEq, Fifo.Action.push.injEq] at ran
    obtain ⟨_, _, rfl⟩ := ran
    exact ⟨fun none => by simp [dispatches] at none, fun _ _ _ shown => by cases shown; rfl⟩
  | refused _ serving | called _ serving | started _ serving | destroy serving | cleared _ serving
  | joined _ serving => cases main.symm.trans serving

/-- A slot that is written and not yet published stays so while nothing is dispatched. -/
theorem SlotWritten.run (written : SlotWritten pool)
    (ran : (poolMachine α).run choices pool = some (shown, middle)) (none : dispatches shown = []) :
    SlotWritten middle := by
  induction choices generalizing pool shown with
  | nil =>
    cases ran
    exact written
  | cons choice rest ih =>
    obtain ⟨pool', action, later, stepped, continued, rfl⟩ := Machine.run_cons ran
    rw [dispatches_append, List.append_eq_nil_iff] at none
    exact ih ((written.step stepped).1 none.1) continued none.2

/-- Outside `worker_pool_init`, the owner changes a ring only once it has seen room. -/
theorem owner_step (running : ∀ i, pool.main ≠ .initialising i)
    (stepped : (poolMachine α).step choice pool = some (pool', action)) :
    (∀ i, pool'.main ≠ .initialising i) ∧
      (KeepsRings choice pool pool' ∨ (SlotWritten pool' ∧ action = none) ∨
        ∃ w item, action = some (.dispatched w item true)) := by
  have same {main : MainStage} {next : UInt64} {i : UInt64} {worker : Worker α}
      (ring : worker.spsc.ring = (pool.workers i).spsc.ring) (w : UInt64) :
      (({ pool with main, nextWorker := next }.setWorker i worker).workers w).spsc.ring =
        (pool.workers w).spsc.ring := by
    rw [setWorker_workers]
    split
    · subst w
      exact ring
    · rfl
  cases poolStep_cases stepped with
  | worker i inside worker item step => exact ⟨running, .inl fun owner => absurd rfl (owner i)⟩
  | refused item serving => exact ⟨running, .inl fun _ _ => rfl⟩
  | called item serving idx chosen => exact ⟨by simp [WorkerPool.setWorker], .inl fun _ => same rfl⟩
  | started i initialising ring init => exact absurd initialising (running i)
  | pushing idx pushing spsc ran =>
    refine ⟨running, ?_⟩
    unfold spscRingPush at ran
    cases stage : (pool.workers idx).spsc.producer with
    | room item head =>
      simp only [stage] at ran
      cases ran
      exact .inr (.inl ⟨⟨idx, item, head, pushing, by simp [WorkerPool.setWorker]⟩, rfl⟩)
    | loadedHead item head =>
      simp only [stage] at ran
      split at ran <;> cases ran
      exact .inl fun _ => same rfl
    | called item =>
      simp only [stage] at ran
      cases ran
      exact .inl fun _ => same rfl
    | idle | written item head => simp [stage] at ran
  | pushed idx pushing spsc item accepted ran =>
    refine ⟨by simp [WorkerPool.setWorker], ?_⟩
    cases accepted with
    | true => exact .inr (.inr ⟨idx, item, rfl⟩)
    | false =>
      unfold spscRingPush at ran
      cases stage : (pool.workers idx).spsc.producer with
      | loadedHead item head =>
        simp only [stage] at ran
        split at ran <;> cases ran
        exact .inl fun _ => same rfl
      | _ => simp [stage] at ran
  | destroy serving => exact ⟨by simp, .inl fun _ _ => rfl⟩
  | cleared i clearing => exact ⟨by simp [WorkerPool.setWorker], .inl fun _ => same rfl⟩
  | joined i joining exited =>
    refine ⟨fun j => ?_, .inl fun _ _ => rfl⟩
    dsimp only
    split <;> simp

/-- A dispatch that is refused has changed no ring. -/
private theorem refused_keeps_rings {middle final : WorkerPool α} {begun : List (PoolChoice α)}
    {w : UInt64}
    (running : ∀ i, pool.main ≠ .initialising i)
    (ran : (poolMachine α).run begun pool = some (shown, middle)) (none : dispatches shown = [])
    (last : (poolMachine α).step choice middle = some (final, some (.dispatched w item false))) :
    (poolMachine α).Along KeepsRings (begun ++ [choice]) pool := by
  induction begun generalizing pool shown with
  | nil =>
    cases ran
    intro pool' action stepped
    cases last.symm.trans stepped
    refine ⟨?_, trivial⟩
    rcases (owner_step running last).2 with kept | ⟨_, impossible⟩ | ⟨_, _, impossible⟩
    · exact kept
    · cases impossible
    · cases impossible
  | cons first rest ih =>
    intro pool' action stepped
    obtain ⟨pool'', action', later, stepped', continued, rfl⟩ := Machine.run_cons ran
    cases stepped'.symm.trans stepped
    rw [dispatches_append, List.append_eq_nil_iff] at none
    obtain ⟨still, kept | ⟨written, _⟩ | ⟨w', item', rfl⟩⟩ := owner_step running stepped
    · exact ⟨kept, ih still continued none.2⟩
    · have accepted := ((written.run continued none.2).step last).2 w item false rfl
      cases accepted
    · simp [dispatches] at none

end Refused

/-! ## Delivery -/

/-- What callers may rely on after a run that has shown `actions`. -/
structure PoolDelivers (n : UInt64) (actions : List (PoolAction α)) (pool : WorkerPool α) : Prop where
  /-- Attempts go to the workers in turn. -/
  round_robin : ∀ k w item accepted, k < 2 ^ 64 →
    (dispatches actions)[k]? = some (w, item, accepted) → w.toNat = k % n.toNat
  /-- So does the attempt that has not returned yet. -/
  underway : ∀ w, (dispatches actions).length < 2 ^ 64 → pool.main = .pushing w →
    w.toNat = (dispatches actions).length % n.toNat
  /-- A worker runs what was accepted for it, in order. -/
  in_order : ∀ w, executedBy w actions <+: acceptedBy w actions
  /-- From a moment between two calls on, until a dispatch is refused: none of the owner's
  steps changes a ring. -/
  refused : ∀ begun shown middle choice final w item, pool.main = .serving →
    (poolMachine α).run begun pool = some (shown, middle) → dispatches shown = [] →
    (poolMachine α).step choice middle = some (final, some (.dispatched w item false)) →
    (poolMachine α).Along KeepsRings (begun ++ [choice]) pool

/-- **Delivery.** Whatever the number of workers and the interleaving of their accesses, what a
worker has executed is the front of what was accepted for it, in order; dispatches go to the
workers in turn; and one that is refused has changed no ring. -/
theorem worker_pool_delivers {n : UInt64} {pool pool' : WorkerPool α} {actions : List (PoolAction α)}
    (init : workerPoolInit n = some pool)
    (ran : (poolMachine α).run choices pool = some (actions, pool')) : PoolDelivers n actions pool' := by
  have inv := PoolInv.run init ran
  have turn (k : Nat) (small : k < 2 ^ 64) : (UInt64.ofNat k % n).toNat = k % n.toNat := by
    rw [UInt64.toNat_mod, UInt64.toNat_ofNat', Nat.mod_eq_of_lt small]
  refine ⟨?_, ?_, ?_, ?_⟩
  · intro k w item accepted small found
    rw [← turn k small]
    exact congrArg UInt64.toNat (inv.targets k _ found)
  · intro w small pushing
    have knows := inv.main
    rw [pushing] at knows
    rw [knows.2, turn _ small]
  · intro w
    obtain ⟨queue, items, _⟩ := inv.serves w
    rw [items, List.append_assoc]
    exact List.prefix_append ..
  · intro begun shown middle choice final w item serving continued none last
    exact refused_keeps_rings (fun i initialising => by cases serving.symm.trans initialising) continued
      none last

/-- Two workers and two items. The first is pushed and executed; the attempt at the second
worker finds no memory for the item, and is refused. -/
theorem worker_pool_delivers_two : ∃ pool choices, ∃ actions : List (PoolAction Nat), ∃ pool',
    workerPoolInit 2 = some pool ∧ (poolMachine Nat).run choices pool = some (actions, pool') ∧
    actions = [.dispatched 0 7 true, .dispatched 1 8 false, .executed 0 7] ∧
    PoolDelivers 2 actions pool' := by
  have shown : ((workerPoolInit 2).bind fun pool => ((poolMachine Nat).run [.main, .main,
      .dispatch 7 true, .main, .main, .main, .main, .dispatch 8 false,
      .worker 0, .worker 0, .worker 0, .worker 0, .worker 0, .worker 0] pool).map Prod.fst) =
      some [.dispatched 0 7 true, .dispatched 1 8 false, .executed 0 7] := by decide +kernel
  obtain ⟨pool, init, shown⟩ := Option.bind_eq_some_iff.mp shown
  obtain ⟨⟨actions, pool'⟩, ran, same⟩ := Option.map_eq_some_iff.mp shown
  exact ⟨pool, _, actions, pool', init, ran, same, worker_pool_delivers init ran⟩

end H2oTpcc

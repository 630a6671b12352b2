import H2oTpcc.SpscRing

/-! The worker pool of `worker_pool.c`: one thread that sets the pool up, dispatches to
the workers in turn and shuts it down, and the worker threads, interleaved at every
access to the flags, the counter and the rings. -/
namespace H2oTpcc

/-- `SPSC_CAPACITY`. -/
def spscCapacity : UInt64 := 1024

/-- Where a worker stands in `worker_thread`. -/
inductive WorkerStage (α : Type) where
  /-- The thread does not exist yet. -/
  | absent
  /-- About to load `running`. -/
  | testing
  /-- In `spsc_ring_pop`. -/
  | popping
  /-- It holds an item that it is about to run and free. -/
  | executing (item : α)
  | exited

/-- `worker_t`, with its thread. -/
structure Worker (α : Type) where
  spsc : SpscState α
  running : Bool
  stage : WorkerStage α

/-- Where the thread that owns the pool stands. -/
inductive MainStage where
  /-- In the loop of `worker_pool_init`. -/
  | initialising (i : UInt64)
  /-- Between two calls. -/
  | serving
  /-- In `worker_pool_dispatch`, pushing to a worker's ring. -/
  | pushing (idx : UInt64)
  /-- In the loop of `worker_pool_destroy`, about to clear a worker's flag. -/
  | clearing (i : UInt64)
  /-- In `pthread_join`. -/
  | joining (i : UInt64)
  | destroyed

/-- `worker_pool_t`, with the thread that owns it. -/
structure WorkerPool (α : Type) where
  workers : UInt64 → Worker α
  numWorkers : UInt64
  nextWorker : UInt64
  main : MainStage

/-- What the environment sees of the pool. -/
inductive PoolAction (α : Type) where
  /-- `worker_pool_dispatch` chose a worker and returned. -/
  | dispatched (worker : UInt64) (item : α) (accepted : Bool)
  /-- A worker ran an item's handler. -/
  | executed (worker : UInt64) (item : α)
  deriving DecidableEq

/-- Which thread goes on, or what the owner calls. -/
inductive PoolChoice (α : Type) where
  | dispatch (item : α) (malloc : Bool)
  | destroy
  | main
  | worker (i : UInt64)

variable {α : Type}

def WorkerPool.setWorker (pool : WorkerPool α) (i : UInt64) (worker : Worker α) : WorkerPool α :=
  { pool with workers := Function.update pool.workers i worker }

/-- `worker_pool_init` up to its loop, when its assertion holds. The workers are zeroed. -/
def workerPoolInit (numWorkers : UInt64) : Option (WorkerPool α) :=
  if numWorkers > 0 then
    some {
      workers := fun _ =>
        { spsc := { ring := ⟨fun _ => none, 0, 0, 0⟩ }, running := false, stage := .absent }
      numWorkers
      nextWorker := 0
      main := .initialising 0 }
  else none

/-- The next access of `worker_thread`, and the item whose handler it runs. -/
def workerThread (worker : Worker α) : Option (Worker α × Option α) :=
  match worker.stage with
  | .absent | .exited => none
  | .testing =>
    if worker.running then
      some ({ worker with spsc := { worker.spsc with consumer := .called }, stage := .popping }, none)
    else some ({ worker with stage := .exited }, none)
  | .popping =>
    match spscRingPop worker.spsc with
    | none => none
    | some (spsc, none) => some ({ worker with spsc }, none)
    | some (spsc, some (.pop (some item))) => some ({ worker with spsc, stage := .executing item }, none)
    -- `NULL`: the worker yields and tests the flag again
    | some (spsc, some _) => some ({ worker with spsc, stage := .testing }, none)
  | .executing item => some ({ worker with stage := .testing }, some item)

/-- `worker_pool_dispatch` up to the push. Without memory for the item it returns at
once, though the counter has moved on. -/
def workerPoolDispatch (pool : WorkerPool α) (item : α) (malloc : Bool) :
    WorkerPool α × Option (PoolAction α) :=
  let idx := pool.nextWorker % pool.numWorkers
  let w := pool.workers idx
  let counted := { pool with nextWorker := pool.nextWorker + 1 }
  if malloc then
    ({ counted with main := .pushing idx }.setWorker idx
      { w with spsc := { w.spsc with producer := .called item } }, none)
  else (counted, some (.dispatched idx item false))

/-- The next access of the owner within a call. -/
def mainThread (pool : WorkerPool α) : Option (WorkerPool α × Option (PoolAction α)) :=
  match pool.main with
  | .initialising i =>
    match spscRingInit (pool.workers i).spsc.ring.slots spscCapacity with
    | none => none
    | some ring =>
      some ({ pool with
        main := if i + 1 < pool.numWorkers then .initialising (i + 1) else .serving }.setWorker i
          { spsc := { ring }, running := true, stage := .testing }, none)
  | .pushing idx =>
    let w := pool.workers idx
    match spscRingPush w.spsc with
    | none => none
    | some (spsc, some (.push item accepted)) =>
      some ({ pool with main := .serving }.setWorker idx { w with spsc },
        some (.dispatched idx item accepted))
    | some (spsc, _) => some (pool.setWorker idx { w with spsc }, none)
  | .clearing i =>
    some ({ pool with main := .joining i }.setWorker i { pool.workers i with running := false }, none)
  | .joining i =>
    match (pool.workers i).stage with
    | .exited =>
      some ({ pool with main := if i + 1 < pool.numWorkers then .clearing (i + 1) else .destroyed }, none)
    | _ => none
  | .serving | .destroyed => none

def poolStep : PoolChoice α → WorkerPool α → Option (WorkerPool α × Option (PoolAction α))
  | .dispatch item malloc, pool =>
    match pool.main with
    | .serving => some (workerPoolDispatch pool item malloc)
    | _ => none
  | .destroy, pool =>
    match pool.main with
    | .serving => some ({ pool with main := .clearing 0 }, none)
    | _ => none
  | .main, pool => mainThread pool
  | .worker i, pool =>
    if i < pool.numWorkers then
      (workerThread (pool.workers i)).map fun (worker, item) =>
        (pool.setWorker i worker, item.map (.executed i))
    else none

def poolMachine (α : Type) : Machine (WorkerPool α) (PoolChoice α) (PoolAction α) where
  step := poolStep

/-! ## What one step can do -/

/-- The steps of a worker, with what they change. -/
inductive WorkerStep (worker : Worker α) : Worker α → Option α → Prop where
  | tested (testing : worker.stage = .testing) (running : worker.running = true) :
      WorkerStep worker { worker with
        spsc := { worker.spsc with consumer := .called }, stage := .popping } none
  | stopped (testing : worker.stage = .testing) (cleared : worker.running = false) :
      WorkerStep worker { worker with stage := .exited } none
  | popping (popping : worker.stage = .popping) (spsc : SpscState α)
      (ran : spscRingPop worker.spsc = some (spsc, none)) : WorkerStep worker { worker with spsc } none
  | popped (popping : worker.stage = .popping) (spsc : SpscState α) (item : α)
      (ran : spscRingPop worker.spsc = some (spsc, some (.pop (some item)))) :
      WorkerStep worker { worker with spsc, stage := .executing item } none
  | yielded (popping : worker.stage = .popping) (spsc : SpscState α)
      (ran : spscRingPop worker.spsc = some (spsc, some (.pop none))) :
      WorkerStep worker { worker with spsc, stage := .testing } none
  | executed (item : α) (executing : worker.stage = .executing item) :
      WorkerStep worker { worker with stage := .testing } (some item)

private theorem workerThread_cases {worker worker' : Worker α}
    (ran : workerThread worker = some (worker', item)) :
    WorkerStep worker worker' item := by
  unfold workerThread at ran
  split at ran
  · cases ran
  · cases ran
  · split at ran <;> cases ran
    · exact .tested ‹_› ‹_›
    · exact .stopped ‹_› (Bool.eq_false_iff.mpr ‹_›)
  · split at ran
    · cases ran
    · cases ran
      exact .popping ‹_› _ ‹_›
    · cases ran
      exact .popped ‹_› _ _ ‹_›
    · rename_i shown other popped
      cases ran
      obtain ⟨item, rfl⟩ := (spscRingPop_shows popped).2.2 _ rfl
      cases item with
      | none => exact .yielded ‹_› _ popped
      | some item => exact (other item rfl).elim
  · cases ran
    exact .executed _ ‹_›

/-- The steps of the pool, with what they change. -/
inductive PoolStep (pool : WorkerPool α) :
    PoolChoice α → WorkerPool α → Option (PoolAction α) → Prop where
  | worker (i : UInt64) (inside : i < pool.numWorkers) (worker : Worker α) (item : Option α)
      (ran : WorkerStep (pool.workers i) worker item) :
      PoolStep pool (.worker i) (pool.setWorker i worker) (item.map (.executed i))
  | refused (item : α) (serving : pool.main = .serving) :
      PoolStep pool (.dispatch item false) { pool with nextWorker := pool.nextWorker + 1 }
        (some (.dispatched (pool.nextWorker % pool.numWorkers) item false))
  | called (item : α) (serving : pool.main = .serving) (idx : UInt64)
      (chosen : idx = pool.nextWorker % pool.numWorkers) :
      PoolStep pool (.dispatch item true)
        ({ pool with nextWorker := pool.nextWorker + 1, main := .pushing idx }.setWorker idx
          { pool.workers idx with spsc := { (pool.workers idx).spsc with producer := .called item } }) none
  | started (i : UInt64) (initialising : pool.main = .initialising i) (ring : SpscRing α)
      (init : spscRingInit (pool.workers i).spsc.ring.slots spscCapacity = some ring) :
      PoolStep pool .main ({ pool with
        main := if i + 1 < pool.numWorkers then .initialising (i + 1) else .serving }.setWorker i
          { spsc := { ring }, running := true, stage := .testing }) none
  | pushing (idx : UInt64) (pushing : pool.main = .pushing idx) (spsc : SpscState α)
      (ran : spscRingPush (pool.workers idx).spsc = some (spsc, none)) :
      PoolStep pool .main (pool.setWorker idx { pool.workers idx with spsc }) none
  | pushed (idx : UInt64) (pushing : pool.main = .pushing idx) (spsc : SpscState α) (item : α)
      (accepted : Bool)
      (ran : spscRingPush (pool.workers idx).spsc = some (spsc, some (.push item accepted))) :
      PoolStep pool .main ({ pool with main := .serving }.setWorker idx { pool.workers idx with spsc })
        (some (.dispatched idx item accepted))
  | destroy (serving : pool.main = .serving) :
      PoolStep pool .destroy { pool with main := .clearing 0 } none
  | cleared (i : UInt64) (clearing : pool.main = .clearing i) :
      PoolStep pool .main
        ({ pool with main := .joining i }.setWorker i { pool.workers i with running := false }) none
  | joined (i : UInt64) (joining : pool.main = .joining i) (exited : (pool.workers i).stage = .exited) :
      PoolStep pool .main { pool with
        main := if i + 1 < pool.numWorkers then .clearing (i + 1) else .destroyed } none

/-- Every step of the pool is one of the main thread's or one of a worker's, under the
conditions that the source tests. -/
theorem poolStep_cases {pool pool' : WorkerPool α} {choice : PoolChoice α}
    (stepped : (poolMachine α).step choice pool = some (pool', action)) :
    PoolStep pool choice pool' action := by
  change poolStep choice pool = _ at stepped
  cases choice with
  | dispatch item malloc =>
    simp only [poolStep] at stepped
    split at stepped
    · rename_i serving
      cases malloc <;> cases stepped
      · exact .refused item serving
      · exact .called item serving _ rfl
    · cases stepped
  | destroy =>
    simp only [poolStep] at stepped
    split at stepped <;> cases stepped
    exact .destroy ‹_›
  | main =>
    change mainThread pool = _ at stepped
    unfold mainThread at stepped
    split at stepped
    · split at stepped <;> cases stepped
      exact .started _ ‹_› _ ‹_›
    · dsimp only at stepped
      split at stepped
      · cases stepped
      · cases stepped
        exact .pushed _ ‹_› _ _ _ ‹_›
      · rename_i shown other ran
        cases stepped
        cases shown with
        | none => exact .pushing _ ‹_› _ ran
        | some shown =>
          obtain ⟨item, accepted, rfl⟩ := (spscRingPush_shows ran).2.2 _ rfl
          exact (other item accepted rfl).elim
    · cases stepped
      exact .cleared _ ‹_›
    · split at stepped <;> cases stepped
      exact .joined _ ‹_› ‹_›
    · cases stepped
    · cases stepped
  | worker i =>
    simp only [poolStep] at stepped
    split at stepped
    · obtain ⟨⟨worker, item⟩, ran, same⟩ := Option.map_eq_some_iff.mp stepped
      cases same
      exact .worker i ‹_› worker item (workerThread_cases ran)
    · cases stepped

/-! ## What the environment has seen -/

/-- The attempts to dispatch, in order. -/
def dispatches (actions : List (PoolAction α)) : List (UInt64 × α × Bool) :=
  actions.filterMap fun
    | .dispatched worker item accepted => some (worker, item, accepted)
    | .executed .. => none

/-- The items accepted for a worker, in order. -/
def acceptedBy (w : UInt64) (actions : List (PoolAction α)) : List α :=
  (dispatches actions).filterMap fun (worker, item, accepted) =>
    if worker = w ∧ accepted then some item else none

/-- The items a worker has run, in order. -/
def executedBy (w : UInt64) (actions : List (PoolAction α)) : List α :=
  actions.filterMap fun
    | .executed worker item => if worker = w then some item else none
    | _ => none

@[simp] theorem dispatches_append (first second : List (PoolAction α)) :
    dispatches (first ++ second) = dispatches first ++ dispatches second := List.filterMap_append ..

@[simp] theorem acceptedBy_append (w : UInt64) (first second : List (PoolAction α)) :
    acceptedBy w (first ++ second) = acceptedBy w first ++ acceptedBy w second := by
  simp [acceptedBy]

@[simp] theorem executedBy_append (w : UInt64) (first second : List (PoolAction α)) :
    executedBy w (first ++ second) = executedBy w first ++ executedBy w second := List.filterMap_append ..

end H2oTpcc

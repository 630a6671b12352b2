import H2oTpcc.WorkerPoolProofs

/-! Shutting the pool down. `worker_pool_destroy` clears the flags while items may still
be queued, and a worker tests its flag before each pop: accepted work is lost exactly if
some worker leaves its loop with items in its ring. -/
namespace H2oTpcc
variable {α : Type}

/-- A worker that leaves its loop in this step leaves an empty ring. -/
def ExitsDrained (_ : PoolChoice α) (pool pool' : WorkerPool α) : Prop :=
  ∀ w, (pool.workers w).stage ≠ .exited → (pool'.workers w).stage = .exited →
    (pool.workers w).spsc.ring.tail = (pool.workers w).spsc.ring.head

section Steps
variable {n : UInt64} {actions : List (PoolAction α)} {pool pool' : WorkerPool α} {w : UInt64}
  {choice : PoolChoice α} {action : Option (PoolAction α)}

private theorem PoolInv.not_initialising (inv : PoolInv n actions pool)
    (exited : (pool.workers w).stage = .exited) (i : UInt64) : pool.main ≠ .initialising i := by
  intro initialising
  have knows := inv.main
  rw [initialising] at knows
  obtain ⟨_, _, below, above⟩ := knows
  by_cases less : w < i
  · exact (below w less).loops exited
  · have absent := above w (UInt64.not_lt.mp less)
    rw [exited] at absent
    cases absent

/-- A worker that has left its loop stays out of it and is given nothing more. -/
theorem PoolInv.exited_step (inv : PoolInv n actions pool) (exited : (pool.workers w).stage = .exited)
    (stepped : (poolMachine α).step choice pool = some (pool', action)) :
    (pool'.workers w).stage = .exited ∧ executedBy w action.toList = [] ∧
      acceptedBy w action.toList = [] := by
  have knows := inv.main
  have kept {main : MainStage} {next i : UInt64} {worker : Worker α}
      (stage : (pool.workers i).stage = .exited → worker.stage = .exited) :
      (({ pool with main, nextWorker := next }.setWorker i worker).workers w).stage = .exited := by
    rw [setWorker_workers]
    split
    · subst w
      exact stage exited
    · exact exited
  cases poolStep_cases stepped with
  | worker i inside worker item step =>
    have other : i ≠ w := by
      rintro rfl
      exact step.loops.2 exited
    refine ⟨kept step.keeps.exited, ?_⟩
    cases item <;> simp [executedBy, acceptedBy, dispatches, other]
  | refused item serving => exact ⟨exited, by simp [executedBy], by simp [acceptedBy, dispatches]⟩
  | started i initialising ring init => exact absurd initialising (inv.not_initialising exited i)
  | pushed idx pushing spsc item accepted ran =>
    rw [pushing] at knows
    have other : idx ≠ w := by
      rintro rfl
      exact (knows.1 idx (knows.2 ▸ inv.turn_lt _)).loops exited
    exact ⟨kept id, by simp [executedBy], by simp [acceptedBy, dispatches, other]⟩
  | called | pushing | cleared => exact ⟨kept id, rfl, rfl⟩
  | destroy | joined => exact ⟨exited, rfl, rfl⟩

private theorem PoolInv.exited_run (inv : PoolInv n actions pool)
    (exited : (pool.workers w).stage = .exited)
    (ran : (poolMachine α).run choices pool = some (later, final)) :
    executedBy w later = [] ∧ acceptedBy w later = [] := by
  induction choices generalizing pool actions later with
  | nil =>
    cases ran
    exact ⟨rfl, rfl⟩
  | cons choice rest ih =>
    obtain ⟨pool', action, later, stepped, continued, rfl⟩ := Machine.run_cons ran
    obtain ⟨still, executed, accepted⟩ := inv.exited_step exited stepped
    obtain ⟨executed', accepted'⟩ := ih (inv.step stepped) still continued
    rw [executedBy_append, acceptedBy_append, executed, accepted, executed', accepted']
    exact ⟨rfl, rfl⟩

/-- A worker leaves its loop only by finding its flag cleared. What it was given and has
not run is then in its ring. -/
theorem PoolInv.exits (inv : PoolInv n actions pool) (loops : (pool.workers w).stage ≠ .exited)
    (stepped : (poolMachine α).step choice pool = some (pool', action))
    (exited : (pool'.workers w).stage = .exited) :
    action = none ∧ ∃ queue, acceptedBy w actions = executedBy w actions ++ queue ∧
      ((pool.workers w).spsc.ring.tail = (pool.workers w).spsc.ring.head ↔ queue = []) := by
  have changed {main : MainStage} {next i : UInt64} {worker : Worker α}
      (set : (({ pool with main, nextWorker := next }.setWorker i worker).workers w).stage = .exited) :
      i = w ∧ worker.stage = .exited := by
    rw [setWorker_workers] at set
    split at set
    · exact ⟨Eq.symm ‹_›, set⟩
    · exact absurd set loops
  cases poolStep_cases stepped with
  | worker i inside worker item step =>
    obtain ⟨rfl, stage⟩ := changed exited
    obtain ⟨queue, items, holds⟩ := inv.serves i
    cases step with
    | stopped testing cleared =>
      refine ⟨rfl, queue, ?_, (holds (by simp [testing])).empty_iff⟩
      simpa [testing, WorkerStage.inHand] using items
    | popping popping spsc ran => exact absurd stage loops
    | tested | popped | yielded | executed => cases stage
  | started i initialising ring init =>
    obtain ⟨_, impossible⟩ := changed exited
    cases impossible
  | called | pushing | pushed | cleared =>
    obtain ⟨rfl, stage⟩ := changed exited
    exact absurd stage loops
  | refused | destroy | joined => exact absurd exited loops

/-- Whoever was given an item and is idle is one of the workers. -/
private theorem PoolInv.acceptedBy_outside (inv : PoolInv n actions pool) (outside : n ≤ w) :
    acceptedBy w actions = [] := by
  rw [acceptedBy, List.filterMap_eq_nil_iff]
  rintro ⟨worker, item, accepted⟩ member
  obtain ⟨k, found⟩ := List.mem_iff_getElem?.mp member
  have target : worker < n := by
    have turn := inv.targets k _ found
    dsimp only at turn
    rw [turn]
    exact inv.turn_lt _
  refine if_neg ?_
  rintro ⟨rfl, _⟩
  exact UInt64.not_lt.mpr outside target

/-- If in the end everything accepted has been run, then so it was when each worker left:
nothing is run or accepted after that. -/
theorem PoolInv.drained (inv : PoolInv n actions pool)
    (ran : (poolMachine α).run choices pool = some (later, final))
    (complete : ∀ w, executedBy w (actions ++ later) = acceptedBy w (actions ++ later)) :
    (poolMachine α).Along ExitsDrained choices pool := by
  induction choices generalizing pool actions later with
  | nil => trivial
  | cons choice rest ih =>
    intro middle action stepped
    obtain ⟨_, _, later, stepped', continued, rfl⟩ := Machine.run_cons ran
    cases stepped.symm.trans stepped'
    have next := inv.step stepped
    refine ⟨fun w loops exited => ?_, ih next continued (by simpa using complete)⟩
    obtain ⟨rfl, queue, items, empty⟩ := inv.exits loops stepped exited
    obtain ⟨executed, accepted⟩ := next.exited_run exited continued
    have same := complete w
    simp [executed, accepted, items] at same
    exact empty.mpr same

/-- Whoever has left its loop has run everything it was given. -/
def LeftClean (actions : List (PoolAction α)) (pool : WorkerPool α) : Prop :=
  ∀ w, (pool.workers w).stage = .exited → executedBy w actions = acceptedBy w actions

private theorem PoolInv.leftClean_step (inv : PoolInv n actions pool) (clean : LeftClean actions pool)
    (stepped : (poolMachine α).step choice pool = some (pool', action))
    (drained : ExitsDrained choice pool pool') : LeftClean (actions ++ action.toList) pool' := by
  intro w exited
  rw [executedBy_append, acceptedBy_append]
  by_cases already : (pool.workers w).stage = .exited
  · obtain ⟨_, executed, accepted⟩ := inv.exited_step already stepped
    rw [executed, accepted, clean w already]
  · obtain ⟨rfl, queue, items, empty⟩ := inv.exits already stepped exited
    rw [items, empty.mp (drained w already exited)]
    simp [executedBy, acceptedBy, dispatches]

private theorem leftClean_init (init : workerPoolInit n = some pool) : LeftClean [] pool := by
  intro w exited
  have started := (PoolInv.init init).not_initialising exited 0
  unfold workerPoolInit at init
  split at init
  · cases init
    exact absurd rfl started
  · cases init

private theorem PoolInv.leftClean_run (init : workerPoolInit n = some pool)
    (ran : (poolMachine α).run choices pool = some (actions, pool'))
    (drained : (poolMachine α).Along ExitsDrained choices pool) : LeftClean actions pool' := by
  refine (Machine.run_along (I := fun actions pool => PoolInv n actions pool ∧ LeftClean actions pool)
    ?_ ⟨.init init, leftClean_init init⟩ ran drained).2
  rintro choice actions pool pool' action ⟨inv, clean⟩ stepped drained
  exact ⟨inv.step stepped, inv.leftClean_step clean stepped drained⟩

end Steps

/-- **Shutdown.** When `worker_pool_destroy` returns, every item whose dispatch was
accepted has been run once exactly if every worker left its loop with an empty ring. -/
theorem shutdown_complete_iff {n : UInt64} {pool pool' : WorkerPool α} {actions : List (PoolAction α)}
    (init : workerPoolInit n = some pool)
    (ran : (poolMachine α).run choices pool = some (actions, pool')) (destroyed : pool'.main = .destroyed) :
    (∀ w, executedBy w actions = acceptedBy w actions) ↔
      (poolMachine α).Along ExitsDrained choices pool := by
  constructor
  · exact fun complete => (PoolInv.init init).drained ran complete
  · intro drained w
    have inv := PoolInv.run init ran
    by_cases inside : w < n
    · have knows := inv.main
      rw [destroyed] at knows
      exact PoolInv.leftClean_run init ran drained w (knows w inside)
    · have none := inv.acceptedBy_outside (UInt64.not_lt.mp inside)
      obtain ⟨queue, items, _⟩ := inv.serves w
      rw [none, eq_comm, List.append_assoc, List.append_eq_nil_iff] at items
      rw [none, items.1]

/-- One worker, one accepted item, and the flag is cleared before the worker's first test: it
leaves without looking at its ring. -/
theorem accepted_left_behind : ∃ pool choices, ∃ actions : List (PoolAction Nat), ∃ pool',
    workerPoolInit 1 = some pool ∧ (poolMachine Nat).run choices pool = some (actions, pool') ∧
    pool'.main = .destroyed ∧ acceptedBy 0 actions = [7] ∧ executedBy 0 actions = [] := by
  refine ⟨_, [.main, .dispatch 7 true, .main, .main, .main, .main, .destroy, .main, .worker 0, .main],
    [.dispatched 0 7 true], _, rfl, rfl, rfl, rfl, rfl⟩

/-- The worker runs the item, finds its ring empty and then its flag cleared. -/
theorem shutdown_complete_iff_drained : ∃ pool choices, ∃ actions : List (PoolAction Nat), ∃ pool',
    workerPoolInit 1 = some pool ∧ (poolMachine Nat).run choices pool = some (actions, pool') ∧
    pool'.main = .destroyed ∧ acceptedBy 0 actions = [7] ∧
    (poolMachine Nat).Along ExitsDrained choices pool := by
  have ran : ∃ pool pool', workerPoolInit 1 = some pool ∧ (poolMachine Nat).run
      [.main, .dispatch 7 true, .main, .main, .main, .main, .worker 0, .worker 0, .worker 0, .worker 0,
        .worker 0, .worker 0, .destroy, .main, .worker 0, .main] pool =
      some ([.dispatched 0 7 true, .executed 0 7], pool') ∧ pool'.main = .destroyed :=
    ⟨_, _, rfl, rfl, rfl⟩
  obtain ⟨pool, pool', init, ran, destroyed⟩ := ran
  refine ⟨pool, _, _, pool', init, ran, destroyed, rfl, (shutdown_complete_iff init ran destroyed).mp ?_⟩
  intro w
  by_cases own : 0 = w <;> simp [executedBy, acceptedBy, dispatches, own]

end H2oTpcc

import H2oTpcc.WeakRing

/-! What the memory orders of the ring are for. With the orders that it asks for no slot
is ever raced on, and an item may be handed over with all that it points to. Without any
one of the four that synchronise, every longer run races. -/
namespace H2oTpcc
open ReleaseAcquire (MemoryOrder)

/-- Each thread learns what the other has done: the stores release, and the loads of the
other's counter acquire. -/
structure RingOrders.Synchronise (orders : RingOrders) : Prop where
  loading : ∀ thread, orders.loading thread = .acquire
  storing : ∀ counter, orders.storing counter = .release

/-- The orders of the source pair each release store of a counter with an acquire load of it by the
other thread. -/
theorem spscOrders_synchronise : spscOrders.Synchronise := by
  constructor
  · rintro (_ | _) <;> rfl
  · rintro (_ | _) <;> rfl

/-! ## No slot is raced on -/

/-- Each message of a counter carries what its thread has done to the slots that the
counter gives away, and each thread has seen what the messages it took carry. -/
structure Synced (capacity : UInt64) (progress : RingProgress) (memory : RingMemory α) : Prop where
  filled : ∀ {i : Nat} {message : RingMessage}, (memory.messages .head)[i]? = some message →
    ∀ n, progress.popped ≤ n → n < i →
      memory.Covers message.view .producer (.slot (slotOf capacity n))
  freed : ∀ {i : Nat} {message : RingMessage}, (memory.messages .tail)[i]? = some message →
    ∀ n, progress.pushed ≤ n → n < i + capacity.toNat →
      memory.Covers message.view .consumer (.slot (slotOf capacity n))
  taken : ∀ {thread : RingThread} {counter : RingCounter} {message : RingMessage},
    (memory.messages counter)[memory.view thread (.inr counter)]? = some message →
      message.view ≤ memory.view thread
  unraced : ∀ index, memory.raced (.slot index) = false

namespace Synced
variable {capacity : UInt64} {k : Nat} {progress progress' : RingProgress} {memory memory' : RingMemory α}

theorem initial (capacity : UInt64) (progress : RingProgress) (cell : RingCell α → Option α) :
    Synced capacity progress (.initial (fun _ => 0) cell) where
  filled _ _ _ _ _ := Nat.zero_le _
  freed _ _ _ _ _ := Nat.zero_le _
  taken found := by
    obtain ⟨_, rfl⟩ := List.getElem?_eq_some_iff.mp found
    intro place
    simp [ReleaseAcquire.Memory.initial]
  unraced _ := rfl

/-- The last message of a counter that a thread has seen is one that it has taken over. -/
theorem last (synced : Synced capacity progress memory) (counts : Counts capacity progress memory)
    (thread : RingThread) (counter : RingCounter) :
    ∃ message, (memory.messages counter)[memory.view thread (.inr counter)]? = some message ∧
      message.view ≤ memory.view thread := by
  have inside : memory.view thread (.inr counter) < (memory.messages counter).length := by
    rw [counts.stored]
    exact Nat.lt_succ_of_le (counts.view_le thread counter)
  exact ⟨_, List.getElem?_eq_getElem inside, synced.taken (List.getElem?_eq_getElem inside)⟩

/-- A load that acquires takes over what the message carries; one of the thread's own counter brings
nothing new. -/
theorem load (synced : Synced capacity progress memory) (counts : Counts capacity progress memory)
    (loaded : memory.load thread counter order i = some (value, memory'))
    (acquires : counter.owner ≠ thread → order = .acquire) : Synced capacity progress memory' := by
  by_cases mine : counter.owner = thread
  · rwa [(counts.coherent.load_own mine loaded).2]
  obtain rfl := acquires mine
  have coherent := counts.coherent.load loaded
  have here := (counts.loaded loaded).2.1
  obtain ⟨_, message, found, _, rfl⟩ := ReleaseAcquire.Memory.load_cases loaded
  refine { synced with taken := fun {thread' counter' message'} found' => ?_ }
  by_cases own : counter'.owner = thread'
  · exact own ▸ coherent.told found'
  · by_cases other : thread' = thread
    · subst other
      -- its own counter apart, there is only the one that it loads
      obtain rfl : counter' = counter := by
        cases counter' <;> cases counter <;> cases thread' <;> first | rfl | exact absurd rfl own |
          exact absurd rfl mine
      rw [here] at found'
      cases found.symm.trans found'
      simpa using ReleaseAcquire.Memory.le_seeing_acquire memory thread' counter' i message
    · simp only [Function.update_of_ne other] at found' ⊢
      exact synced.taken found'

/-- A release store of the thread's own counter, which goes one up. -/
theorem store (synced : Synced capacity progress memory) (counts : Counts capacity progress memory)
    (counter : RingCounter) (pushed : progress.pushed ≤ progress'.pushed)
    (popped : progress.popped ≤ progress'.popped) (value : UInt64) :
    Synced capacity progress' (memory.store counter.owner counter .release value) := by
  have coherent := counts.coherent.store (rfl : counter.owner = counter.owner) .release value
  have grown := ReleaseAcquire.Memory.le_store_view (counts.coherent.own counter) .release value
  refine {
    filled := fun found n after before => ?_
    freed := fun found n after near => ?_
    taken := fun {thread c message} found => ?_
    unraced := synced.unraced }
  · rcases ReleaseAcquire.Memory.getElem?_store found with old | ⟨rfl, _, _, _, _, release⟩
    · exact synced.filled old n (Nat.le_trans popped after) before
    · rw [release rfl]
      exact coherent.covers_self _ _
  · rcases ReleaseAcquire.Memory.getElem?_store found with old | ⟨rfl, _, _, _, _, release⟩
    · exact synced.freed old n (Nat.le_trans pushed after) near
    · rw [release rfl]
      exact coherent.covers_self _ _
  · by_cases own : c.owner = thread
    · exact own ▸ coherent.told found
    · have foreign : (memory.store counter.owner counter .release value).view thread (.inr c) =
          memory.view thread (.inr c) := by
        by_cases mine : thread = counter.owner
        · subst mine
          have different : c ≠ counter := fun same => own (congrArg RingCounter.owner same)
          simp [ReleaseAcquire.Memory.store_view_self, different]
        · rw [ReleaseAcquire.Memory.store_view_other mine]
      rw [foreign] at found
      rcases ReleaseAcquire.Memory.getElem?_store found with old | ⟨rfl, last, _⟩
      · exact le_trans (synced.taken old) (grown thread)
      · have := counts.view_le thread c
        rw [counts.stored] at last
        omega

variable [DecidableEq α]

/-- A plain access that leaves the marks on the slots given away. -/
theorem access (synced : Synced capacity progress memory) (counts : Counts capacity progress memory)
    {cell : RingCell α → Option α} (pushed : progress'.pushed = progress.pushed)
    (popped : progress'.popped = progress.popped)
    (filled : ∀ n, progress.popped ≤ n → n < progress.pushed →
      (.producer, .slot (slotOf capacity n)) ≠ (thread, x))
    (freed : ∀ n, progress.pushed ≤ n → n < progress.popped + capacity.toNat →
      (.consumer, .slot (slotOf capacity n)) ≠ (thread, x))
    (unraced : ∀ index, x = .slot index → memory.Unraced kind thread x) :
    Synced capacity progress' { memory.access kind thread x with cell } := by
  have inside {counter : RingCounter} {i : Nat} {message : RingMessage}
      (found : (memory.messages counter)[i]? = some message) : i ≤ progress.stored counter := by
    have := (List.getElem?_eq_some_iff.mp found).1
    rw [counts.stored] at this
    exact Nat.le_of_lt_succ this
  refine ⟨fun found n after before => ?_, fun found n after near => ?_,
    fun {thread' counter message} found => ?_, fun index => ?_⟩
  · rw [popped] at after
    exact (ReleaseAcquire.Memory.covers_access
      (filled n after (Nat.lt_of_lt_of_le before (inside found)))).mpr (synced.filled found n after before)
  · rw [pushed] at after
    exact (ReleaseAcquire.Memory.covers_access
      (freed n after (Nat.lt_of_lt_of_le near (Nat.add_le_add_right (inside found) _)))).mpr
      (synced.freed found n after near)
  · rw [ReleaseAcquire.Memory.access_view_location] at found
    exact le_trans (synced.taken found) (ReleaseAcquire.Memory.le_access_view memory kind thread x thread')
  · by_cases here : x = .slot index
    · rw [ReleaseAcquire.Memory.raced_access (unraced index here)]
      exact synced.unraced index
    · simpa [ReleaseAcquire.Memory.access, Ne.symm here] using synced.unraced index

/-- With orders that synchronise, every access of the two functions keeps the slots handed over
properly. -/
theorem move (power : capacity.toNat = 2 ^ k) (synchronise : orders.Synchronise)
    (synced : Synced capacity progress memory) (counts : Counts capacity progress memory)
    (move : RingMove orders capacity touched progress memory progress' memory') :
    Synced capacity progress' memory' := by
  have tail_seen : memory.view .producer (.inr .tail) ≤ progress.popped := counts.view_le .producer .tail
  have head_seen : memory.view .consumer (.inr .head) ≤ progress.pushed := counts.view_le .consumer .head
  cases move with
  | stay => exact synced
  | load loaded foreign =>
    exact synced.load counts loaded (fun other => (foreign other).trans (synchronise.loading _))
  | write item about room =>
    refine synced.access counts rfl rfl (fun n after before same => ?_) (fun _ _ _ => by simp)
      (fun _ _ => ?_)
    · simp only [Prod.mk.injEq, true_and, RingCell.slot.injEq] at same
      exact slotOf_ne power before (by omega) same
    · obtain ⟨message, found, seen⟩ := synced.last counts .producer .tail
      refine ReleaseAcquire.Memory.unraced_of_covers (fun u => ?_) _
      cases u with
      | producer => exact counts.coherent.covers_self _ _
      | consumer => exact (synced.freed found _ (Nat.le_refl _) room).mono seen
  | read about unread =>
    refine synced.access counts rfl rfl (fun _ _ _ => by simp) (fun n after near same => ?_) (fun _ _ => ?_)
    · simp only [Prod.mk.injEq, true_and, RingCell.slot.injEq] at same
      exact slotOf_ne power (by omega) near same.symm
    · obtain ⟨message, found, seen⟩ := synced.last counts .consumer .head
      refine ReleaseAcquire.Memory.unraced_of_covers (fun u => ?_) _
      cases u with
      | producer => exact (synced.filled found _ (Nat.le_refl _) unread).mono seen
      | consumer => exact counts.coherent.covers_self _ _
  | publish done room =>
    rw [show orders.pushStore = .release from synchronise.storing .head]
    refine synced.store counts .head ?_ ?_ _
    · exact Nat.le_succ _
    · exact Nat.le_refl _
  | giveBack done unread =>
    rw [show orders.popStore = .release from synchronise.storing .tail]
    refine synced.store counts .tail ?_ ?_ _
    · exact Nat.le_refl _
    · exact Nat.le_succ _
  | touch thread item =>
    refine synced.access counts rfl rfl (fun _ _ _ => by simp) (fun _ _ _ => by simp) (fun _ same => ?_)
    cases same

end Synced

/-! ## Without synchronisation -/

/-- The thread that loads the counter and does not store it. -/
def RingCounter.reader : RingCounter → RingThread
  | head => .consumer
  | tail => .producer

private theorem RingCounter.reader_ne_owner (counter : RingCounter) :
    counter.reader ≠ counter.owner := by
  cases counter <;> exact RingThread.noConfusion

/-- The counter's messages do not carry what its owner did, or its reader does not take it
over. -/
def RingOrders.Loses (orders : RingOrders) (counter : RingCounter) : Prop :=
  ¬(orders.storing counter = .release ∧ orders.loading counter.reader = .acquire)

/-- The reader of the counter has seen no plain access of its owner. -/
structure Unheard (orders : RingOrders) (counter : RingCounter) (memory : RingMemory α) : Prop where
  unseen : memory.view counter.reader (.inl counter.owner) = 0
  untold : orders.loading counter.reader = .acquire →
    ∀ message ∈ memory.messages counter, message.view (.inl counter.owner) = 0

namespace Unheard
variable {capacity : UInt64} {orders : RingOrders} {counter : RingCounter}
  {progress progress' : RingProgress} {memory memory' : RingMemory α}

theorem initial (orders : RingOrders) (counter : RingCounter) (cell : RingCell α → Option α) :
    Unheard orders counter (.initial (fun _ => 0) cell) := by
  refine ⟨rfl, fun _ message member => ?_⟩
  cases List.mem_singleton.mp member
  rfl

/-- A load of a counter whose orders lose the synchronisation brings no news of plain accesses. -/
theorem load (unheard : Unheard orders counter memory) (coherent : memory.Coherent RingCounter.owner)
    (loaded : memory.load thread c order i = some (value, memory'))
    (foreign : c.owner ≠ thread → order = orders.loading thread) : Unheard orders counter memory' := by
  by_cases mine : c.owner = thread
  · rwa [(coherent.load_own mine loaded).2]
  obtain rfl := foreign mine
  obtain ⟨_, message, found, _, rfl⟩ := ReleaseAcquire.Memory.load_cases loaded
  refine ⟨?_, unheard.untold⟩
  by_cases other : counter.reader = thread
  · subst other
    obtain rfl : c = counter := by
      cases c <;> cases counter <;> first | rfl | exact absurd rfl mine
    have untold := unheard.untold
    have unseen := unheard.unseen
    simp only [Function.update_self, ReleaseAcquire.Memory.seeing]
    split
    · rename_i acquire
      simp [unseen, untold acquire message (List.mem_of_getElem? found)]
    · simpa using unseen
  · simpa [other] using unheard.unseen

/-- A store may tell of the accesses of its own thread only, and does so only if it releases. -/
theorem store (unheard : Unheard orders counter memory) (loses : orders.Loses counter) (c : RingCounter)
    (value : UInt64) : Unheard orders counter (memory.store c.owner c (orders.storing c) value) := by
  constructor
  · by_cases other : counter.reader = c.owner
    · rw [other, ReleaseAcquire.Memory.store_view_self]
      simpa [← other] using unheard.unseen
    · rw [ReleaseAcquire.Memory.store_view_other other]
      exact unheard.unseen
  · intro acquire message member
    by_cases here : counter = c
    · subst here
      have relaxed : orders.storing counter ≠ .release := fun release => loses ⟨release, acquire⟩
      rcases ReleaseAcquire.Memory.untold_of_store relaxed member with old | silent
      · exact unheard.untold acquire message old
      · exact silent _
    · simp only [ReleaseAcquire.Memory.store, Function.update_of_ne here] at member
      exact unheard.untold acquire message member

variable [DecidableEq α]

theorem access (unheard : Unheard orders counter memory) (kind : ReleaseAcquire.Access)
    (thread : RingThread) (x : RingCell α) (cell : RingCell α → Option α) :
    Unheard orders counter { memory.access kind thread x with cell } := by
  refine ⟨?_, unheard.untold⟩
  by_cases other : counter.reader = thread
  · subst other
    have apart := counter.reader_ne_owner.symm
    simpa [ReleaseAcquire.Memory.access, apart] using unheard.unseen
  · simpa [ReleaseAcquire.Memory.access, other] using unheard.unseen

/-- So the reader of such a counter never hears of what its owner has done to the slots. -/
theorem move (unheard : Unheard orders counter memory) (loses : orders.Loses counter)
    (counts : Counts capacity progress memory)
    (move : RingMove orders capacity touched progress memory progress' memory') :
    Unheard orders counter memory' := by
  cases move with
  | stay => exact unheard
  | load loaded foreign => exact unheard.load counts.coherent loaded foreign
  | write item about room => exact unheard.access ..
  | read about unread => exact unheard.access ..
  | publish done room => exact unheard.store loses .head _
  | giveBack done unread => exact unheard.store loses .tail _
  | touch thread item => exact unheard.access ..

end Unheard

section Races
variable [DecidableEq α] {capacity : UInt64} {k : Nat} {orders : RingOrders}
  {progress progress' : RingProgress} {memory memory' : RingMemory α}

private theorem RingMove.raced_mono
    (move : RingMove orders capacity touched progress memory progress' memory')
    (raced : memory.raced x = true) : memory'.raced x = true := by
  cases move with
  | stay => exact raced
  | load loaded foreign =>
    obtain ⟨_, _, _, _, rfl⟩ := ReleaseAcquire.Memory.load_cases loaded
    exact raced
  | write item about room => exact ReleaseAcquire.Memory.access_raced_mono raced ..
  | read about unread => exact ReleaseAcquire.Memory.access_raced_mono raced ..
  | publish done room => exact raced
  | giveBack done unread => exact raced
  | touch thread item => exact ReleaseAcquire.Memory.access_raced_mono raced ..

/-- The consumer has seen no write, and every slot that it read is raced on. -/
structure RacesReading (orders : RingOrders) (capacity : UInt64) (progress : RingProgress)
    (memory : RingMemory α) : Prop where
  unheard : Unheard orders .head memory
  raced : ∀ n < progress.read, memory.raced (.slot (slotOf capacity n)) = true

/-- Each read of a slot is then a race with the write before it. -/
theorem RacesReading.move (races : RacesReading orders capacity progress memory)
    (loses : orders.Loses .head) (counts : Counts capacity progress memory)
    (move : RingMove orders capacity touched progress memory progress' memory') :
    RacesReading orders capacity progress' memory' := by
  refine ⟨races.unheard.move loses counts move, fun n below => ?_⟩
  have before (old : n < progress.read) := move.raced_mono (races.raced n old)
  cases move with
  | stay | load _ _ | write _ _ _ | publish _ _ | giveBack _ _ | touch _ _ => exact before below
  | read about unread =>
    rcases Nat.lt_succ_iff_lt_or_eq.mp below with old | rfl
    · exact before (about ▸ old)
    · refine ReleaseAcquire.Memory.access_raced (fun unraced => ?_)
      have inside : progress.popped < progress.written :=
        Nat.lt_of_lt_of_le unread (Nat.le_trans (counts.view_le .consumer .head) counts.pushed_le)
      have seen := unraced.1 .producer
      have unseen : memory.view .consumer (.inl .producer) = 0 := races.unheard.unseen
      exact counts.wrote _ inside (Nat.le_zero.mp (unseen ▸ seen))

/-- The producer has seen no read, and every slot that it used again is raced on. -/
structure RacesWriting (orders : RingOrders) (capacity : UInt64) (progress : RingProgress)
    (memory : RingMemory α) : Prop where
  unheard : Unheard orders .tail memory
  raced : ∀ n < progress.written, capacity.toNat ≤ n → memory.raced (.slot (slotOf capacity n)) = true

/-- Each write to a slot that was used before is then a race with the read before it. -/
theorem RacesWriting.move (power : capacity.toNat = 2 ^ k)
    (races : RacesWriting orders capacity progress memory) (loses : orders.Loses .tail)
    (counts : Counts capacity progress memory)
    (move : RingMove orders capacity touched progress memory progress' memory') :
    RacesWriting orders capacity progress' memory' := by
  refine ⟨races.unheard.move loses counts move, fun n below again => ?_⟩
  have before (old : n < progress.written) := move.raced_mono (races.raced n old again)
  cases move with
  | stay | load _ _ | read _ _ | publish _ _ | giveBack _ _ | touch _ _ => exact before below
  | write item about room =>
    rcases Nat.lt_succ_iff_lt_or_eq.mp below with old | rfl
    · exact before (about ▸ old)
    · refine ReleaseAcquire.Memory.access_raced (fun unraced => ?_)
      have seen := unraced.2 rfl .consumer
      have unseen : memory.view .producer (.inl .consumer) = 0 := races.unheard.unseen
      have heard : memory.view .producer (.inr .tail) ≤ progress.popped := counts.view_le .producer .tail
      have popped_le := counts.popped_le
      obtain ⟨n, pushed⟩ := Nat.exists_eq_add_of_le' again
      rw [pushed, slotOf_again power] at seen
      exact counts.didRead n (by omega) (Nat.le_zero.mp (unseen ▸ seen))

end Races

/-! ## What the orders are needed for -/

/-- The runs of the ring, and what each of them keeps if every access keeps it. -/
theorem weak_run [DecidableEq α] {slots : UInt64 → Option α} {J : RingProgress → RingMemory α → Prop}
    (init : weakRingInit slots capacity = some start)
    (kept : ∀ {touched progress memory progress' memory'}, Counts capacity progress memory →
      J progress memory → RingMove orders capacity touched progress memory progress' memory' →
      J progress' memory')
    (first : ∀ cell, J {} (.initial (fun _ => 0) cell))
    (ran : (weakMachine α orders).run choices start = some (actions, state)) :
    ∃ q, Fifo.Delayed.After capacity.toNat actions q ∧ Keeping J capacity state q := by
  obtain ⟨⟨k, power⟩, ⟨holds, between⟩, cell, memory⟩ := weakRingInit_settled init
  have progress : start.progress {} = {} := by
    simp [WeakState.progress, between.producer, between.consumer, Producer.unpublished, Consumer.unreturned]
  obtain ⟨q, trace, keeping⟩ := (weak_simulates_keeping power kept).trace
    ⟨holds, progress ▸ memory ▸ first cell⟩ ran
  have after := (Fifo.Delayed.After.start capacity.toNat).trace trace
  rw [List.nil_append] at after
  exact ⟨q, after, keeping⟩

section Needed
variable [DecidableEq α] {slots : UInt64 → Option α} {capacity : UInt64} {start : WeakState α}
  {orders : RingOrders}

/-- With orders that synchronise no slot is ever raced on, whatever the interleaving and whichever
messages the loads take. -/
theorem slots_unraced (synchronise : orders.Synchronise)
    (init : weakRingInit slots capacity = some start)
    (ran : (weakMachine α orders).run choices start = some (actions, state)) (index : UInt64) :
    state.memory.raced (.slot index) = false := by
  obtain ⟨⟨k, power⟩, _⟩ := weakRingInit_settled init
  obtain ⟨q, _, keeping⟩ := weak_run init
    (fun counts synced move => Synced.move power synchronise synced counts move)
    (Synced.initial capacity {}) ran
  exact keeping.2.unraced index

/-- If the consumer does not learn what the producer did, every item that it returns was
raced on. -/
theorem reading_races (loses : orders.Loses .head) (init : weakRingInit slots capacity = some start)
    (ran : (weakMachine α orders).run choices start = some (actions, state))
    (some_returned : Fifo.returned actions ≠ []) : ∃ index, state.memory.raced (.slot index) = true := by
  obtain ⟨q, after, holds, races⟩ := weak_run init
    (fun counts races move => RacesReading.move races loses counts move)
    (fun cell => ⟨Unheard.initial orders .head cell, fun n below => absurd below (Nat.not_lt_zero n)⟩) ran
  have popped : 0 < q.taken := by
    rw [after.taken]
    exact List.length_pos_iff.mpr some_returned
  exact ⟨_, races.raced 0 (Nat.lt_of_lt_of_le popped holds.counts.popped_le)⟩

/-- If the producer does not learn what the consumer did, every slot that it uses again is
raced on. -/
theorem writing_races (loses : orders.Loses .tail) (init : weakRingInit slots capacity = some start)
    (ran : (weakMachine α orders).run choices start = some (actions, state))
    (more : capacity.toNat < (Fifo.accepted actions).length) :
    ∃ index, state.memory.raced (.slot index) = true := by
  obtain ⟨⟨k, power⟩, _⟩ := weakRingInit_settled init
  obtain ⟨q, after, holds, races⟩ := weak_run init
    (fun counts races move => RacesWriting.move power races loses counts move)
    (fun cell => ⟨Unheard.initial orders .tail cell, fun n below => absurd below (Nat.not_lt_zero n)⟩) ran
  rw [← after.items] at more
  exact ⟨_, races.raced capacity.toNat (Nat.lt_of_lt_of_le more holds.counts.pushed_le) (Nat.le_refl _)⟩

/-- What the delayed queue can do, the ring can show, whatever the orders. -/
theorem weak_shows (orders : RingOrders) (init : weakRingInit slots capacity = some start)
    (trace : Machine.Trace (Fifo.Delayed.Next capacity.toNat) {} actions q) :
    ∃ choices state, (weakMachine α orders).run choices start = some (actions, state) := by
  obtain ⟨⟨k, power⟩, settled, _⟩ := weakRingInit_settled init
  obtain ⟨choices, state, ran, _⟩ := trace.realised settled (weak_realises orders power)
  exact ⟨choices, state, ran⟩

/-- Any number of items can pass through the ring, whatever the orders. -/
private theorem weak_passes (orders : RingOrders) (init : weakRingInit slots capacity = some start)
    (item : α)
    (n : Nat) : ∃ choices actions state,
      (weakMachine α orders).run choices start = some (actions, state) ∧
      (Fifo.accepted actions).length = n ∧ (Fifo.returned actions).length = n := by
  obtain ⟨⟨k, power⟩, _⟩ := weakRingInit_settled init
  have room : 0 < capacity.toNat := power ▸ Nat.two_pow_pos k
  obtain ⟨actions, q, trace, accepted, returned⟩ := Fifo.Delayed.passes capacity.toNat room item n
  obtain ⟨choices, state, ran⟩ := weak_shows orders init trace
  exact ⟨choices, actions, state, ran, accepted, returned⟩

private theorem synchronise_iff (orders : RingOrders) :
    orders.Synchronise ↔ ¬orders.Loses .head ∧ ¬orders.Loses .tail := by
  simp only [RingOrders.Loses, not_not]
  constructor
  · intro synchronise
    exact ⟨⟨synchronise.storing .head, synchronise.loading .consumer⟩, synchronise.storing .tail,
      synchronise.loading .producer⟩
  · rintro ⟨⟨pushStore, popHead⟩, popStore, pushTail⟩
    constructor
    · rintro (_ | _)
      · exact pushTail
      · exact popHead
    · rintro (_ | _)
      · exact pushStore
      · exact popStore

end Needed

/-- What callers may rely on after a run that has shown `actions`. -/
structure ActsAsDelayed (capacity : UInt64) (actions : List (Fifo.Action α)) (state : WeakState α) :
    Prop where
  /-- Items come out in the order in which they went in. -/
  in_order : Fifo.returned actions <+: Fifo.accepted actions
  bounded : (Fifo.unread actions).length ≤ capacity.toNat
  /-- Whoever accessed a slot had seen all conflicting accesses before. -/
  unraced : ∀ index, state.memory.raced (.slot index) = false

/-- **The ring is a delayed queue**, no more and no less: under the memory orders that it
asks for, its calls show what the delayed queue can do. -/
theorem weak_ring_is_delayed_queue [DecidableEq α] {slots : UInt64 → Option α} {capacity : UInt64}
    {start : WeakState α} (init : weakRingInit slots capacity = some start) :
    (∀ choices actions state, (weakMachine α spscOrders).run choices start = some (actions, state) →
      ActsAsDelayed capacity actions state) ∧
    ∀ actions, (∃ choices state, (weakMachine α spscOrders).run choices start = some (actions, state)) ↔
      ∃ q, Machine.Trace (Fifo.Delayed.Next capacity.toNat) {} actions q := by
  obtain ⟨⟨k, power⟩, ⟨holds, _⟩, _⟩ := weakRingInit_settled init
  have simulates := weak_simulates (α := α) spscOrders power
  constructor
  · intro choices actions state ran
    obtain ⟨q, trace, _⟩ := simulates.trace holds ran
    have after := (Fifo.Delayed.After.start capacity.toNat).trace trace
    rw [List.nil_append] at after
    refine ⟨?_, ?_, slots_unraced spscOrders_synchronise init ran⟩
    · rw [after.in_order, ← after.items]
      exact List.take_prefix _ _
    · rw [Fifo.unread, List.length_drop, ← after.items, ← after.taken]
      have bounded := after.bounded
      have heard := after.heardTaken
      omega
  · intro actions
    constructor
    · rintro ⟨choices, state, ran⟩
      obtain ⟨q, trace, _⟩ := simulates.trace holds ran
      exact ⟨q, trace⟩
    · rintro ⟨q, trace⟩
      exact weak_shows spscOrders init trace

/-- A ring of two slots, as the source initialises it. -/
theorem weak_ring_is_delayed_queue_two : ∃ start : WeakState Nat,
    weakRingInit (fun _ => none) 2 = some start ∧
    (∀ choices actions state, (weakMachine Nat spscOrders).run choices start = some (actions, state) →
      ActsAsDelayed 2 actions state) ∧
    ∀ actions, (∃ choices state, (weakMachine Nat spscOrders).run choices start = some (actions, state)) ↔
      ∃ q, Machine.Trace (Fifo.Delayed.Next 2) {} actions q :=
  ⟨_, rfl, weak_ring_is_delayed_queue rfl⟩

/-- **The four orders are what keeps the ring free of races.** With them no run races on a
slot. Without the pair of `head` every run that returns an item does, and without the pair
of `tail` every run that uses a slot again. -/
theorem ring_orders_needed [DecidableEq α] {slots : UInt64 → Option α} {capacity : UInt64}
    {start : WeakState α} (init : weakRingInit slots capacity = some start) (item : α)
    (orders : RingOrders) :
    (orders.Synchronise ↔ ∀ choices actions state,
      (weakMachine α orders).run choices start = some (actions, state) →
        ∀ index, state.memory.raced (.slot index) = false) ∧
    (orders.Loses .head → ∀ choices actions state,
      (weakMachine α orders).run choices start = some (actions, state) →
        Fifo.returned actions ≠ [] → ∃ index, state.memory.raced (.slot index) = true) ∧
    (orders.Loses .tail → ∀ choices actions state,
      (weakMachine α orders).run choices start = some (actions, state) →
        capacity.toNat < (Fifo.accepted actions).length →
        ∃ index, state.memory.raced (.slot index) = true) := by
  refine ⟨⟨fun synchronise choices actions state ran index => slots_unraced synchronise init ran index,
    fun unraced => ?_⟩, fun loses choices actions state ran some_returned =>
      reading_races loses init ran some_returned, fun loses choices actions state ran more =>
      writing_races loses init ran more⟩
  -- one item more than there are slots is enough to see a race on either side
  obtain ⟨choices, actions, state, ran, accepted, returned⟩ :=
    weak_passes orders init item (capacity.toNat + 1)
  have clean := unraced choices actions state ran
  refine (synchronise_iff orders).mpr ⟨fun loses => ?_, fun loses => ?_⟩
  · obtain ⟨index, raced⟩ := reading_races loses init ran (fun none => by simp [none] at returned)
    simp [clean] at raced
  · obtain ⟨index, raced⟩ := writing_races loses init ran (by omega)
    simp [clean] at raced

/-- A ring of two slots is free of races with the orders of the source, and some run races once
one of them is relaxed. -/
theorem ring_orders_needed_two : ∃ start : WeakState Nat, weakRingInit (fun _ => none) 2 = some start ∧
    (∀ choices actions state, (weakMachine Nat spscOrders).run choices start = some (actions, state) →
      ∀ index, state.memory.raced (.slot index) = false) ∧
    ∃ choices actions state,
      (weakMachine Nat { spscOrders with popHead := .relaxed }).run choices start =
        some (actions, state) ∧ ∃ index, state.memory.raced (.slot index) = true := by
  have init : weakRingInit (fun _ => (none : Option Nat)) 2 = some _ := rfl
  have loses : RingOrders.Loses { spscOrders with popHead := .relaxed } .head := by
    simp [RingOrders.Loses, RingOrders.loading, RingCounter.reader]
  obtain ⟨choices, actions, state, ran, _, returned⟩ :=
    weak_passes { spscOrders with popHead := .relaxed } init 7 1
  refine ⟨_, init, (ring_orders_needed init 7 spscOrders).1.mp spscOrders_synchronise, choices, actions,
    state, ran, (ring_orders_needed init 7 _).2.1 loses choices actions state ran ?_⟩
  intro none
  simp [none] at returned

end H2oTpcc

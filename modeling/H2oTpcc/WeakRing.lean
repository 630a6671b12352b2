import Mathlib.Data.Finset.Insert
import H2oTpcc.DelayedFifo
import H2oTpcc.ReleaseAcquire
import H2oTpcc.SpscRing

/-! The ring buffer of `spsc_ring.c` under the memory orders that it asks for. A load of
the other thread's counter may take an old value, so that the ring is less than the queue
that it is when every access takes effect at once. The memory that an item points to is
part of the model, since handing it over is what the ring is for. -/
namespace H2oTpcc
open ReleaseAcquire (MemoryOrder)

inductive RingThread where
  | producer
  | consumer
  deriving DecidableEq

instance : Fintype RingThread where
  elems := {.producer, .consumer}
  complete thread := by cases thread <;> simp

inductive RingCounter where
  | head
  | tail
  deriving DecidableEq

/-- Who stores the counter. -/
def RingCounter.owner : RingCounter → RingThread
  | head => .producer
  | tail => .consumer

/-- What is accessed without synchronisation: the slots, and what an item points to. -/
inductive RingCell (α : Type) where
  | slot (index : UInt64)
  | item (pointer : α)
  deriving DecidableEq

/-- The memory orders of the loads and stores of `spsc_ring_push` and `spsc_ring_pop`. -/
structure RingOrders where
  pushHead : MemoryOrder
  pushTail : MemoryOrder
  pushStore : MemoryOrder
  popTail : MemoryOrder
  popHead : MemoryOrder
  popStore : MemoryOrder

/-- The order of the thread's load of the other thread's counter. -/
def RingOrders.loading (orders : RingOrders) : RingThread → MemoryOrder
  | .producer => orders.pushTail
  | .consumer => orders.popHead

def RingOrders.storing (orders : RingOrders) : RingCounter → MemoryOrder
  | .head => orders.pushStore
  | .tail => orders.popStore

def spscOrders : RingOrders where
  pushHead := .relaxed
  pushTail := .acquire
  pushStore := .release
  popTail := .relaxed
  popHead := .acquire
  popStore := .release

abbrev RingMessage := ReleaseAcquire.Message RingThread RingCounter UInt64

/-- The memory that the two threads share. -/
abbrev RingMemory (α : Type) :=
  ReleaseAcquire.Memory RingThread RingCounter UInt64 (RingCell α) (Option α)

structure WeakState (α : Type) where
  memory : RingMemory α
  mask : UInt64
  producer : Producer α := .idle
  consumer : Consumer α := .idle

/-- `spsc_ring_init`, done before there are two threads. -/
def weakRingInit (slots : UInt64 → Option α) (capacity : UInt64) : Option (WeakState α) :=
  (spscRingInit slots capacity).map fun ring =>
    { memory := .initial
        (fun
          | .head => ring.head
          | .tail => ring.tail)
        (fun
          | .slot index => ring.slots index
          | .item _ => none)
      mask := ring.mask }

section Machine
variable [DecidableEq α]

/-- The next access of `spsc_ring_push`; a load takes the message at `i`. -/
def weakRingPush (orders : RingOrders) (i : Nat) (state : WeakState α) :
    Option (WeakState α × Option (Fifo.Action α)) :=
  match state.producer with
  | .idle => none
  | .called item => do
    let (head, memory) ← state.memory.load .producer .head orders.pushHead i
    return ({ state with memory, producer := .loadedHead item head }, none)
  | .loadedHead item head => do
    let (tail, memory) ← state.memory.load .producer .tail orders.pushTail i
    if head - tail ≥ state.mask + 1 then
      return ({ state with memory, producer := .idle }, some (.push item false))
    else return ({ state with memory, producer := .room item head }, none)
  | .room item head =>
    let memory := state.memory.write .producer (.slot (head &&& state.mask)) (some item)
    some ({ state with memory, producer := .written item head }, none)
  | .written item head =>
    let memory := state.memory.store .producer .head orders.pushStore (head + 1)
    some ({ state with memory, producer := .idle }, some (.push item true))

/-- The next access of `spsc_ring_pop`; a load takes the message at `i`. -/
def weakRingPop (orders : RingOrders) (i : Nat) (state : WeakState α) :
    Option (WeakState α × Option (Fifo.Action α)) :=
  match state.consumer with
  | .idle => none
  | .called => do
    let (tail, memory) ← state.memory.load .consumer .tail orders.popTail i
    return ({ state with memory, consumer := .loadedTail tail }, none)
  | .loadedTail tail => do
    let (head, memory) ← state.memory.load .consumer .head orders.popHead i
    if tail = head then return ({ state with memory, consumer := .idle }, some (.pop none))
    else return ({ state with memory, consumer := .ready tail }, none)
  | .ready tail =>
    let (item, memory) := state.memory.read .consumer (.slot (tail &&& state.mask))
    some ({ state with memory, consumer := .read tail item }, none)
  | .read tail item =>
    let memory := state.memory.store .consumer .tail orders.popStore (tail + 1)
    some ({ state with memory, consumer := .idle }, some (.pop item))

inductive WeakChoice (α : Type) where
  | push (item : α)
  | pop
  /-- The thread goes on; if with a load, it takes the message at `i`. -/
  | producer (i : Nat)
  | consumer (i : Nat)
  /-- Outside of the ring's functions, the thread writes to what the item points to. -/
  | touch (thread : RingThread) (item : α)

/-- The item whose memory is accessed, and by whom. -/
def WeakChoice.touched : WeakChoice α → Option (RingThread × α)
  | touch thread item => some (thread, item)
  | _ => none

/-- Whether the thread is outside of the ring's functions. -/
def WeakState.free (state : WeakState α) : RingThread → Bool
  | .producer => match state.producer with
    | .idle => true
    | _ => false
  | .consumer => match state.consumer with
    | .idle => true
    | _ => false

def weakStep (orders : RingOrders) :
    WeakChoice α → WeakState α → Option (WeakState α × Option (Fifo.Action α))
  | .push item, state =>
    if state.free .producer then some ({ state with producer := .called item }, none) else none
  | .pop, state =>
    if state.free .consumer then some ({ state with consumer := .called }, none) else none
  | .producer i, state => weakRingPush orders i state
  | .consumer i, state => weakRingPop orders i state
  | .touch thread item, state =>
    if state.free thread then
      some ({ state with memory := state.memory.write thread (.item item) none }, none)
    else none

def weakMachine (α : Type) [DecidableEq α] (orders : RingOrders) :
    Machine (WeakState α) (WeakChoice α) (Fifo.Action α) where
  step := weakStep orders

end Machine

/-! ## Slots and counters by their number -/

section Counters
variable {capacity : UInt64} {k : Nat}

/-- The slot of the item with this number, counted from the first. -/
def slotOf (capacity : UInt64) (n : Nat) : UInt64 :=
  UInt64.ofNat n &&& (capacity - 1)

/-- Items less than one capacity apart are in different slots. -/
theorem slotOf_ne (power : capacity.toNat = 2 ^ k) (before : m < n) (near : n < m + capacity.toNat) :
    slotOf capacity m ≠ slotOf capacity n := by
  intro same
  have here : UInt64.ofNat m + UInt64.ofNat 0 = UInt64.ofNat m := UInt64.add_zero _
  have there : UInt64.ofNat m + UInt64.ofNat (n - m) = UInt64.ofNat n := by
    rw [← UInt64.ofNat_add, Nat.add_sub_cancel' (Nat.le_of_lt before)]
  have apart : 0 = n - m := by
    apply slot_injective power (by omega) (by omega)
    rw [here, there]
    exact same
  omega

/-- A slot is used again after a capacity, and not before. -/
theorem slotOf_again (power : capacity.toNat = 2 ^ k) (n : Nat) :
    slotOf capacity (n + capacity.toNat) = slotOf capacity n := by
  apply UInt64.toNat_inj.mp
  have place (m : Nat) : (slotOf capacity m).toNat = m % 2 ^ k := by
    have zero := toNat_add_mod power 0 m
    rw [UInt64.zero_add, UInt64.toNat_zero, Nat.zero_add] at zero
    rw [slotOf, toNat_and_mask power, zero]
  rw [place, place, power, Nat.add_mod_right]

private theorem ofNat_sub_toNat (le : m ≤ n) (near : n ≤ m + capacity.toNat) :
    (UInt64.ofNat n - UInt64.ofNat m).toNat = n - m := by
  have there : UInt64.ofNat n = UInt64.ofNat m + UInt64.ofNat (n - m) := by
    rw [← UInt64.ofNat_add, Nat.add_sub_cancel' le]
  have size : n - m ≤ capacity.toNat := by omega
  rw [there]
  exact distance _ size

/-- `head - tail >= mask + 1`, of counters that are at most a capacity apart. -/
theorem full_test (le : m ≤ n) (near : n ≤ m + capacity.toNat) :
    UInt64.ofNat n - UInt64.ofNat m ≥ capacity - 1 + 1 ↔ n = m + capacity.toNat := by
  have same : capacity - 1 + 1 = capacity := by grind
  rw [same, ge_iff_le, UInt64.le_iff_toNat_le, ofNat_sub_toNat le near]
  omega

/-- `tail == head`, of counters that are at most a capacity apart. -/
private theorem empty_test (le : m ≤ n) (near : n ≤ m + capacity.toNat) :
    UInt64.ofNat m = UInt64.ofNat n ↔ m = n := by
  constructor
  · intro same
    have size := ofNat_sub_toNat le near
    rw [same] at size
    simp at size
    omega
  · rintro rfl
    rfl

end Counters

/-! ## What a step does to the memory -/

/-- How far the threads are: the items pushed and the slots written for them, the items
popped and the slots read for them. -/
structure RingProgress where
  pushed : Nat := 0
  written : Nat := 0
  popped : Nat := 0
  read : Nat := 0

/-- How often the counter has been stored. -/
def RingProgress.stored (progress : RingProgress) : RingCounter → Nat
  | .head => progress.pushed
  | .tail => progress.popped

/-- The accesses that the two functions make, as far as the counters allow them, and
those that a caller makes to an item. -/
inductive RingMove [DecidableEq α] (orders : RingOrders) (capacity : UInt64) :
    Option (RingThread × α) → RingProgress → RingMemory α → RingProgress → RingMemory α → Prop where
  | stay : RingMove orders capacity none progress memory progress memory
  | load (loaded : memory.load thread counter order i = some (value, memory'))
      (foreign : counter.owner ≠ thread → order = orders.loading thread) :
      RingMove orders capacity none progress memory progress memory'
  | write (item : α) (about : progress.written = progress.pushed)
      (room : progress.pushed < memory.view .producer (.inr .tail) + capacity.toNat) :
      RingMove orders capacity none progress memory { progress with written := progress.pushed + 1 }
        (memory.write .producer (.slot (slotOf capacity progress.pushed)) (some item))
  | read (about : progress.read = progress.popped)
      (unread : progress.popped < memory.view .consumer (.inr .head)) :
      RingMove orders capacity none progress memory { progress with read := progress.popped + 1 }
        (memory.read .consumer (.slot (slotOf capacity progress.popped))).2
  | publish (done : progress.written = progress.pushed + 1)
      (room : progress.pushed < memory.view .producer (.inr .tail) + capacity.toNat) :
      RingMove orders capacity none progress memory { progress with pushed := progress.pushed + 1 }
        (memory.store .producer .head orders.pushStore (.ofNat (progress.pushed + 1)))
  | giveBack (done : progress.read = progress.popped + 1)
      (unread : progress.popped < memory.view .consumer (.inr .head)) :
      RingMove orders capacity none progress memory { progress with popped := progress.popped + 1 }
        (memory.store .consumer .tail orders.popStore (.ofNat (progress.popped + 1)))
  | touch (thread : RingThread) (item : α) :
      RingMove orders capacity (some (thread, item)) progress memory progress
        (memory.write thread (.item item) none)

/-- What holds whatever the orders: the messages of a counter number the items, and a
thread is never ahead of what it has seen of the other. -/
structure Counts (capacity : UInt64) (progress : RingProgress) (memory : RingMemory α) : Prop where
  coherent : memory.Coherent RingCounter.owner
  values : ∀ {counter : RingCounter} {i : Nat} {message : RingMessage},
    (memory.messages counter)[i]? = some message → message.value = .ofNat i
  stored : ∀ counter, (memory.messages counter).length = progress.stored counter + 1
  ahead : progress.popped ≤ memory.view .consumer (.inr .head)
  room : progress.pushed ≤ memory.view .producer (.inr .tail) + capacity.toNat
  pushed_le : progress.pushed ≤ progress.written
  popped_le : progress.popped ≤ progress.read
  wrote : ∀ n < progress.written, memory.accesses .write (.slot (slotOf capacity n)) .producer ≠ 0
  didRead : ∀ n < progress.read, memory.accesses .read (.slot (slotOf capacity n)) .consumer ≠ 0

namespace Counts
variable {capacity : UInt64} {progress progress' : RingProgress} {memory memory' : RingMemory α}

/-- Before the first access both counters have their initial message, and no slot was accessed. -/
theorem initial (capacity : UInt64) (cell : RingCell α → Option α) :
    Counts capacity {} (.initial (fun _ => 0) cell) where
  coherent := ReleaseAcquire.Memory.coherent_initial ..
  values found := by
    obtain ⟨inside, rfl⟩ := List.getElem?_eq_some_iff.mp found
    simp [ReleaseAcquire.Memory.initial] at inside ⊢
    simp [inside]
  stored counter := by cases counter <;> rfl
  ahead := Nat.zero_le _
  room := Nat.zero_le _
  pushed_le := Nat.zero_le _
  popped_le := Nat.zero_le _
  wrote n below := absurd below (Nat.not_lt_zero n)
  didRead n below := absurd below (Nat.not_lt_zero n)

private theorem view_own (counts : Counts capacity progress memory) (counter : RingCounter) :
    memory.view counter.owner (.inr counter) = progress.stored counter := by
  have own := counts.coherent.own counter
  rw [counts.stored] at own
  exact (Nat.succ.inj own).symm

theorem view_le (counts : Counts capacity progress memory) (thread : RingThread)
    (counter : RingCounter) :
    memory.view thread (.inr counter) ≤ progress.stored counter :=
  counts.view_own counter ▸ counts.coherent.view_le thread counter

/-- A load takes the value with the number of its message, and the thread has then seen the
counter up to there. -/
theorem loaded (counts : Counts capacity progress memory)
    (loaded : memory.load thread counter order i = some (value, memory')) :
    value = .ofNat i ∧ memory'.view thread (.inr counter) = i ∧ i ≤ progress.stored counter := by
  obtain ⟨current, message, found, rfl, rfl⟩ := ReleaseAcquire.Memory.load_cases loaded
  have inside := (List.getElem?_eq_some_iff.mp found).1
  rw [counts.stored] at inside
  refine ⟨counts.values found, ?_, Nat.le_of_lt_succ inside⟩
  simpa using counts.coherent.seeing_here found thread order

/-- Every count that a thread has not passed can be loaded, and shows itself as the value. -/
theorem load_some (counts : Counts capacity progress memory) (thread : RingThread)
    (counter : RingCounter) (order : MemoryOrder) (current : memory.view thread (.inr counter) ≤ i)
    (done : i ≤ progress.stored counter) :
    ∃ memory', memory.load thread counter order i = some (.ofNat i, memory') := by
  have inside : i < (memory.messages counter).length := by
    rw [counts.stored]
    exact Nat.lt_succ_of_le done
  obtain ⟨value, memory', loaded⟩ := ReleaseAcquire.Memory.load_some current inside order
  obtain ⟨rfl, _⟩ := counts.loaded loaded
  exact ⟨memory', loaded⟩

private theorem load_mine (counts : Counts capacity progress memory) (counter : RingCounter)
    (order : MemoryOrder) : memory.load counter.owner counter order (progress.stored counter) =
      some (.ofNat (progress.stored counter), memory) := by
  obtain ⟨memory', loaded⟩ := counts.load_some counter.owner counter order (counts.view_le _ counter)
    (Nat.le_refl _)
  rw [loaded, (counts.coherent.load_own rfl loaded).2]

/-- A store of the thread's own counter, which goes one up. -/
theorem store (counts : Counts capacity progress memory) (counter : RingCounter) (order : MemoryOrder)
    (stored : ∀ c, progress'.stored c = progress.stored c + if c = counter then 1 else 0)
    (ahead : progress'.popped ≤ memory.view .consumer (.inr .head))
    (room : progress'.pushed ≤ memory.view .producer (.inr .tail) + capacity.toNat)
    (pushed_le : progress'.pushed ≤ progress'.written) (popped_le : progress'.popped ≤ progress'.read)
    (written : progress'.written = progress.written) (read : progress'.read = progress.read) :
    Counts capacity progress' (memory.store counter.owner counter order
      (.ofNat (progress.stored counter + 1))) := by
  have grown := ReleaseAcquire.Memory.le_store_view (counts.coherent.own counter) order
    (UInt64.ofNat (progress.stored counter + 1))
  exact {
    coherent := counts.coherent.store rfl order _
    values := fun found => by
      rcases ReleaseAcquire.Memory.getElem?_store found with old | ⟨rfl, rfl, value, _⟩
      · exact counts.values old
      · rw [value, counts.stored]
    stored := fun c => by
      rw [stored]
      by_cases here : c = counter
      · subst here
        simp [ReleaseAcquire.Memory.store, counts.stored]
      · simp [ReleaseAcquire.Memory.store, counts.stored, here]
    ahead := Nat.le_trans ahead (grown .consumer (.inr .head))
    room := Nat.le_trans room (Nat.add_le_add_right (grown .producer (.inr .tail)) _)
    pushed_le
    popped_le
    wrote := written ▸ counts.wrote
    didRead := read ▸ counts.didRead }

variable [DecidableEq α]

theorem access (counts : Counts capacity progress memory) (kind : ReleaseAcquire.Access)
    (thread : RingThread) (x : RingCell α) (cell : RingCell α → Option α)
    (stored : progress'.stored = progress.stored)
    (pushed_le : progress'.pushed ≤ progress'.written) (popped_le : progress'.popped ≤ progress'.read)
    (wrote : ∀ n < progress'.written, n < progress.written ∨
      (kind, thread, x) = (.write, .producer, .slot (slotOf capacity n)))
    (didRead : ∀ n < progress'.read, n < progress.read ∨
      (kind, thread, x) = (.read, .consumer, .slot (slotOf capacity n))) :
    Counts capacity progress' { memory.access kind thread x with cell } := by
  have coherent := counts.coherent.access kind thread x
  have popped : progress'.popped = progress.popped := congrFun stored .tail
  have pushed : progress'.pushed = progress.pushed := congrFun stored .head
  have made := ReleaseAcquire.Memory.accesses_access memory kind thread x
  exact {
    coherent := ⟨coherent.seen, coherent.told, coherent.place, coherent.made, coherent.own⟩
    values := counts.values
    stored := fun counter => stored.symm ▸ counts.stored counter
    ahead := by simpa [popped] using counts.ahead
    room := by simpa [pushed] using counts.room
    pushed_le
    popped_le
    wrote := fun n below => by
      rcases wrote n below with before | same
      · exact made.2 (counts.wrote n before)
      · cases same
        exact made.1
    didRead := fun n below => by
      rcases didRead n below with before | same
      · exact made.2 (counts.didRead n before)
      · cases same
        exact made.1 }

/-- Every access that the two functions make keeps the counts, whatever the orders are. -/
theorem move (counts : Counts capacity progress memory)
    (move : RingMove orders capacity touched progress memory progress' memory') :
    Counts capacity progress' memory' := by
  cases move with
  | stay => exact counts
  | load loaded foreign =>
    have coherent := counts.coherent.load loaded
    have grown := ReleaseAcquire.Memory.le_load_view loaded
    obtain ⟨_, _, _, _, rfl⟩ := ReleaseAcquire.Memory.load_cases loaded
    exact { counts with
      coherent
      ahead := Nat.le_trans counts.ahead (grown .consumer (.inr .head))
      room := Nat.le_trans counts.room (Nat.add_le_add_right (grown .producer (.inr .tail)) _) }
  | write item about room =>
    refine counts.access .write .producer _ _ ?_ (Nat.le_succ _) counts.popped_le (fun n below => ?_)
      (fun n below => .inl below)
    · funext counter
      cases counter <;> rfl
    · rcases Nat.lt_succ_iff_lt_or_eq.mp below with before | rfl
      · exact .inl (about ▸ before)
      · exact .inr rfl
  | read about unread =>
    refine counts.access .read .consumer _ _ ?_ counts.pushed_le (Nat.le_succ _)
      (fun n below => .inl below) (fun n below => ?_)
    · funext counter
      cases counter <;> rfl
    · rcases Nat.lt_succ_iff_lt_or_eq.mp below with before | rfl
      · exact .inl (about ▸ before)
      · exact .inr rfl
  | publish done room =>
    refine counts.store .head orders.pushStore (fun c => ?_) counts.ahead (Nat.succ_le_of_lt room)
      (Nat.le_of_eq done.symm) counts.popped_le rfl rfl
    cases c <;> rfl
  | giveBack done unread =>
    refine counts.store .tail orders.popStore (fun c => ?_) (Nat.succ_le_of_lt unread) counts.room
      counts.pushed_le (Nat.le_of_eq done.symm) rfl rfl
    cases c <;> rfl
  | touch thread item =>
    exact counts.access .write thread _ _ rfl counts.pushed_le counts.popped_le
      (fun n below => .inl below) (fun n below => .inl below)

end Counts

/-! ## The ring is a delayed queue -/

/-- The slots written and not yet published. -/
def Producer.unpublished : Producer α → Nat
  | written _ _ => 1
  | _ => 0

/-- The slots read and not yet given back. -/
def Consumer.unreturned : Consumer α → Nat
  | read _ _ => 1
  | _ => 0

/-- How far the threads are when these items have been accepted. -/
def WeakState.progress (state : WeakState α) (q : Fifo.Delayed α) : RingProgress where
  pushed := q.items.length
  written := q.items.length + state.producer.unpublished
  popped := q.taken
  read := q.taken + state.consumer.unreturned

/-- What the producer knows: its copy of `head` is current, and the room it has seen
cannot go away. -/
def Producer.Sees (capacity : UInt64) (memory : RingMemory α) (pushed : Nat) : Producer α → Prop
  | idle | called _ => True
  | loadedHead _ head => head = .ofNat pushed
  | room _ head => head = .ofNat pushed ∧
    pushed < memory.view .producer (.inr .tail) + capacity.toNat
  | written item head => head = .ofNat pushed ∧
    pushed < memory.view .producer (.inr .tail) + capacity.toNat ∧
    memory.cell (.slot (slotOf capacity pushed)) = some item

/-- What the consumer knows: its copy of `tail` is current, and the item it has seen
stays. -/
def Consumer.Sees (memory : RingMemory α) (q : Fifo.Delayed α) : Consumer α → Prop
  | idle | called => True
  | loadedTail tail => tail = .ofNat q.taken
  | ready tail => tail = .ofNat q.taken ∧ q.taken < memory.view .consumer (.inr .head)
  | read tail item => tail = .ofNat q.taken ∧ q.taken < memory.view .consumer (.inr .head) ∧
    item = q.items[q.taken]?

/-- The ring holds the queue, and each thread has heard at least what the queue says. -/
structure WeakHolds (capacity : UInt64) (state : WeakState α) (q : Fifo.Delayed α) : Prop where
  mask : state.mask = capacity - 1
  counts : Counts capacity (state.progress q) state.memory
  heardTaken : q.heardTaken ≤ state.memory.view .producer (.inr .tail)
  heardItems : q.heardItems ≤ state.memory.view .consumer (.inr .head)
  held : ∀ n, q.taken ≤ n → n < q.items.length →
    state.memory.cell (.slot (slotOf capacity n)) = q.items[n]?
  producer : state.producer.Sees capacity state.memory q.items.length
  consumer : state.consumer.Sees state.memory q

namespace WeakHolds
variable {capacity : UInt64} {state : WeakState α} {q : Fifo.Delayed α}

theorem head_seen (holds : WeakHolds capacity state q) :
    state.memory.view .consumer (.inr .head) ≤ q.items.length :=
  holds.counts.view_le .consumer .head

theorem tail_seen (holds : WeakHolds capacity state q) :
    state.memory.view .producer (.inr .tail) ≤ q.taken :=
  holds.counts.view_le .producer .tail

private theorem taken_le (holds : WeakHolds capacity state q) : q.taken ≤ q.items.length :=
  Nat.le_trans holds.counts.ahead holds.head_seen

end WeakHolds

/-- What the producer knows stays true while the other thread goes on. -/
theorem Producer.Sees.mono {producer : Producer α} {memory memory' : RingMemory α}
    (sees : producer.Sees capacity memory pushed)
    (grown : memory.view .producer (.inr .tail) ≤ memory'.view .producer (.inr .tail))
    (same : memory'.cell (.slot (slotOf capacity pushed)) = memory.cell (.slot (slotOf capacity pushed))) :
    producer.Sees capacity memory' pushed := by
  cases producer with
  | idle | called _ | loadedHead _ _ => exact sees
  | room item head => exact ⟨sees.1, Nat.lt_of_lt_of_le sees.2 (Nat.add_le_add_right grown _)⟩
  | written item head =>
    exact ⟨sees.1, Nat.lt_of_lt_of_le sees.2.1 (Nat.add_le_add_right grown _), same.trans sees.2.2⟩

/-- What the consumer knows stays true while the producer goes on: items are added behind the
oldest one. -/
theorem Consumer.Sees.mono {consumer : Consumer α} {memory memory' : RingMemory α}
    {q q' : Fifo.Delayed α} (sees : consumer.Sees memory q)
    (grown : memory.view .consumer (.inr .head) ≤ memory'.view .consumer (.inr .head))
    (taken : q'.taken = q.taken) (oldest : ∀ item, q.items[q.taken]? = some item →
      q'.items[q.taken]? = some item) (inside : memory.view .consumer (.inr .head) ≤ q.items.length) :
    consumer.Sees memory' q' := by
  cases consumer with
  | idle | called => trivial
  | loadedTail tail =>
    change tail = UInt64.ofNat q'.taken
    rw [taken]
    exact sees
  | ready tail =>
    refine ⟨taken.symm ▸ sees.1, ?_⟩
    rw [taken]
    exact Nat.lt_of_lt_of_le sees.2 grown
  | read tail item =>
    obtain ⟨same, unread, rfl⟩ := sees
    refine ⟨taken.symm ▸ same, ?_, ?_⟩
    · rw [taken]
      exact Nat.lt_of_lt_of_le unread grown
    · have found := List.getElem?_eq_getElem (Nat.lt_of_lt_of_le unread inside)
      rw [taken, oldest _ found, found]

/-- After a step, the ring holds the same queue or the one that the action leads to. -/
def Shows (capacity : Nat) (q : Fifo.Delayed α) : Option (Fifo.Action α) → Fifo.Delayed α → Prop
  | none, q' => q' = q
  | some action, q' => Fifo.Delayed.Next capacity q action q'

/-- A step that went on from this state with this queue. -/
structure WeakStepped [DecidableEq α] (orders : RingOrders) (capacity : UInt64)
    (touched : Option (RingThread × α)) (state : WeakState α) (q : Fifo.Delayed α)
    (action : Option (Fifo.Action α)) (state' : WeakState α) (q' : Fifo.Delayed α) : Prop where
  shows : Shows capacity.toNat q action q'
  move : RingMove orders capacity touched (state.progress q) state.memory (state'.progress q') state'.memory
  holds : WeakHolds capacity state' q'

section Simulation
variable [DecidableEq α] {capacity : UInt64} {k : Nat} {orders : RingOrders}
  {state state' : WeakState α} {q : Fifo.Delayed α}

/-- A step that loads: the threads have heard more, and one of them knows more. -/
theorem weak_load_step {producer : Producer α} {consumer : Consumer α} {q' : Fifo.Delayed α}
    (holds : WeakHolds capacity state q)
    (loaded : state.memory.load thread counter order i = some (value, memory))
    (foreign : counter.owner ≠ thread → order = orders.loading thread)
    (unpublished : producer.unpublished = state.producer.unpublished)
    (unreturned : consumer.unreturned = state.consumer.unreturned)
    (items : q'.items = q.items) (taken : q'.taken = q.taken)
    (heardTaken : q'.heardTaken ≤ memory.view .producer (.inr .tail))
    (heardItems : q'.heardItems ≤ memory.view .consumer (.inr .head))
    (sees : producer.Sees capacity memory q.items.length) (sees' : consumer.Sees memory q)
    (shows : Shows capacity.toNat q action q') :
    WeakStepped orders capacity none state q action { state with memory, producer, consumer } q' := by
  have same : WeakState.progress { state with memory, producer, consumer } q' = state.progress q := by
    simp [WeakState.progress, items, taken, unpublished, unreturned]
  have move : RingMove orders capacity none (state.progress q) state.memory (state.progress q) memory :=
    .load loaded foreign
  have counts := holds.counts.move move
  refine ⟨shows, same.symm ▸ move, holds.mask, same.symm ▸ counts, heardTaken, heardItems,
    fun n after unread => ?_, ?_, ?_⟩
  · rw [taken] at after
    rw [items] at unread ⊢
    rw [ReleaseAcquire.Memory.load_cell loaded]
    exact holds.held n after unread
  · rw [items]
    exact sees
  · exact sees'.mono (Nat.le_refl _) taken (fun _ found => items ▸ found) (counts.view_le .consumer .head)

/-- A step that writes or reads a cell: nobody has heard more, and the cells that are in use stay. -/
theorem weak_access_step {producer : Producer α} {consumer : Consumer α} {memory : RingMemory α}
    (holds : WeakHolds capacity state q)
    (views : ∀ thread counter, memory.view thread (.inr counter) =
      state.memory.view thread (.inr counter))
    (move : RingMove orders capacity touched (state.progress q) state.memory
      (WeakState.progress { state with memory, producer, consumer } q) memory)
    (cells : ∀ n, q.taken ≤ n → n < q.items.length →
      memory.cell (.slot (slotOf capacity n)) = state.memory.cell (.slot (slotOf capacity n)))
    (sees : producer.Sees capacity memory q.items.length) (sees' : consumer.Sees memory q) :
    WeakStepped orders capacity touched state q none { state with memory, producer, consumer } q := by
  refine ⟨rfl, move, holds.mask, holds.counts.move move, ?_, ?_, fun n after unread => ?_, sees, sees'⟩
  · rw [views]
    exact holds.heardTaken
  · rw [views]
    exact holds.heardItems
  · rw [cells n after unread]
    exact holds.held n after unread

/-- A step that stores a thread's own counter: what was so before the store is enough, since the
threads only hear more by it. -/
theorem weak_store_step {producer : Producer α} {consumer : Consumer α} {q' : Fifo.Delayed α}
    (holds : WeakHolds capacity state q) (counter : RingCounter)
    (move : RingMove orders capacity none (state.progress q) state.memory
      (WeakState.progress { state with producer, consumer } q')
      (state.memory.store counter.owner counter order value))
    (heardTaken : q'.heardTaken ≤ state.memory.view .producer (.inr .tail))
    (heardItems : q'.heardItems ≤ state.memory.view .consumer (.inr .head))
    (held : ∀ n, q'.taken ≤ n → n < q'.items.length →
      state.memory.cell (.slot (slotOf capacity n)) = q'.items[n]?)
    (sees : producer.Sees capacity state.memory q'.items.length)
    (sees' : consumer.Sees state.memory q') (grows : q.items.length ≤ q'.items.length)
    (shows : Shows capacity.toNat q action q') :
    WeakStepped orders capacity none state q action
      { state with memory := state.memory.store counter.owner counter order value, producer, consumer }
      q' := by
  have grown := ReleaseAcquire.Memory.le_store_view (holds.counts.coherent.own counter) order value
  refine ⟨shows, move, holds.mask, holds.counts.move move, ?_, ?_, held, ?_, ?_⟩
  · exact Nat.le_trans heardTaken (grown .producer _)
  · exact Nat.le_trans heardItems (grown .consumer _)
  · exact sees.mono (grown .producer _) rfl
  · exact sees'.mono (grown .consumer _) rfl (fun _ found => found) (Nat.le_trans holds.head_seen grows)

/-! ### A push, access by access -/

private theorem weak_push_called (holds : WeakHolds capacity state q)
    (stage : state.producer = .called item)
    (stepped : weakRingPush orders i state = some (state', action)) :
    ∃ q', WeakStepped orders capacity none state q action state' q' := by
  simp only [weakRingPush, stage, Option.bind_eq_bind, Option.bind_eq_some_iff] at stepped
  obtain ⟨⟨head, memory⟩, loaded, same⟩ := stepped
  cases same
  obtain ⟨rfl, here, _⟩ := holds.counts.loaded loaded
  have counts := holds.counts.move (.load loaded (fun foreign => absurd rfl foreign) : RingMove orders ..)
  have grown := ReleaseAcquire.Memory.le_load_view loaded
  refine ⟨q, weak_load_step holds loaded (fun foreign => absurd rfl foreign)
    (by simp [stage, Producer.unpublished]) rfl rfl rfl
    (Nat.le_trans holds.heardTaken (grown .producer _))
    (Nat.le_trans holds.heardItems (grown .consumer _)) ?_
    (holds.consumer.mono (grown .consumer _) rfl (fun _ found => found) holds.head_seen) rfl⟩
  exact congrArg UInt64.ofNat (here.symm.trans (counts.view_own .head))

/-- The room that the loaded `tail` shows is there, since the consumer only makes more; a full ring
is one as far as the producer has heard. -/
theorem weak_push_loadedHead (holds : WeakHolds capacity state q)
    (stage : state.producer = .loadedHead item head)
    (stepped : weakRingPush orders i state = some (state', action)) :
    ∃ q', WeakStepped orders capacity none state q action state' q' := by
  have sees := holds.producer
  rw [stage] at sees
  obtain rfl := sees
  simp only [weakRingPush, stage, Option.bind_eq_bind, Option.bind_eq_some_iff] at stepped
  obtain ⟨⟨tail, memory⟩, loaded, same⟩ := stepped
  obtain ⟨rfl, here, le⟩ := holds.counts.loaded loaded
  have grown := ReleaseAcquire.Memory.le_load_view loaded
  have room := (holds.counts.move (.load loaded (fun _ => rfl) : RingMove orders ..)).room
  have consumer := holds.consumer.mono (grown .consumer (.inr .head)) rfl (fun _ found => found)
    holds.head_seen
  have heardTaken := Nat.le_trans holds.heardTaken (grown .producer (.inr .tail))
  have heardItems := Nat.le_trans holds.heardItems (grown .consumer (.inr .head))
  rw [here] at room
  simp only [holds.mask, full_test (Nat.le_trans le holds.taken_le) room] at same
  split at same
  · rename_i full
    cases same
    rw [here] at heardTaken
    refine ⟨{ q with heardTaken := i }, ?_⟩
    rw [← holds.mask]
    exact weak_load_step holds loaded (fun _ => rfl) (by simp [stage, Producer.unpublished]) rfl rfl rfl
      (Nat.le_of_eq here.symm) heardItems trivial consumer (.full heardTaken le full)
  · rename_i notFull
    cases same
    refine ⟨q, ?_⟩
    rw [← holds.mask]
    refine weak_load_step holds loaded (fun _ => rfl) (by simp [stage, Producer.unpublished]) rfl rfl rfl
      heardTaken heardItems ⟨rfl, ?_⟩ consumer rfl
    rw [here]
    exact Nat.lt_of_le_of_ne room notFull

/-- The slot that is written is none of those in use: they are fewer than the ring has. -/
theorem weak_push_room (power : capacity.toNat = 2 ^ k) (holds : WeakHolds capacity state q)
    (stage : state.producer = .room item head)
    (stepped : weakRingPush orders i state = some (state', action)) :
    ∃ q', WeakStepped orders capacity none state q action state' q' := by
  have sees := holds.producer
  rw [stage] at sees
  obtain ⟨rfl, room⟩ := sees
  simp only [weakRingPush, stage, Option.some.injEq, Prod.mk.injEq] at stepped
  obtain ⟨rfl, rfl⟩ := stepped
  have slot : UInt64.ofNat q.items.length &&& state.mask = slotOf capacity q.items.length := by
    rw [holds.mask, slotOf]
  have move : RingMove orders capacity none (state.progress q) state.memory
      { state.progress q with written := q.items.length + 1 }
      (state.memory.write .producer (.slot (slotOf capacity q.items.length)) (some item)) :=
    .write item (by simp [WeakState.progress, stage, Producer.unpublished]) room
  rw [slot]
  refine ⟨q, weak_access_step holds (by simp) move (fun n _ unread => ?_)
    ⟨rfl, by simpa using room, Function.update_self ..⟩
    (holds.consumer.mono (by simp) rfl (fun _ found => found) holds.head_seen)⟩
  have apart : slotOf capacity n ≠ slotOf capacity q.items.length := by
    apply slotOf_ne power unread
    have := holds.tail_seen
    omega
  exact ReleaseAcquire.Memory.write_cell_other (by simpa using apart) ..

/-- The store of `head` makes the item one of the queue. -/
private theorem weak_push_written (holds : WeakHolds capacity state q)
    (stage : state.producer = .written item head)
    (stepped : weakRingPush orders i state = some (state', action)) :
    ∃ q', WeakStepped orders capacity none state q action state' q' := by
  have sees := holds.producer
  rw [stage] at sees
  obtain ⟨rfl, room, written⟩ := sees
  simp only [weakRingPush, stage, Option.some.injEq, Prod.mk.injEq] at stepped
  obtain ⟨rfl, rfl⟩ := stepped
  let q' : Fifo.Delayed α := { q with
    items := q.items ++ [item]
    heardTaken := state.memory.view .producer (.inr .tail) }
  have move : RingMove orders capacity none (state.progress q) state.memory
      { state.progress q with pushed := q.items.length + 1 }
      (state.memory.store .producer .head orders.pushStore (.ofNat (q.items.length + 1))) :=
    .publish (by simp [WeakState.progress, stage, Producer.unpublished]) room
  have progress : WeakState.progress { state with producer := .idle } q' =
      { state.progress q with pushed := q.items.length + 1 } := by
    simp [WeakState.progress, q', stage, Producer.unpublished]
  have next : UInt64.ofNat q.items.length + 1 = UInt64.ofNat (q.items.length + 1) :=
    (UInt64.ofNat_add ..).symm
  rw [next]
  refine ⟨q', weak_store_step holds .head (progress ▸ move) (Nat.le_refl _) holds.heardItems
    (fun n after unread => ?_) trivial ?_ (by simp [q'])
    (.push holds.heardTaken holds.tail_seen room)⟩
  · rcases Nat.lt_or_ge n q.items.length with old | new
    · rw [List.getElem?_append_left old]
      exact holds.held n after old
    · obtain rfl : n = q.items.length := by
        simp only [q', List.length_append, List.length_singleton] at unread
        omega
      rw [List.getElem?_concat_length]
      exact written
  · refine holds.consumer.mono (Nat.le_refl _) rfl (fun found present => ?_) holds.head_seen
    rw [List.getElem?_append_left (List.getElem?_eq_some_iff.mp present).1]
    exact present

private theorem weak_push_step (power : capacity.toNat = 2 ^ k) (holds : WeakHolds capacity state q)
    (stepped : weakRingPush orders i state = some (state', action)) :
    ∃ q', WeakStepped orders capacity none state q action state' q' := by
  cases stage : state.producer with
  | idle => simp [weakRingPush, stage] at stepped
  | called item => exact weak_push_called holds stage stepped
  | loadedHead item head => exact weak_push_loadedHead holds stage stepped
  | room item head => exact weak_push_room power holds stage stepped
  | written item head => exact weak_push_written holds stage stepped

/-! ### A pop, access by access -/

private theorem weak_pop_called (holds : WeakHolds capacity state q) (stage : state.consumer = .called)
    (stepped : weakRingPop orders i state = some (state', action)) :
    ∃ q', WeakStepped orders capacity none state q action state' q' := by
  simp only [weakRingPop, stage, Option.bind_eq_bind, Option.bind_eq_some_iff] at stepped
  obtain ⟨⟨tail, memory⟩, loaded, same⟩ := stepped
  cases same
  obtain ⟨rfl, here, _⟩ := holds.counts.loaded loaded
  have counts := holds.counts.move (.load loaded (fun foreign => absurd rfl foreign) : RingMove orders ..)
  have grown := ReleaseAcquire.Memory.le_load_view loaded
  have cells := ReleaseAcquire.Memory.load_cell loaded
  refine ⟨q, weak_load_step holds loaded (fun foreign => absurd rfl foreign) rfl
    (by simp [stage, Consumer.unreturned]) rfl rfl (Nat.le_trans holds.heardTaken (grown .producer _))
    (Nat.le_trans holds.heardItems (grown .consumer _))
    (holds.producer.mono (grown .producer _) (congrFun cells _)) ?_ rfl⟩
  exact congrArg UInt64.ofNat (here.symm.trans (counts.view_own .tail))

/-- The item that the loaded `head` shows is there, since the producer only adds to them; an empty
ring is one as far as the consumer has heard. -/
theorem weak_pop_loadedTail (holds : WeakHolds capacity state q)
    (stage : state.consumer = .loadedTail tail)
    (stepped : weakRingPop orders i state = some (state', action)) :
    ∃ q', WeakStepped orders capacity none state q action state' q' := by
  have sees := holds.consumer
  rw [stage] at sees
  obtain rfl := sees
  simp only [weakRingPop, stage, Option.bind_eq_bind, Option.bind_eq_some_iff] at stepped
  obtain ⟨⟨head, memory⟩, loaded, same⟩ := stepped
  obtain ⟨rfl, here, le⟩ := holds.counts.loaded loaded
  have counts := holds.counts.move (.load loaded (fun _ => rfl) : RingMove orders ..)
  have grown := ReleaseAcquire.Memory.le_load_view loaded
  have cells := ReleaseAcquire.Memory.load_cell loaded
  have producer := holds.producer.mono (grown .producer (.inr .tail)) (congrFun cells _)
  have heardTaken := Nat.le_trans holds.heardTaken (grown .producer (.inr .tail))
  have heardItems := Nat.le_trans holds.heardItems (grown .consumer (.inr .head))
  have ahead : q.taken ≤ i := here ▸ counts.ahead
  have near : i ≤ q.taken + capacity.toNat :=
    Nat.le_trans le (Nat.le_trans holds.counts.room (Nat.add_le_add_right holds.tail_seen _))
  simp only [empty_test ahead near] at same
  split at same
  · rename_i empty
    cases same
    rw [here, ← empty] at heardItems
    refine ⟨{ q with heardItems := q.taken }, weak_load_step holds loaded (fun _ => rfl) rfl
      (by simp [stage, Consumer.unreturned]) rfl rfl heardTaken ?_ producer trivial (.empty heardItems)⟩
    rw [here]
    exact ahead
  · rename_i unread
    cases same
    refine ⟨q, weak_load_step holds loaded (fun _ => rfl) rfl (by simp [stage, Consumer.unreturned])
      rfl rfl heardTaken heardItems producer ⟨rfl, ?_⟩ rfl⟩
    rw [here]
    exact Nat.lt_of_le_of_ne ahead unread

private theorem weak_pop_ready (holds : WeakHolds capacity state q)
    (stage : state.consumer = .ready tail)
    (stepped : weakRingPop orders i state = some (state', action)) :
    ∃ q', WeakStepped orders capacity none state q action state' q' := by
  have sees := holds.consumer
  rw [stage] at sees
  obtain ⟨rfl, unread⟩ := sees
  simp only [weakRingPop, stage, Option.some.injEq, Prod.mk.injEq] at stepped
  obtain ⟨rfl, rfl⟩ := stepped
  have slot : UInt64.ofNat q.taken &&& state.mask = slotOf capacity q.taken := by
    rw [holds.mask, slotOf]
  have move : RingMove orders capacity none (state.progress q) state.memory
      { state.progress q with read := q.taken + 1 }
      (state.memory.read .consumer (.slot (slotOf capacity q.taken))).2 :=
    .read (by simp [WeakState.progress, stage, Consumer.unreturned]) unread
  rw [slot]
  refine ⟨q, weak_access_step holds (by simp [ReleaseAcquire.Memory.read]) move (fun _ _ _ => rfl)
    (holds.producer.mono (by simp [ReleaseAcquire.Memory.read]) rfl) ⟨rfl, ?_, ?_⟩⟩
  · simpa [ReleaseAcquire.Memory.read] using unread
  · exact holds.held _ (Nat.le_refl _) (Nat.lt_of_lt_of_le unread holds.head_seen)

/-- The store of `tail` gives the slot of the oldest item back. -/
private theorem weak_pop_read (holds : WeakHolds capacity state q)
    (stage : state.consumer = .read tail item)
    (stepped : weakRingPop orders i state = some (state', action)) :
    ∃ q', WeakStepped orders capacity none state q action state' q' := by
  have sees := holds.consumer
  rw [stage] at sees
  obtain ⟨rfl, unread, oldest⟩ := sees
  simp only [weakRingPop, stage, Option.some.injEq, Prod.mk.injEq] at stepped
  obtain ⟨rfl, rfl⟩ := stepped
  let q' : Fifo.Delayed α := { q with
    taken := q.taken + 1
    heardItems := state.memory.view .consumer (.inr .head) }
  have move : RingMove orders capacity none (state.progress q) state.memory
      { state.progress q with popped := q.taken + 1 }
      (state.memory.store .consumer .tail orders.popStore (.ofNat (q.taken + 1))) :=
    .giveBack (by simp [WeakState.progress, stage, Consumer.unreturned]) unread
  have progress : WeakState.progress { state with consumer := .idle } q' =
      { state.progress q with popped := q.taken + 1 } := by
    simp [WeakState.progress, q', stage, Consumer.unreturned]
  have next : UInt64.ofNat q.taken + 1 = UInt64.ofNat (q.taken + 1) := (UInt64.ofNat_add ..).symm
  have found := List.getElem?_eq_getElem (Nat.lt_of_lt_of_le unread holds.head_seen)
  rw [found] at oldest
  subst oldest
  rw [next]
  exact ⟨q', weak_store_step holds .tail (progress ▸ move) holds.heardTaken (Nat.le_refl _)
    (fun n after unread => holds.held n (Nat.le_of_succ_le after) unread) holds.producer trivial
    (Nat.le_refl _) (.pop holds.heardItems holds.head_seen unread found)⟩

private theorem weak_pop_step (holds : WeakHolds capacity state q)
    (stepped : weakRingPop orders i state = some (state', action)) :
    ∃ q', WeakStepped orders capacity none state q action state' q' := by
  cases stage : state.consumer with
  | idle => simp [weakRingPop, stage] at stepped
  | called => exact weak_pop_called holds stage stepped
  | loadedTail tail => exact weak_pop_loadedTail holds stage stepped
  | ready tail => exact weak_pop_ready holds stage stepped
  | read tail item => exact weak_pop_read holds stage stepped

/-! ### Every step -/

private theorem weakStep_push (stepped : weakStep orders (.push item) state = some (state', action)) :
    state.free .producer = true ∧ state' = { state with producer := .called item } ∧ action = none := by
  simp only [weakStep] at stepped
  split at stepped <;> cases stepped
  exact ⟨‹_›, rfl, rfl⟩

private theorem weakStep_pop (stepped : weakStep orders .pop state = some (state', action)) :
    state.free .consumer = true ∧ state' = { state with consumer := .called } ∧ action = none := by
  simp only [weakStep] at stepped
  split at stepped <;> cases stepped
  exact ⟨‹_›, rfl, rfl⟩

private theorem weakStep_touch
    (stepped : weakStep orders (.touch thread item) state = some (state', action)) :
    state.free thread = true ∧
      state' = { state with memory := state.memory.write thread (.item item) none } ∧ action = none := by
  simp only [weakStep] at stepped
  split at stepped <;> cases stepped
  exact ⟨‹_›, rfl, rfl⟩

/-- Every step is one of the delayed queue, and accesses the memory as the counters allow. -/
theorem weak_step (power : capacity.toNat = 2 ^ k) (holds : WeakHolds capacity state q)
    (stepped : weakStep orders choice state = some (state', action)) :
    ∃ q', WeakStepped orders capacity choice.touched state q action state' q' := by
  cases choice with
  | push item =>
    obtain ⟨free, rfl, rfl⟩ := weakStep_push stepped
    have same : WeakState.progress { state with producer := .called item } q = state.progress q := by
      unfold WeakState.free at free
      cases stage : state.producer <;> simp_all [WeakState.progress, Producer.unpublished]
    exact ⟨q, rfl, same.symm ▸ .stay,
      { holds with counts := same.symm ▸ holds.counts, producer := trivial }⟩
  | pop =>
    obtain ⟨free, rfl, rfl⟩ := weakStep_pop stepped
    have same : WeakState.progress { state with consumer := .called } q = state.progress q := by
      unfold WeakState.free at free
      cases stage : state.consumer <;> simp_all [WeakState.progress, Consumer.unreturned]
    exact ⟨q, rfl, same.symm ▸ .stay,
      { holds with counts := same.symm ▸ holds.counts, consumer := trivial }⟩
  | producer i => exact weak_push_step power holds stepped
  | consumer i => exact weak_pop_step holds stepped
  | touch thread item =>
    obtain ⟨_, rfl, rfl⟩ := weakStep_touch stepped
    have move : RingMove orders capacity (some (thread, item)) (state.progress q) state.memory
        (state.progress q) (state.memory.write thread (.item item) none) := .touch thread item
    have cells (index : UInt64) : (state.memory.write thread (.item item) none).cell (.slot index) =
        state.memory.cell (.slot index) := ReleaseAcquire.Memory.write_cell_other (by simp) ..
    exact ⟨q, weak_access_step holds (by simp) move (fun _ _ _ => cells _)
      (holds.producer.mono (by simp) (cells _))
      (holds.consumer.mono (by simp) rfl (fun _ found => found) holds.head_seen)⟩

/-- The ring holds the queue, and this about the threads' progress and the memory. -/
def Keeping (J : RingProgress → RingMemory α → Prop) (capacity : UInt64) (state : WeakState α)
    (q : Fifo.Delayed α) : Prop :=
  WeakHolds capacity state q ∧ J (state.progress q) state.memory

/-- What every access keeps, the steps of the ring keep, while they simulate the delayed queue. -/
theorem weak_simulates_keeping {J : RingProgress → RingMemory α → Prop}
    (power : capacity.toNat = 2 ^ k)
    (kept : ∀ {touched progress memory progress' memory'}, Counts capacity progress memory →
      J progress memory → RingMove orders capacity touched progress memory progress' memory' →
      J progress' memory') :
    (weakMachine α orders).Simulates (Fifo.Delayed.Next capacity.toNat) (Keeping J capacity) where
  silent keeping stepped := by
    obtain ⟨q', rfl, move, holds'⟩ := weak_step power keeping.1 stepped
    exact ⟨holds', kept keeping.1.counts keeping.2 move⟩
  visible keeping stepped := by
    obtain ⟨q', next, move, holds'⟩ := weak_step power keeping.1 stepped
    exact ⟨q', next, holds', kept keeping.1.counts keeping.2 move⟩

/-- The ring over release-acquire memory, with any orders, is the delayed queue, as far as
counters and items go. -/
theorem weak_simulates (orders : RingOrders) (power : capacity.toNat = 2 ^ k) :
    (weakMachine α orders).Simulates (Fifo.Delayed.Next capacity.toNat) (WeakHolds capacity) where
  silent holds stepped := by
    obtain ⟨q', rfl, _, holds'⟩ := weak_step power holds stepped
    exact holds'
  visible holds stepped := by
    obtain ⟨q', next, _, holds'⟩ := weak_step power holds stepped
    exact ⟨q', next, holds'⟩

end Simulation

/-! ## Undisturbed calls

A call that runs without the other thread in between can take any message that is not
older than what its thread has seen. -/

section Calls
variable [DecidableEq α] {capacity : UInt64} {k : Nat} {orders : RingOrders}
  {state state' : WeakState α} {q q' : Fifo.Delayed α}

private theorem step_called (item : α)
    (loaded : state.memory.load .producer .head orders.pushHead i = some (head, memory)) :
    (weakMachine α orders).step (.producer i) { state with producer := .called item } =
      some ({ state with memory, producer := .loadedHead item head }, none) := by
  simp [weakMachine, weakStep, weakRingPush, loaded]

private theorem step_loadedHead (item : α) (head : UInt64)
    (loaded : state.memory.load .producer .tail orders.pushTail i = some (tail, memory)) :
    (weakMachine α orders).step (.producer i) { state with producer := .loadedHead item head } =
      if head - tail ≥ state.mask + 1 then
        some ({ state with memory, producer := .idle }, some (.push item false))
      else some ({ state with memory, producer := .room item head }, none) := by
  simp only [weakMachine, weakStep, weakRingPush, loaded, Option.bind_eq_bind, Option.bind_some]
  rfl

private theorem step_popped
    (loaded : state.memory.load .consumer .tail orders.popTail i = some (tail, memory)) :
    (weakMachine α orders).step (.consumer i) { state with consumer := .called } =
      some ({ state with memory, consumer := .loadedTail tail }, none) := by
  simp [weakMachine, weakStep, weakRingPop, loaded]

private theorem step_loadedTail (tail : UInt64)
    (loaded : state.memory.load .consumer .head orders.popHead i = some (head, memory)) :
    (weakMachine α orders).step (.consumer i) { state with consumer := .loadedTail tail } =
      if tail = head then some ({ state with memory, consumer := .idle }, some (.pop none))
      else some ({ state with memory, consumer := .ready tail }, none) := by
  simp only [weakMachine, weakStep, weakRingPop, loaded, Option.bind_eq_bind, Option.bind_some]
  rfl

/-- The threads stand between calls, the producer having heard of `p` pops and the
consumer of `c` pushes. -/
structure WeakState.Between (state : WeakState α) (p c : Nat) : Prop where
  producer : state.producer = .idle
  consumer : state.consumer = .idle
  heardTaken : state.memory.view .producer (.inr .tail) = p
  heardItems : state.memory.view .consumer (.inr .head) = c

private theorem weak_push_call (holds : WeakHolds capacity state q) (between : state.Between p c)
    (heard : p ≤ p') (done : p' ≤ q.taken) (item : α) :
    ∃ choices state' accepted, (weakMachine α orders).run choices state =
        some ([.push item accepted], state') ∧
      (accepted = false ↔ q.items.length = p' + capacity.toNat) ∧ state'.Between p' c := by
  obtain ⟨idle, idle', rfl, rfl⟩ := between
  obtain ⟨memory, loaded⟩ := holds.counts.load_some .producer .tail orders.pushTail heard done
  have here := (holds.counts.loaded loaded).2.1
  have other : memory.view .consumer = state.memory.view .consumer :=
    ReleaseAcquire.Memory.load_view_other loaded RingThread.noConfusion
  have room : q.items.length ≤ p' + capacity.toNat :=
    Nat.le_trans holds.counts.room (Nat.add_le_add_right heard _)
  have test := full_test (Nat.le_trans done holds.taken_le) room
  rw [← holds.mask] at test
  have call : (weakMachine α orders).step (.push item) state =
      some ({ state with producer := .called item }, none) := by
    simp [weakMachine, weakStep, WeakState.free, idle]
  have loads := step_called item (holds.counts.load_mine .head orders.pushHead)
  have checks := step_loadedHead item (.ofNat q.items.length) loaded
  by_cases full : q.items.length = p' + capacity.toNat
  · rw [if_pos (test.mpr full)] at checks
    exact ⟨_, _, false, Machine.run_of_step call (Machine.run_of_step loads (Machine.run_of_step checks
      (Machine.run_nil ..))), by simp [full], rfl, idle', here, congrFun other _⟩
  · rw [if_neg (mt test.mp full)] at checks
    let written : WeakState α := { state with
      memory := memory.write .producer (.slot (.ofNat q.items.length &&& state.mask)) (some item)
      producer := .written item (.ofNat q.items.length) }
    have writes : (weakMachine α orders).step (.producer 0)
        { state with memory, producer := .room item (.ofNat q.items.length) } = some (written, none) := rfl
    have stores : (weakMachine α orders).step (.producer 0) written = some ({ written with
        memory := written.memory.store .producer .head orders.pushStore (.ofNat q.items.length + 1)
        producer := .idle }, some (.push item true)) := rfl
    refine ⟨_, _, true, Machine.run_of_step call (Machine.run_of_step loads (Machine.run_of_step checks
      (Machine.run_of_step writes (Machine.run_of_step stores (Machine.run_nil ..))))), by simp [full],
      rfl, idle', ?_, ?_⟩
    · simp [ReleaseAcquire.Memory.store_view_self, written, here]
    · rw [ReleaseAcquire.Memory.store_view_other RingThread.noConfusion]
      simp [written, other]

private theorem weak_pop_call (holds : WeakHolds capacity state q) (between : state.Between p c)
    (heard : c ≤ c') (done : c' ≤ q.items.length) :
    ∃ choices state' item, (weakMachine α orders).run choices state = some ([.pop item], state') ∧
      (c' = q.taken → item = none) ∧ (c' ≠ q.taken → item = q.items[q.taken]?) ∧
      state'.Between p c' := by
  obtain ⟨idle, idle', rfl, rfl⟩ := between
  obtain ⟨memory, loaded⟩ := holds.counts.load_some .consumer .head orders.popHead heard done
  have here := (holds.counts.loaded loaded).2.1
  have other : memory.view .producer = state.memory.view .producer :=
    ReleaseAcquire.Memory.load_view_other loaded RingThread.noConfusion
  have cells := ReleaseAcquire.Memory.load_cell loaded
  have ahead : q.taken ≤ c' := Nat.le_trans holds.counts.ahead heard
  have near : c' ≤ q.taken + capacity.toNat :=
    Nat.le_trans done (Nat.le_trans holds.counts.room (Nat.add_le_add_right holds.tail_seen _))
  have test := empty_test ahead near
  have call : (weakMachine α orders).step .pop state = some ({ state with consumer := .called }, none) := by
    simp [weakMachine, weakStep, WeakState.free, idle']
  have loads := step_popped (holds.counts.load_mine .tail orders.popTail)
  have checks := step_loadedTail (.ofNat q.taken) loaded
  by_cases empty : q.taken = c'
  · rw [if_pos (test.mpr empty)] at checks
    exact ⟨_, _, none, Machine.run_of_step call (Machine.run_of_step loads (Machine.run_of_step checks
      (Machine.run_nil ..))), fun _ => rfl, fun unread => absurd empty.symm unread, idle, rfl,
      congrFun other _, here⟩
  · rw [if_neg (mt test.mp empty)] at checks
    let item := memory.cell (.slot (.ofNat q.taken &&& state.mask))
    let read : WeakState α := { state with
      memory := (memory.read .consumer (.slot (.ofNat q.taken &&& state.mask))).2
      consumer := .read (.ofNat q.taken) item }
    have reads : (weakMachine α orders).step (.consumer 0)
        { state with memory, consumer := .ready (.ofNat q.taken) } = some (read, none) := rfl
    have stores : (weakMachine α orders).step (.consumer 0) read = some ({ read with
        memory := read.memory.store .consumer .tail orders.popStore (.ofNat q.taken + 1)
        consumer := .idle }, some (.pop item)) := rfl
    refine ⟨_, _, item, Machine.run_of_step call (Machine.run_of_step loads (Machine.run_of_step checks
      (Machine.run_of_step reads (Machine.run_of_step stores (Machine.run_nil ..))))),
      fun same => absurd same.symm empty, fun _ => ?_, idle, rfl, ?_, ?_⟩
    · rw [← holds.held q.taken (Nat.le_refl _) (by omega)]
      simp only [item, cells, holds.mask, slotOf]
    · rw [ReleaseAcquire.Memory.store_view_other RingThread.noConfusion]
      simp [read, ReleaseAcquire.Memory.read, other]
    · simp [ReleaseAcquire.Memory.store_view_self, read, ReleaseAcquire.Memory.read, here]

/-- The threads stand between calls and have heard just what the queue says. -/
def WeakSettled (capacity : UInt64) (state : WeakState α) (q : Fifo.Delayed α) : Prop :=
  WeakHolds capacity state q ∧ state.Between q.heardTaken q.heardItems

/-- Every step of the delayed queue is a call of one of the functions, undisturbed, with loads
that take the messages heard of. -/
theorem weak_realises (orders : RingOrders) (power : capacity.toNat = 2 ^ k) {action : Fifo.Action α}
    (settled : WeakSettled capacity state q) (next : Fifo.Delayed.Next capacity.toNat q action q') :
    ∃ choices state', (weakMachine α orders).run choices state = some ([action], state') ∧
      WeakSettled capacity state' q' := by
  obtain ⟨holds, between⟩ := settled
  -- the queue after a call may be taken to have heard all that the threads have heard
  have after {choices : List (WeakChoice α)} {state' : WeakState α} {p c : Nat}
      (ran : (weakMachine α orders).run choices state = some ([action], state'))
      (between' : state'.Between p c) : ∃ q₁, Fifo.Delayed.Next capacity.toNat q action q₁ ∧
        WeakSettled capacity state' { q₁ with heardTaken := p, heardItems := c } := by
    obtain ⟨q₁, trace, holds'⟩ := (weak_simulates orders power).trace holds ran
    cases trace with
    | cons next rest =>
      cases rest
      exact ⟨q₁, next, { holds' with
        heardTaken := Nat.le_of_eq between'.heardTaken.symm
        heardItems := Nat.le_of_eq between'.heardItems.symm
        consumer := holds'.consumer.mono (Nat.le_refl _) rfl (fun _ found => found) holds'.head_seen },
        between'⟩
  cases next with
  | push heard done room =>
    rename_i p item
    obtain ⟨choices, state', accepted, ran, full, between'⟩ :=
      weak_push_call holds between heard done item
    obtain rfl : accepted = true := by
      by_contra refused
      have := full.mp (by simpa using refused)
      omega
    obtain ⟨q₁, next, settled⟩ := after ran between'
    cases next
    exact ⟨choices, state', ran, settled⟩
  | full heard done full =>
    rename_i p item
    obtain ⟨choices, state', accepted, ran, refused, between'⟩ :=
      weak_push_call holds between heard done item
    obtain rfl := refused.mpr full
    obtain ⟨q₁, next, settled⟩ := after ran between'
    cases next
    exact ⟨choices, state', ran, settled⟩
  | pop heard done unread oldest =>
    obtain ⟨choices, state', item, ran, _, popped, between'⟩ := weak_pop_call holds between heard done
    obtain rfl := (popped (Nat.ne_of_gt unread)).trans oldest
    obtain ⟨q₁, next, settled⟩ := after ran between'
    cases next
    exact ⟨choices, state', ran, settled⟩
  | empty heard =>
    obtain ⟨choices, state', item, ran, empty, _, between'⟩ :=
      weak_pop_call holds between heard holds.taken_le
    obtain rfl := empty rfl
    obtain ⟨q₁, next, settled⟩ := after ran between'
    cases next
    exact ⟨choices, state', ran, settled⟩

end Calls

/-- The memory that `spsc_ring_init` leaves holds the empty queue. -/
theorem weakRingInit_settled {slots : UInt64 → Option α}
    (init : weakRingInit slots capacity = some start) :
    (∃ k, capacity.toNat = 2 ^ k) ∧ WeakSettled capacity start {} ∧
      ∃ cell, start.memory = .initial (fun _ => 0) cell := by
  obtain ⟨ring, made, rfl⟩ := Option.map_eq_some_iff.mp init
  obtain ⟨power, rfl⟩ := capacity_pow made
  have values : (fun | RingCounter.head => (0 : UInt64) | .tail => 0) = fun _ => 0 := by
    funext counter
    cases counter <;> rfl
  refine ⟨power, ⟨?_, rfl, rfl, rfl, rfl⟩, _, by rw [values]⟩
  refine ⟨rfl, ?_, Nat.zero_le _, Nat.zero_le _,
    fun n _ unread => absurd unread (Nat.not_lt_zero n), trivial,
    trivial⟩
  rw [values]
  exact Counts.initial capacity _

end H2oTpcc

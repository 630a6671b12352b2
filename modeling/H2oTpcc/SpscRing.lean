import Mathlib.Data.Nat.ModEq
import Mathlib.Logic.Function.Basic
import H2oTpcc.BoundedFifo

/-! The ring buffer of `spsc_ring.c`, one producer and one consumer, interleaved at
every load, slot access and store. What a thread computes from its own copies belongs
to the access before it. The counters are `size_t` and wrap around. -/
namespace H2oTpcc

/-- `spsc_ring_t`; a slot that holds nothing is `NULL`. -/
structure SpscRing (α : Type) where
  slots : UInt64 → Option α
  mask : UInt64
  head : UInt64
  tail : UInt64

/-- `spsc_ring_init`, when its assertion holds. -/
def spscRingInit (slots : UInt64 → Option α) (capacity : UInt64) : Option (SpscRing α) :=
  if capacity > 0 ∧ capacity &&& (capacity - 1) = 0 then
    some { slots, mask := capacity - 1, head := 0, tail := 0 }
  else none

/-- Where the producer stands in `spsc_ring_push`, with its copy of `head`. -/
inductive Producer (α : Type) where
  | idle
  | called (item : α)
  | loadedHead (item : α) (head : UInt64)
  /-- It has seen room and is about to set the slot. -/
  | room (item : α) (head : UInt64)
  | written (item : α) (head : UInt64)

/-- Where the consumer stands in `spsc_ring_pop`, with its copy of `tail`. -/
inductive Consumer (α : Type) where
  | idle
  | called
  | loadedTail (tail : UInt64)
  /-- It has seen an item and is about to read the slot. -/
  | ready (tail : UInt64)
  | read (tail : UInt64) (item : Option α)

structure SpscState (α : Type) where
  ring : SpscRing α
  producer : Producer α := .idle
  consumer : Consumer α := .idle

/-- The next access of `spsc_ring_push`. -/
def spscRingPush (state : SpscState α) : Option (SpscState α × Option (Fifo.Action α)) :=
  let ring := state.ring
  match state.producer with
  | .idle => none
  | .called item => some ({ state with producer := .loadedHead item ring.head }, none)
  | .loadedHead item head =>
    if head - ring.tail ≥ ring.mask + 1 then
      some ({ state with producer := .idle }, some (.push item false))
    else some ({ state with producer := .room item head }, none)
  | .room item head =>
    some ({ state with
      ring := { ring with slots := Function.update ring.slots (head &&& ring.mask) (some item) }
      producer := .written item head }, none)
  | .written item head =>
    some ({ state with ring := { ring with head := head + 1 }, producer := .idle },
      some (.push item true))

/-- The next access of `spsc_ring_pop`. -/
def spscRingPop (state : SpscState α) : Option (SpscState α × Option (Fifo.Action α)) :=
  let ring := state.ring
  match state.consumer with
  | .idle => none
  | .called => some ({ state with consumer := .loadedTail ring.tail }, none)
  | .loadedTail tail =>
    if tail = ring.head then some ({ state with consumer := .idle }, some (.pop none))
    else some ({ state with consumer := .ready tail }, none)
  | .ready tail =>
    some ({ state with consumer := .read tail (ring.slots (tail &&& ring.mask)) }, none)
  | .read tail item =>
    some ({ state with ring := { ring with tail := tail + 1 }, consumer := .idle }, some (.pop item))

/-- Which thread goes on, or is called. -/
inductive SpscChoice (α : Type) where
  | push (item : α)
  | pop
  | producer
  | consumer

def spscStep : SpscChoice α → SpscState α → Option (SpscState α × Option (Fifo.Action α))
  | .push item, state =>
    match state.producer with
    | .idle => some ({ state with producer := .called item }, none)
    | _ => none
  | .pop, state =>
    match state.consumer with
    | .idle => some ({ state with consumer := .called }, none)
    | _ => none
  | .producer, state => spscRingPush state
  | .consumer, state => spscRingPop state

def spscMachine (α : Type) : Machine (SpscState α) (SpscChoice α) (Fifo.Action α) where
  step := spscStep

/-! ## What one thread leaves alone -/

section Frame
variable {state state' : SpscState α} {action : Option (Fifo.Action α)}

/-- A push shows nothing but its own result, and leaves the consumer and `tail` alone. -/
theorem spscRingPush_shows (ran : spscRingPush state = some (state', action)) :
    state'.consumer = state.consumer ∧ state'.ring.tail = state.ring.tail ∧
      ∀ shown, action = some shown → ∃ item accepted, shown = .push item accepted := by
  unfold spscRingPush at ran
  cases stage : state.producer with
  | idle => simp [stage] at ran
  | loadedHead item head =>
    simp only [stage] at ran
    split at ran <;> cases ran <;> simp
  | called item | room item head | written item head =>
    simp only [stage] at ran
    cases ran
    simp

/-- A pop shows nothing but its own result, and leaves the producer and `head` alone. -/
theorem spscRingPop_shows (ran : spscRingPop state = some (state', action)) :
    state'.producer = state.producer ∧ state'.ring.head = state.ring.head ∧
      ∀ shown, action = some shown → ∃ item, shown = .pop item := by
  unfold spscRingPop at ran
  cases stage : state.consumer with
  | idle => simp [stage] at ran
  | loadedTail tail =>
    simp only [stage] at ran
    split at ran <;> cases ran <;> simp
  | called | ready tail | read tail item =>
    simp only [stage] at ran
    cases ran
    simp

theorem spscStep_push (stepped : spscStep (.push item) state = some (state', action)) :
    state' = { state with producer := .called item } ∧ action = none := by
  unfold spscStep at stepped
  cases stage : state.producer <;> simp only [stage, reduceCtorEq] at stepped
  cases stepped
  exact ⟨rfl, rfl⟩

theorem spscStep_pop (stepped : spscStep .pop state = some (state', action)) :
    state' = { state with consumer := .called } ∧ action = none := by
  unfold spscStep at stepped
  cases stage : state.consumer <;> simp only [stage, reduceCtorEq] at stepped
  cases stepped
  exact ⟨rfl, rfl⟩

end Frame

/-! ## Wrapping counters -/

section Counters
variable {capacity : UInt64} {k : Nat}

/-- `spsc_ring_init` accepts powers of two only, and leaves an empty ring. -/
theorem capacity_pow {slots : UInt64 → Option α} (init : spscRingInit slots capacity = some ring) :
    (∃ k, capacity.toNat = 2 ^ k) ∧
      ring = { slots, mask := capacity - 1, head := 0, tail := 0 } := by
  unfold spscRingInit at init
  split at init
  · rename_i asserted
    obtain ⟨positive, power⟩ := asserted
    have bits := congrArg UInt64.toNat power
    have one : (1 : UInt64) ≤ capacity := by
      rw [UInt64.le_iff_toNat_le]
      exact positive
    rw [UInt64.toNat_and, UInt64.toNat_sub_of_le _ _ one] at bits
    have nonzero : capacity.toNat ≠ 0 := Nat.ne_of_gt positive
    exact ⟨(Nat.and_sub_one_eq_zero_iff_isPowerOfTwo nonzero).mp bits, (Option.some.inj init).symm⟩
  · cases init

/-- The mask takes a counter modulo the capacity, which is a power of two. -/
theorem toNat_and_mask (power : capacity.toNat = 2 ^ k) (counter : UInt64) :
    (counter &&& (capacity - 1)).toNat = counter.toNat % 2 ^ k := by
  have one : (1 : UInt64) ≤ capacity := by
    rw [UInt64.le_iff_toNat_le, power]
    exact Nat.one_le_two_pow
  rw [UInt64.toNat_and, UInt64.toNat_sub_of_le _ _ one, power]
  exact Nat.and_two_pow_sub_one_eq_mod _ _

/-- The counters run modulo 2^64, which the capacity divides, so a slot can be computed from the
counter as if it never wrapped. -/
theorem toNat_add_mod (power : capacity.toNat = 2 ^ k) (counter : UInt64) (i : Nat) :
    (counter + UInt64.ofNat i).toNat % 2 ^ k = (counter.toNat + i) % 2 ^ k := by
  have small : 2 ^ k < 2 ^ 64 := power ▸ capacity.toNat_lt
  have divides : 2 ^ k ∣ 2 ^ 64 :=
    Nat.pow_dvd_pow 2 (Nat.le_of_lt ((Nat.pow_lt_pow_iff_right (by decide)).mp small))
  rw [UInt64.toNat_add, UInt64.toNat_ofNat', Nat.add_mod_mod, Nat.mod_mod_of_dvd _ divides]

/-- Counters less than a capacity apart have slots of their own, also across the wrap at 2^64. -/
theorem slot_injective (power : capacity.toNat = 2 ^ k) {counter : UInt64} {i j : Nat}
    (first : i < capacity.toNat) (second : j < capacity.toNat)
    (same : (counter + UInt64.ofNat i) &&& (capacity - 1) =
      (counter + UInt64.ofNat j) &&& (capacity - 1)) : i = j := by
  have slots := congrArg UInt64.toNat same
  rw [toNat_and_mask power, toNat_and_mask power, toNat_add_mod power, toNat_add_mod power] at slots
  rw [power] at first second
  exact Nat.ModEq.eq_of_lt_of_lt (Nat.ModEq.add_left_cancel' counter.toNat slots) first second

/-- The distance of two counters, however often they have wrapped. -/
theorem distance (counter : UInt64) {n : Nat} (bounded : n ≤ capacity.toNat) :
    (counter + UInt64.ofNat n - counter).toNat = n := by
  have small := capacity.toNat_lt
  have cancel : counter + UInt64.ofNat n - counter = UInt64.ofNat n := by grind
  rw [cancel, UInt64.toNat_ofNat', Nat.mod_eq_of_lt (Nat.lt_of_le_of_lt bounded small)]

end Counters

/-! ## The ring holds a queue -/

/-- What the producer knows of the queue. Its copy of `head` is current, since nobody
else stores `head`, and the room it has seen cannot go away. -/
def Producer.Knows (capacity : UInt64) (ring : SpscRing α) (queue : List α) : Producer α → Prop
  | idle | called _ => True
  | loadedHead _ head => head = ring.head
  | room _ head => head = ring.head ∧ queue.length < capacity.toNat
  | written item head => head = ring.head ∧ queue.length < capacity.toNat ∧
    ring.slots (head &&& ring.mask) = some item

/-- What the consumer knows of the queue. -/
def Consumer.Knows (ring : SpscRing α) (queue : List α) : Consumer α → Prop
  | idle | called => True
  | loadedTail tail => tail = ring.tail
  | ready tail => tail = ring.tail ∧ queue ≠ []
  | read tail item => tail = ring.tail ∧ item ≠ none ∧ item = queue.head?

/-- A finished push takes nothing from what the consumer knows: the items it has seen are still
in front. -/
theorem Consumer.Knows.push {ring : SpscRing α} {queue : List α} {consumer : Consumer α}
    (knows : consumer.Knows ring queue) (item : α) (head : UInt64) :
    consumer.Knows { ring with head } (queue ++ [item]) := by
  cases consumer with
  | idle | called => trivial
  | loadedTail tail => exact knows
  | ready tail => exact ⟨knows.1, by simp⟩
  | read tail found =>
    obtain ⟨same, present, oldest⟩ := knows
    refine ⟨same, present, oldest.trans ?_⟩
    cases queue with
    | nil => exact absurd oldest present
    | cons first rest => rfl

/-- A finished pop takes nothing from what the producer knows: the room it has seen only grows. -/
theorem Producer.Knows.pop {ring : SpscRing α} {rest : List α} {producer : Producer α}
    (knows : producer.Knows capacity ring (first :: rest)) (tail : UInt64) :
    producer.Knows capacity { ring with tail } rest := by
  cases producer with
  | idle | called => trivial
  | loadedHead item head => exact knows
  | room item head => exact ⟨knows.1, Nat.lt_of_succ_lt knows.2⟩
  | written item head => exact ⟨knows.1, Nat.lt_of_succ_lt knows.2.1, knows.2.2⟩

/-- The ring holds the queue, oldest item at `tail`, in slots of which none is the
one at `head` unless the ring is full. -/
structure Holds (capacity : UInt64) (state : SpscState α) (queue : List α) : Prop where
  mask : state.ring.mask = capacity - 1
  bounded : queue.length ≤ capacity.toNat
  head : state.ring.head = state.ring.tail + UInt64.ofNat queue.length
  slots : ∀ i < queue.length,
    state.ring.slots ((state.ring.tail + UInt64.ofNat i) &&& state.ring.mask) = queue[i]?
  producer : state.producer.Knows capacity state.ring queue
  consumer : state.consumer.Knows state.ring queue

/-- A fresh ring holds the empty queue. -/
theorem Holds.init (slots : UInt64 → Option α) (capacity : UInt64) :
    Holds capacity { ring := ⟨slots, capacity - 1, 0, 0⟩ } [] :=
  ⟨rfl, Nat.zero_le _, rfl, fun _ inside => absurd inside (Nat.not_lt_zero _), trivial, trivial⟩

section Simulation
variable {capacity : UInt64} {k : Nat} {state state' : SpscState α} {queue : List α}

/-- The slot at `head` is not one of the queue's as long as there is room. -/
theorem Holds.free (power : capacity.toNat = 2 ^ k) (holds : Holds capacity state queue)
    (room : queue.length < capacity.toNat) (i : Nat) (inside : i < queue.length) :
    (state.ring.tail + UInt64.ofNat i) &&& state.ring.mask ≠ state.ring.head &&& state.ring.mask := by
  rw [holds.head, holds.mask]
  intro same
  have := slot_injective power (Nat.lt_trans inside room) room same
  omega

/-- The difference of the counters, modulo 2^64, is the length of the queue. -/
theorem Holds.size (holds : Holds capacity state queue) :
    (state.ring.head - state.ring.tail).toNat = queue.length := by
  rw [holds.head]
  exact distance _ holds.bounded

/-- `head - tail >= mask + 1` finds out whether the queue is full. -/
private theorem Holds.full_iff (holds : Holds capacity state queue) :
    state.ring.head - state.ring.tail ≥ state.ring.mask + 1 ↔ queue.length = capacity.toNat := by
  have capacity_eq : state.ring.mask + 1 = capacity := by
    rw [holds.mask]
    grind
  have bounded := holds.bounded
  rw [capacity_eq, ge_iff_le, UInt64.le_iff_toNat_le, holds.size]
  omega

/-- `tail == head` finds out whether the queue is empty, since a full ring is never 2^64 long. -/
theorem Holds.empty_iff (holds : Holds capacity state queue) :
    state.ring.tail = state.ring.head ↔ queue = [] := by
  have size := holds.size
  constructor
  · intro same
    rw [same] at size
    exact List.length_eq_zero_iff.mp (size.symm.trans (by simp))
  · rintro rfl
    have head := holds.head
    simp at head
    exact head.symm

/-- After a step, the ring holds the same queue or the one that the action leads to. -/
def StepsTo (capacity : UInt64) (queue : List α) (action : Option (Fifo.Action α))
    (state' : SpscState α) : Prop :=
  match action with
  | none => Holds capacity state' queue
  | some action => ∃ queue', Fifo.Next capacity.toNat queue action queue' ∧ Holds capacity state' queue'

/-- Every access of a push keeps the ring in step with the queue: the loads, the test for room
and the write change nothing of it, and the store of `head` appends the item. -/
theorem push_step (power : capacity.toNat = 2 ^ k) (holds : Holds capacity state queue)
    (stepped : spscRingPush state = some (state', action)) : StepsTo capacity queue action state' := by
  have knows := holds.producer
  unfold spscRingPush at stepped
  cases stage : state.producer with
  | idle => simp [stage] at stepped
  | called item =>
    simp only [stage, Option.some.injEq, Prod.mk.injEq] at stepped
    obtain ⟨rfl, rfl⟩ := stepped
    exact { holds with producer := rfl }
  | loadedHead item head =>
    rw [stage] at knows
    obtain rfl := knows
    simp only [stage, holds.full_iff] at stepped
    split at stepped
    · rename_i full
      cases stepped
      exact ⟨queue, .full full, { holds with producer := trivial }⟩
    · rename_i room
      cases stepped
      exact { holds with producer := ⟨rfl, Nat.lt_of_le_of_ne holds.bounded room⟩ }
  | room item head =>
    rw [stage] at knows
    obtain ⟨rfl, room⟩ := knows
    simp only [stage, Option.some.injEq, Prod.mk.injEq] at stepped
    obtain ⟨rfl, rfl⟩ := stepped
    exact { holds with
      slots := fun i inside =>
        (Function.update_of_ne (holds.free power room i inside) _ _).trans (holds.slots i inside)
      producer := ⟨rfl, room, Function.update_self ..⟩ }
  | written item head =>
    rw [stage] at knows
    obtain ⟨rfl, room, written⟩ := knows
    simp only [stage, Option.some.injEq, Prod.mk.injEq] at stepped
    obtain ⟨rfl, rfl⟩ := stepped
    refine ⟨queue ++ [item], .push room, {
      mask := holds.mask
      bounded := by rw [List.length_append]; exact room
      head := ?_
      slots := fun i inside => ?_
      producer := trivial
      consumer := holds.consumer.push item _ }⟩
    · change state.ring.head + 1 = _
      rw [holds.head, List.length_append, List.length_singleton, UInt64.ofNat_add]
      exact UInt64.add_assoc ..
    · rcases Nat.lt_or_ge i queue.length with old | new
      · rw [List.getElem?_append_left old]
        exact holds.slots i old
      · obtain rfl : i = queue.length := by
          rw [List.length_append, List.length_singleton] at inside
          omega
        rw [List.getElem?_concat_length, ← written, holds.head]

/-- Every access of a pop keeps the ring in step with the queue: only the store of `tail` takes
the oldest item off. -/
theorem pop_step (holds : Holds capacity state queue)
    (stepped : spscRingPop state = some (state', action)) : StepsTo capacity queue action state' := by
  have knows := holds.consumer
  unfold spscRingPop at stepped
  cases stage : state.consumer with
  | idle => simp [stage] at stepped
  | called =>
    simp only [stage, Option.some.injEq, Prod.mk.injEq] at stepped
    obtain ⟨rfl, rfl⟩ := stepped
    exact { holds with consumer := rfl }
  | loadedTail tail =>
    rw [stage] at knows
    obtain rfl := knows
    simp only [stage, holds.empty_iff] at stepped
    split at stepped
    · rename_i empty
      cases stepped
      subst empty
      exact ⟨[], .empty, { holds with consumer := trivial }⟩
    · rename_i nonempty
      cases stepped
      exact { holds with consumer := ⟨rfl, nonempty⟩ }
  | ready tail =>
    rw [stage] at knows
    obtain ⟨rfl, nonempty⟩ := knows
    simp only [stage, Option.some.injEq, Prod.mk.injEq] at stepped
    obtain ⟨rfl, rfl⟩ := stepped
    have oldest := holds.slots 0 (List.length_pos_iff.mpr nonempty)
    have here : state.ring.tail + UInt64.ofNat 0 = state.ring.tail := UInt64.add_zero _
    rw [here, ← List.head?_eq_getElem?] at oldest
    refine { holds with consumer := ⟨rfl, ?_, oldest⟩ }
    rw [oldest, ne_eq, List.head?_eq_none_iff]
    exact nonempty
  | read tail item =>
    rw [stage] at knows
    obtain ⟨rfl, present, oldest⟩ := knows
    simp only [stage, Option.some.injEq, Prod.mk.injEq] at stepped
    obtain ⟨rfl, rfl⟩ := stepped
    cases queue with
    | nil => exact absurd oldest present
    | cons first rest =>
      rw [List.head?_cons] at oldest
      subst oldest
      have shift (n : Nat) :
          state.ring.tail + UInt64.ofNat (n + 1) = state.ring.tail + 1 + UInt64.ofNat n := by
        rw [UInt64.ofNat_add]
        grind
      refine ⟨rest, .pop, {
        mask := holds.mask
        bounded := Nat.le_of_lt holds.bounded
        head := holds.head.trans (shift rest.length)
        slots := fun i inside => ?_
        producer := holds.producer.pop _
        consumer := trivial }⟩
      have next := holds.slots (i + 1) (Nat.succ_lt_succ inside)
      rwa [shift, List.getElem?_cons_succ] at next

/-- Both functions together, access by access in any order, behave as the queue. -/
theorem spsc_simulates (power : capacity.toNat = 2 ^ k) :
    (spscMachine α).Simulates (Fifo.Next capacity.toNat) (Holds capacity) := by
  have step {choice : SpscChoice α} {state state' : SpscState α} {queue : List α}
      {action : Option (Fifo.Action α)} (holds : Holds capacity state queue)
      (stepped : spscStep choice state = some (state', action)) : StepsTo capacity queue action state' := by
    cases choice with
    | push item =>
      obtain ⟨rfl, rfl⟩ := spscStep_push stepped
      exact { holds with producer := trivial }
    | pop =>
      obtain ⟨rfl, rfl⟩ := spscStep_pop stepped
      exact { holds with consumer := trivial }
    | producer => exact push_step power holds stepped
    | consumer => exact pop_step holds stepped
  exact ⟨step, step⟩

end Simulation

/-- What callers may rely on after a run that has shown `actions`. -/
structure ActsAsFifo (capacity : UInt64) (actions : List (Fifo.Action α)) (state : SpscState α) :
    Prop where
  /-- The operations finished so far are those of a bounded queue. -/
  refines : Machine.Trace (Fifo.Next capacity.toNat) [] actions (Fifo.unread actions)
  /-- Items come out in the order in which they went in. -/
  in_order : Fifo.returned actions <+: Fifo.accepted actions
  bounded : (state.ring.head - state.ring.tail).toNat ≤ capacity.toNat
  /-- The slots from `tail` to `head` hold the unread items. -/
  size : (state.ring.head - state.ring.tail).toNat = (Fifo.unread actions).length
  held : ∀ i < (Fifo.unread actions).length,
    state.ring.slots ((state.ring.tail + UInt64.ofNat i) &&& state.ring.mask) =
      (Fifo.unread actions)[i]?
  /-- The slot about to be written holds none of them. -/
  safe : ∀ item head, state.producer = .room item head → ∀ i < (Fifo.unread actions).length,
    (state.ring.tail + UInt64.ofNat i) &&& state.ring.mask ≠ head &&& state.ring.mask
  /-- The access that makes a push fail is its load of `tail`, and the queue is full. -/
  full : ∀ choice state' item, spscStep choice state = some (state', some (.push item false)) →
    (∃ head, state.producer = .loadedHead item head) ∧ (Fifo.unread actions).length = capacity.toNat
  /-- The access that makes a pop return `NULL` is its load of `head`, and the queue is
  empty. -/
  empty : ∀ choice state', spscStep choice state = some (state', some (.pop none)) →
    (∃ tail, state.consumer = .loadedTail tail) ∧ Fifo.unread actions = []

/-- The accesses that complete an operation. -/
private theorem visible_cases {state : SpscState α}
    (stepped : spscStep choice state = some (state', some action)) :
    (∃ item head, state.producer = .loadedHead item head ∧ action = .push item false) ∨
    (∃ item head, state.producer = .written item head ∧ action = .push item true) ∨
    (∃ tail, state.consumer = .loadedTail tail ∧ action = .pop none) ∨
    (∃ tail item, state.consumer = .read tail item ∧ action = .pop item) := by
  cases choice with
  | push item => cases (spscStep_push stepped).2
  | pop => cases (spscStep_pop stepped).2
  | producer =>
    cases stage : state.producer with
    | loadedHead item head =>
      simp only [spscStep, spscRingPush, stage] at stepped
      split at stepped <;> cases stepped
      exact .inl ⟨item, head, rfl, rfl⟩
    | written item head =>
      simp only [spscStep, spscRingPush, stage] at stepped
      cases stepped
      exact .inr (.inl ⟨item, head, rfl, rfl⟩)
    | _ => simp [spscStep, spscRingPush, stage] at stepped
  | consumer =>
    cases stage : state.consumer with
    | loadedTail tail =>
      simp only [spscStep, spscRingPop, stage] at stepped
      split at stepped <;> cases stepped
      exact .inr (.inr (.inl ⟨tail, rfl, rfl⟩))
    | read tail item =>
      simp only [spscStep, spscRingPop, stage] at stepped
      cases stepped
      exact .inr (.inr (.inr ⟨tail, item, rfl, rfl⟩))
    | _ => simp [spscStep, spscRingPop, stage] at stepped

/-- **The ring is a bounded queue.** Whatever the capacity and the interleaving,
however long the run and however often the counters wrap. -/
theorem spsc_ring_refines_fifo {slots : UInt64 → Option α} {capacity : UInt64} {ring : SpscRing α}
    {actions : List (Fifo.Action α)} {state : SpscState α}
    (init : spscRingInit slots capacity = some ring)
    (ran : (spscMachine α).run choices { ring } = some (actions, state)) :
    ActsAsFifo capacity actions state := by
  obtain ⟨⟨k, power⟩, rfl⟩ := capacity_pow init
  have simulates := spsc_simulates (α := α) power
  obtain ⟨queue, trace, holds⟩ := simulates.trace (Holds.init slots capacity) ran
  obtain ⟨items, bounded⟩ := Fifo.accepted_eq trace
  obtain rfl := Fifo.unread_eq trace
  refine ⟨trace, ⟨_, items.symm⟩, ?_, holds.size, holds.slots, ?_, ?_, ?_⟩
  · rw [holds.size]
    exact bounded (Nat.zero_le _)
  · intro item head about
    have knows := holds.producer
    rw [about] at knows
    obtain ⟨rfl, room⟩ := knows
    exact holds.free power room
  · intro choice state' item stepped
    obtain ⟨_, next, _⟩ := simulates.visible holds stepped
    refine ⟨?_, next.refused⟩
    rcases visible_cases stepped with ⟨item', head, stage, shown⟩ | ⟨_, _, _, shown⟩ | ⟨_, _, shown⟩ |
      ⟨_, _, _, shown⟩ <;> cases shown
    exact ⟨head, stage⟩
  · intro choice state' stepped
    obtain ⟨_, next, _⟩ := simulates.visible holds stepped
    refine ⟨?_, next.null⟩
    rcases visible_cases stepped with ⟨_, _, _, shown⟩ | ⟨_, _, _, shown⟩ | ⟨tail, stage, _⟩ |
      ⟨_, _, stage, shown⟩
    · cases shown
    · cases shown
    · exact ⟨tail, stage⟩
    · -- a pop that has seen an item returns it
      have knows := holds.consumer
      rw [stage] at knows
      exact absurd (Fifo.Action.pop.inj shown).symm knows.2.1

/-- One item through a ring of one slot, the pop being called before the push is done. -/
theorem spsc_ring_refines_fifo_single : ∃ ring : SpscRing Nat, ∃ choices state,
    spscRingInit (fun _ => none) 1 = some ring ∧
    (spscMachine Nat).run choices { ring } = some ([.push 7 true, .pop (some 7)], state) ∧
    ActsAsFifo 1 [.push 7 true, .pop (some 7)] state := by
  have init : spscRingInit (fun _ => (none : Option Nat)) 1 = some ⟨fun _ => none, 0, 0, 0⟩ := rfl
  have ran : (spscMachine Nat).run
      [.push 7, .producer, .producer, .pop, .consumer, .producer, .producer, .consumer, .consumer,
        .consumer] { ring := ⟨fun _ => none, 0, 0, 0⟩ } =
      some ([.push 7 true, .pop (some 7)],
        { ring := ⟨Function.update (fun _ => none) 0 (some 7), 0, 1, 1⟩ }) := rfl
  exact ⟨_, _, _, init, ran, spsc_ring_refines_fifo init ran⟩

end H2oTpcc

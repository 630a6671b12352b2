import H2oTpcc.RingOrdering

/-! What the ring means to its callers beyond the order of the items: an item changes
hands with the memory that it points to, and the two ends need not agree on one order of
all calls. -/
namespace H2oTpcc
open ReleaseAcquire (MemoryOrder)

/-! ## An item is handed over with its memory -/

section Handover
/-- The producer owns an item until its push is accepted, the consumer from when a pop has
returned it. -/
def Permitted (actions : List (Fifo.Action α)) : RingThread × α → Prop
  | (.producer, item) => item ∉ Fifo.accepted actions
  | (.consumer, item) => item ∈ Fifo.returned actions

/-- The callers touch only what is theirs, in a run that goes on after these actions. -/
def TouchOwn [DecidableEq α] (orders : RingOrders) :
    List (Fifo.Action α) → List (WeakChoice α) → WeakState α → Prop
  | _, [], _ => True
  | actions, choice :: rest, state => ∀ state' action,
    weakStep orders choice state = some (state', action) →
    (∀ touched, choice.touched = some touched → Permitted actions touched) ∧
      TouchOwn orders (actions ++ action.toList) rest state'

/-- The consumer has not touched what was not accepted, and every message of `head` carries
what the producer did to the items that it publishes. -/
structure HandedOver (q : Fifo.Delayed α) (memory : RingMemory α) : Prop where
  untouched : ∀ item, item ∉ q.items → ∀ kind, memory.accesses kind (.item item) .consumer = 0
  carried : ∀ {i : Nat} {message : RingMessage}, (memory.messages .head)[i]? = some message →
    ∀ n item, n < i → q.items[n]? = some item → memory.Covers message.view .producer (.item item)
  unraced : ∀ item, memory.raced (.item item) = false

namespace HandedOver
variable {capacity : UInt64} {orders : RingOrders} {progress progress' : RingProgress}
  {memory memory' : RingMemory α} {q q' : Fifo.Delayed α}

/-- Before the first push no item has been handed over. -/
theorem initial (cell : RingCell α → Option α) : HandedOver {} (.initial (fun _ => 0) cell) where
  untouched _ _ _ := rfl
  carried _ _ _ _ accepted := nomatch accepted
  unraced _ := rfl

/-- More may be accepted, as long as no message publishes it. -/
private theorem grow (handed : HandedOver q memory)
    (stored : (memory.messages .head).length ≤ q.items.length + 1)
    (more : q.items <+: q'.items) : HandedOver q' memory where
  untouched item unaccepted := handed.untouched item (fun member => unaccepted (more.subset member))
  carried {i _} found n item before accepted := by
    have inside := (List.getElem?_eq_some_iff.mp found).1
    refine handed.carried found n item before ?_
    rw [List.prefix_iff_getElem?.mp more n (by omega)] at accepted
    rw [List.getElem?_eq_getElem (by omega)]
    exact accepted
  unraced := handed.unraced

/-- A release store of `head` carries all that the producer has done. -/
theorem store (handed : HandedOver q memory) (coherent : memory.Coherent RingCounter.owner)
    (counter : RingCounter) (value : UInt64) :
    HandedOver q (memory.store counter.owner counter .release value) where
  untouched := handed.untouched
  carried {_ message} found n item before accepted := by
    have coherent' := coherent.store (rfl : counter.owner = counter.owner) .release value
    rcases ReleaseAcquire.Memory.getElem?_store found with old | ⟨rfl, _, _, _, _, release⟩
    · exact handed.carried old n item before accepted
    · rw [release rfl]
      exact coherent'.covers_self _ _
  unraced := handed.unraced

variable [DecidableEq α]

/-- An access to a slot leaves the items alone. -/
theorem slot (handed : HandedOver q memory) (kind : ReleaseAcquire.Access) (thread : RingThread)
    (index : UInt64) (cell : RingCell α → Option α) :
    HandedOver q { memory.access kind thread (.slot index) with cell } where
  untouched item unaccepted kind' :=
    (ReleaseAcquire.Memory.accesses_other (by simp) memory kind kind').trans
      (handed.untouched item unaccepted kind')
  carried found n item before accepted :=
    (ReleaseAcquire.Memory.covers_access (by simp)).mpr (handed.carried found n item before accepted)
  unraced item := by simpa [ReleaseAcquire.Memory.access] using handed.unraced item

/-- The producer touches an item of its own. -/
private theorem touch_producer (handed : HandedOver q memory)
    (coherent : memory.Coherent RingCounter.owner)
    (unaccepted : item ∉ q.items) : HandedOver q (memory.write .producer (.item item) none) := by
  have unraced : memory.Unraced .write .producer (.item item) := by
    refine ReleaseAcquire.Memory.unraced_of_covers (fun u => ?_) _
    cases u with
    | producer => exact coherent.covers_self _ _
    | consumer => exact fun kind => handed.untouched item unaccepted kind ▸ Nat.zero_le _
  refine ⟨fun item' other kind => ?_, fun found n item' before accepted => ?_, fun item' => ?_⟩
  · exact (ReleaseAcquire.Memory.accesses_other (by simp) memory .write kind).trans
      (handed.untouched item' other kind)
  · have different : (RingThread.producer, RingCell.item item') ≠ (.producer, .item item) := by
      rintro ⟨⟩
      exact unaccepted (List.mem_of_getElem? accepted)
    exact (ReleaseAcquire.Memory.covers_access different).mpr
      (handed.carried found n item' before accepted)
  · exact (congrFun (ReleaseAcquire.Memory.raced_access unraced) _).trans (handed.unraced item')

/-- The consumer touches an item that it was given. -/
private theorem touch_consumer {n i : Nat} {message : RingMessage} (handed : HandedOver q memory)
    (coherent : memory.Coherent RingCounter.owner) (given : q.items[n]? = some item)
    (found : (memory.messages .head)[i]? = some message) (before : n < i)
    (seen : message.view ≤ memory.view .consumer) :
    HandedOver q (memory.write .consumer (.item item) none) := by
  have unraced : memory.Unraced .write .consumer (.item item) := by
    refine ReleaseAcquire.Memory.unraced_of_covers (fun u => ?_) _
    cases u with
    | producer => exact (handed.carried found n item before given).mono seen
    | consumer => exact coherent.covers_self _ _
  refine ⟨fun item' unaccepted kind => ?_, fun found n item' before accepted => ?_, fun item' => ?_⟩
  · have different : (RingThread.consumer, RingCell.item item') ≠ (.consumer, .item item) := by
      rintro ⟨⟩
      exact unaccepted (List.mem_of_getElem? given)
    exact (ReleaseAcquire.Memory.accesses_other different memory .write kind).trans
      (handed.untouched item' unaccepted kind)
  · exact (ReleaseAcquire.Memory.covers_access (by simp)).mpr
      (handed.carried found n item' before accepted)
  · exact (congrFun (ReleaseAcquire.Memory.raced_access unraced) _).trans (handed.unraced item')

/-- With orders that synchronise, what the callers may touch keeps the hand-over. -/
theorem move (synchronise : orders.Synchronise) (handed : HandedOver q memory)
    (counts : Counts capacity progress memory) (synced : Synced capacity progress memory)
    (pushed : progress.pushed = q.items.length) (popped : progress.popped = q.taken)
    (more : q.items <+: q'.items)
    (producer : ∀ item, touched = some (.producer, item) → item ∉ q.items)
    (consumer : ∀ item, touched = some (.consumer, item) → ∃ n < q.taken, q.items[n]? = some item)
    (move : RingMove orders capacity touched progress memory progress' memory') :
    HandedOver q' memory' := by
  have stored : (memory.messages .head).length ≤ q.items.length + 1 :=
    Nat.le_of_eq ((counts.stored .head).trans (congrArg (· + 1) pushed))
  have grown := handed.grow stored more
  cases move with
  | stay => exact grown
  | load loaded foreign =>
    obtain ⟨_, _, _, _, rfl⟩ := ReleaseAcquire.Memory.load_cases loaded
    exact ⟨grown.untouched, grown.carried, grown.unraced⟩
  | write item about room => exact grown.slot ..
  | read about unread => exact grown.slot ..
  | publish done room =>
    rw [show orders.pushStore = .release from synchronise.storing .head]
    exact grown.store counts.coherent .head _
  | giveBack done unread =>
    rw [show orders.popStore = .release from synchronise.storing .tail]
    exact grown.store counts.coherent .tail _
  | touch thread item =>
    cases thread with
    | producer =>
      exact (handed.touch_producer counts.coherent (producer item rfl)).grow stored more
    | consumer =>
      obtain ⟨n, before, given⟩ := consumer item rfl
      obtain ⟨message, found, seen⟩ := synced.last counts .consumer .head
      have ahead : n < memory.view .consumer (.inr .head) :=
        Nat.lt_of_lt_of_le (popped ▸ before) counts.ahead
      exact (handed.touch_consumer counts.coherent given found ahead seen).grow stored more

end HandedOver

private theorem Shows.items_grow (shows : Shows capacity q action q') : q.items <+: q'.items := by
  cases action with
  | none =>
    obtain rfl := shows
    exact List.prefix_refl _
  | some action =>
    cases shows with
    | push _ _ _ => exact List.prefix_append _ _
    | full _ _ _ | pop _ _ _ _ | empty _ => exact List.prefix_refl _

/-- Step by step the queue stays the one that the actions describe. -/
theorem Shows.after (shows : Shows capacity q action q')
    (after : Fifo.Delayed.After capacity actions q) :
    Fifo.Delayed.After capacity (actions ++ action.toList) q' := by
  cases action with
  | none =>
    obtain rfl := shows
    rwa [Option.toList_none, List.append_nil]
  | some action => exact after.next shows

/-- The run keeps the hand-over as long as the callers keep to it. -/
private theorem handed_over_run [DecidableEq α] {choices : List (WeakChoice α)}
    {state final : WeakState α}
    {q : Fifo.Delayed α} (power : capacity.toNat = 2 ^ k)
    (synchronise : orders.Synchronise) (holds : WeakHolds capacity state q)
    (synced : Synced capacity (state.progress q) state.memory)
    (after : Fifo.Delayed.After capacity.toNat earlier q) (handed : HandedOver q state.memory)
    (ran : (weakMachine α orders).run choices state = some (actions, final))
    (own : TouchOwn orders earlier choices state) :
    ∀ item, final.memory.raced (.item item) = false := by
  induction choices generalizing state q earlier actions with
  | nil =>
    cases ran
    exact handed.unraced
  | cons choice rest ih =>
    obtain ⟨middle, action, later, stepped, continued, rfl⟩ := Machine.run_cons ran
    obtain ⟨permitted, own'⟩ := own middle action stepped
    obtain ⟨q', shows, move, holds'⟩ := weak_step power holds stepped
    refine ih holds' (synced.move power synchronise holds.counts move) (shows.after after) ?_ continued own'
    refine handed.move synchronise holds.counts synced rfl rfl shows.items_grow (fun item touched => ?_)
      (fun item touched => ?_) move
    · rw [after.items]
      exact permitted _ touched
    · have given : item ∈ Fifo.returned earlier := permitted _ touched
      rw [after.in_order] at given
      obtain ⟨n, inside, rfl⟩ := List.mem_take_iff_getElem.mp given
      exact ⟨n, by omega, List.getElem?_eq_getElem _⟩

end Handover

/-- **An item is handed over with its memory.** If the producer touches what an item points
to only before its push is accepted, and the consumer only after a pop has returned it,
nothing is raced on, in any run. -/
theorem handover_is_race_free [DecidableEq α] {slots : UInt64 → Option α} {capacity : UInt64}
    {start state : WeakState α} {choices : List (WeakChoice α)} {actions : List (Fifo.Action α)}
    (init : weakRingInit slots capacity = some start)
    (ran : (weakMachine α spscOrders).run choices start = some (actions, state))
    (own : TouchOwn spscOrders [] choices start) : ∀ x, state.memory.raced x = false := by
  obtain ⟨⟨k, power⟩, ⟨holds, _⟩, cell, memory⟩ := weakRingInit_settled init
  rintro (index | item)
  · exact slots_unraced spscOrders_synchronise init ran index
  · refine handed_over_run power spscOrders_synchronise holds ?_ (Fifo.Delayed.After.start _) ?_ ran
      own item
    · rw [memory]
      exact Synced.initial ..
    · rw [memory]
      exact HandedOver.initial cell

private theorem touchOwn_step [DecidableEq α] {choice : WeakChoice α}
    (stepped : weakStep orders choice state = some (state', action))
    (permitted : ∀ touched, choice.touched = some touched → Permitted actions touched)
    (rest : TouchOwn orders (actions ++ action.toList) choices state') :
    TouchOwn orders actions (choice :: choices) state := by
  intro state'' action' same
  cases stepped.symm.trans same
  exact ⟨permitted, rest⟩

/-- The producer fills in what it pushes, and the consumer changes what it popped. -/
theorem handover_is_race_free_touched :
    ∃ (start state : WeakState Nat) (actions : List (Fifo.Action Nat)),
    weakRingInit (fun _ => none) 1 = some start ∧
    (weakMachine Nat spscOrders).run [.touch .producer 7, .push 7, .producer 0, .producer 0, .producer 0,
      .producer 0, .pop, .consumer 0, .consumer 1, .consumer 0, .consumer 0, .touch .consumer 7] start =
        some (actions, state) ∧
    actions = [.push 7 true, .pop (some 7)] ∧ ∀ x, state.memory.raced x = false := by
  have init : weakRingInit (fun _ => (none : Option Nat)) 1 = some _ := rfl
  refine ⟨_, _, _, init, rfl, rfl, ?_⟩
  refine handover_is_race_free init
    (rfl : (weakMachine Nat spscOrders).run [.touch .producer 7, .push 7, .producer 0, .producer 0,
      .producer 0, .producer 0, .pop, .consumer 0, .consumer 1, .consumer 0, .consumer 0,
      .touch .consumer 7] _ = some ([.push 7 true, .pop (some 7)], _)) ?_
  apply touchOwn_step rfl
  · rintro _ ⟨⟩
    exact List.not_mem_nil
  iterate 10
    apply touchOwn_step rfl
    · rintro _ ⟨⟩
  apply touchOwn_step rfl
  · rintro _ ⟨⟩
    exact List.mem_singleton.mpr rfl
  · trivial

/-! ## No one order of all calls -/

/-- What the ring shows when every access takes effect at once, it can show. -/
theorem spsc_actions_are_weak [DecidableEq α] {slots : UInt64 → Option α} {capacity : UInt64}
    {ring : SpscRing α} {start : WeakState α} (strict : spscRingInit slots capacity = some ring)
    (init : weakRingInit slots capacity = some start)
    (ran : (spscMachine α).run choices { ring } = some (actions, state)) (orders : RingOrders) :
    ∃ choices' state', (weakMachine α orders).run choices' start = some (actions, state') := by
  obtain ⟨⟨k, power⟩, rfl⟩ := capacity_pow strict
  obtain ⟨queue, trace, _⟩ := (spsc_simulates power).trace (Holds.init slots capacity) ran
  obtain ⟨q, delayed⟩ := Fifo.Delayed.of_fifo (Fifo.Delayed.After.start capacity.toNat) rfl trace
  exact weak_shows orders init delayed

/-- **A ring of more than one slot is not sequentially consistent**: its calls need not be
those of a queue in any order that keeps each thread's own. One slot is enough to make the
threads take turns. -/
theorem ring_sequential_iff [DecidableEq α] {slots : UInt64 → Option α} {capacity : UInt64}
    {start : WeakState α} (init : weakRingInit slots capacity = some start) (item : α) :
    (∀ choices actions state, (weakMachine α spscOrders).run choices start = some (actions, state) →
      Fifo.Sequential capacity.toNat actions) ↔ capacity = 1 := by
  obtain ⟨⟨k, power⟩, ⟨holds, _⟩, _⟩ := weakRingInit_settled init
  constructor
  · intro sequential
    by_contra several
    have many : 2 ≤ capacity.toNat := by
      have positive : 0 < capacity.toNat := power ▸ Nat.two_pow_pos k
      have other : capacity.toNat ≠ 1 := fun one => several (UInt64.toNat_inj.mp one)
      omega
    obtain ⟨actions, q, trace, never⟩ := Fifo.not_sequential many item
    obtain ⟨choices, state, ran⟩ := weak_shows spscOrders init trace
    exact never (sequential choices actions state ran)
  · rintro rfl choices actions state ran
    obtain ⟨q, trace, _⟩ := (weak_simulates spscOrders power).trace holds ran
    exact Fifo.sequential_of_one trace

/-- A ring of one slot behaves as it would under sequential consistency, and one of two does
not. -/
theorem ring_sequential_iff_small : ∃ start start' : WeakState Nat,
    weakRingInit (fun _ => none) 1 = some start ∧ weakRingInit (fun _ => none) 2 = some start' ∧
    (∀ choices actions state, (weakMachine Nat spscOrders).run choices start = some (actions, state) →
      Fifo.Sequential 1 actions) ∧
    ∃ choices actions state, (weakMachine Nat spscOrders).run choices start' = some (actions, state) ∧
      ¬Fifo.Sequential 2 actions := by
  have one : weakRingInit (fun _ => (none : Option Nat)) 1 = some _ := rfl
  have two : weakRingInit (fun _ => (none : Option Nat)) 2 = some _ := rfl
  refine ⟨_, _, one, two, (ring_sequential_iff one 7).mpr rfl, ?_⟩
  by_contra never
  have same : (2 : UInt64) = 1 := (ring_sequential_iff two 7).mp (fun choices actions state ran => by
    by_contra other
    exact never ⟨choices, actions, state, ran, other⟩)
  exact absurd same (by decide)

end H2oTpcc

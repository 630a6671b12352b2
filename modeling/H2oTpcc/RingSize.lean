import H2oTpcc.SpscRing

/-! `spsc_ring_size`, called by the producer, by the consumer or by a thread that only
observes. It loads `head` before `tail`. The thread that owns one of the counters gets a
size; for an observer the consumer may pass the old `head`, and the difference wraps. -/
namespace H2oTpcc

inductive Caller where
  | producer
  | consumer
  | observer
  deriving DecidableEq

/-- Where a thread stands in `spsc_ring_size`, with its copy of `head`. -/
inductive SizeCall where
  | idle
  | called
  | loadedHead (head : UInt64)

structure SizedState (α : Type) where
  spsc : SpscState α
  calls : Caller → SizeCall := fun _ => .idle

/-- A finished operation on the ring, or what a call of `spsc_ring_size` returned. -/
inductive SizedAction (α : Type) where
  | ring (action : Fifo.Action α)
  | size (who : Caller) (value : UInt64)

/-- The next access of `spsc_ring_size`. -/
def spscRingSize (who : Caller) (state : SizedState α) :
    Option (SizedState α × Option (SizedAction α)) :=
  match state.calls who with
  | .idle => none
  | .called =>
    some ({ state with calls := Function.update state.calls who (.loadedHead state.spsc.ring.head) }, none)
  | .loadedHead head =>
    some ({ state with calls := Function.update state.calls who .idle },
      some (.size who (head - state.spsc.ring.tail)))

/-- The thread is in none of the functions. -/
def SizedState.free (state : SizedState α) (who : Caller) : Bool :=
  match state.calls who, who with
  | .idle, .producer => match state.spsc.producer with
    | .idle => true
    | _ => false
  | .idle, .consumer => match state.spsc.consumer with
    | .idle => true
    | _ => false
  | .idle, .observer => true
  | _, _ => false

inductive SizedChoice (α : Type) where
  | push (item : α)
  | pop
  /-- The thread calls `spsc_ring_size`. -/
  | size (who : Caller)
  /-- The thread goes on in `spsc_ring_push` or `spsc_ring_pop`. -/
  | producer
  | consumer
  /-- The thread goes on in `spsc_ring_size`. -/
  | sizing (who : Caller)

/-- The same choice of the ring alone. -/
def SizedState.ring (state : SizedState α) (choice : SpscChoice α) :
    Option (SizedState α × Option (SizedAction α)) :=
  (spscStep choice state.spsc).map fun after => ({ state with spsc := after.1 }, after.2.map .ring)

def sizedStep : SizedChoice α → SizedState α → Option (SizedState α × Option (SizedAction α))
  | .push item, state => if state.free .producer then state.ring (.push item) else none
  | .pop, state => if state.free .consumer then state.ring .pop else none
  | .size who, state =>
    if state.free who then
      some ({ state with calls := Function.update state.calls who .called }, none)
    else none
  | .producer, state => state.ring .producer
  | .consumer, state => state.ring .consumer
  | .sizing who, state => spscRingSize who state

def sizedMachine (α : Type) : Machine (SizedState α) (SizedChoice α) (SizedAction α) where
  step := sizedStep

/-! ## The counters -/

section Counters
variable {state state' : SpscState α} {action : Option (Fifo.Action α)}

/-- `tail` goes up by one with every item that a pop returns. -/
private theorem tail_step (holds : Holds capacity state queue)
    (stepped : spscStep choice state = some (state', action)) :
    state'.ring.tail = state.ring.tail + UInt64.ofNat (Fifo.returned action.toList).length := by
  have unchanged : state.ring.tail = state.ring.tail + UInt64.ofNat 0 := (UInt64.add_zero _).symm
  cases choice with
  | push item =>
    obtain ⟨rfl, rfl⟩ := spscStep_push stepped
    exact unchanged
  | pop =>
    obtain ⟨rfl, rfl⟩ := spscStep_pop stepped
    exact unchanged
  | producer =>
    obtain ⟨_, same, shows⟩ := spscRingPush_shows stepped
    cases action with
    | none => exact same.trans unchanged
    | some shown =>
      obtain ⟨item, accepted, rfl⟩ := shows shown rfl
      exact same.trans unchanged
  | consumer =>
    have knows := holds.consumer
    unfold spscStep spscRingPop at stepped
    cases stage : state.consumer with
    | idle => simp [stage] at stepped
    | loadedTail tail =>
      simp only [stage] at stepped
      split at stepped <;> cases stepped <;> exact unchanged
    | called | ready tail =>
      simp only [stage] at stepped
      cases stepped
      exact unchanged
    | read tail item =>
      rw [stage] at knows
      obtain ⟨rfl, present, _⟩ := knows
      obtain ⟨item, rfl⟩ := Option.ne_none_iff_exists'.mp present
      simp only [stage] at stepped
      cases stepped
      rfl

end Counters

/-! ## What a caller knows -/

/-- What a thread in `spsc_ring_size` knows of the ring: the counter that it stores itself
stands still. -/
def Caller.Knows (capacity : UInt64) (spsc : SpscState α) : Caller → SizeCall → Prop
  | producer, .called => spsc.producer = .idle
  | producer, .loadedHead head => spsc.producer = .idle ∧ head = spsc.ring.head
  | consumer, .called => spsc.consumer = .idle
  | consumer, .loadedHead head =>
    spsc.consumer = .idle ∧ ∃ n ≤ capacity.toNat, head = spsc.ring.tail + UInt64.ofNat n
  | _, _ => True

/-- The ring holds the queue, and every thread that is in `spsc_ring_size` knows of it. -/
structure SizedHolds (capacity : UInt64) (state : SizedState α) (queue : List α) : Prop where
  ring : Holds capacity state.spsc queue
  knows : ∀ who : Caller, who.Knows capacity state.spsc (state.calls who)

/-- The steps of the queue, with the sizes that are told of it. -/
inductive SizedNext (capacity : Nat) : List α → SizedAction α → List α → Prop where
  | ring (next : Fifo.Next capacity queue action queue') : SizedNext capacity queue (.ring action) queue'
  | size (bounded : who ≠ .observer → value.toNat ≤ capacity) :
    SizedNext capacity queue (.size who value) queue

section Simulation
variable {capacity : UInt64} {k : Nat} {state state' : SizedState α} {queue : List α}

private theorem SizedState.free_idle {who : Caller} (free : state.free who = true) :
    state.calls who = .idle := by
  unfold SizedState.free at free
  cases stage : state.calls who with
  | idle => rfl
  | called | loadedHead head =>
    rw [stage] at free
    cases free

/-- A thread that is in none of the functions may call `spsc_ring_size`. -/
private theorem SizedState.free_knows {who : Caller} (free : state.free who = true) :
    who.Knows capacity state.spsc .called := by
  have idle := SizedState.free_idle free
  unfold SizedState.free at free
  rw [idle] at free
  cases who with
  | producer =>
    cases stage : state.spsc.producer <;> simp only [stage, Bool.false_eq_true] at free
    exact stage
  | consumer =>
    cases stage : state.spsc.consumer <;> simp only [stage, Bool.false_eq_true] at free
    exact stage
  | observer => trivial

section Frame
variable {spsc spsc' : SpscState α} {who : Caller} {call : SizeCall} {action : Option (Fifo.Action α)}

private theorem Caller.Knows.producer_frame (knows : Caller.producer.Knows capacity spsc call)
    (stage : spsc'.producer = spsc.producer) (head : spsc'.ring.head = spsc.ring.head) :
    Caller.producer.Knows capacity spsc' call := by
  cases call with
  | idle => trivial
  | called => exact stage.trans knows
  | loadedHead copy => exact ⟨stage.trans knows.1, knows.2.trans head.symm⟩

private theorem Caller.Knows.consumer_frame (knows : Caller.consumer.Knows capacity spsc call)
    (stage : spsc'.consumer = spsc.consumer) (tail : spsc'.ring.tail = spsc.ring.tail) :
    Caller.consumer.Knows capacity spsc' call := by
  cases call with
  | idle => trivial
  | called => exact stage.trans knows
  | loadedHead copy => exact ⟨stage.trans knows.1, tail ▸ knows.2⟩

/-- While the producer is in `spsc_ring_size` it is not in `spsc_ring_push`. -/
theorem Caller.Knows.push (knows : who.Knows capacity spsc call)
    (stepped : spscRingPush spsc = some (spsc', action)) : who.Knows capacity spsc' call := by
  have busy : spsc.producer ≠ .idle := by
    intro idle
    unfold spscRingPush at stepped
    simp [idle] at stepped
  obtain ⟨consumer, tail, _⟩ := spscRingPush_shows stepped
  cases who with
  | producer =>
    cases call with
    | idle => trivial
    | called => exact absurd knows busy
    | loadedHead head => exact absurd knows.1 busy
  | consumer => exact knows.consumer_frame consumer tail
  | observer => trivial

/-- What a caller of `spsc_ring_size` knows stays true while the consumer goes on: `tail` only
grows. -/
theorem Caller.Knows.pop (knows : who.Knows capacity spsc call)
    (stepped : spscRingPop spsc = some (spsc', action)) : who.Knows capacity spsc' call := by
  have busy : spsc.consumer ≠ .idle := by
    intro idle
    unfold spscRingPop at stepped
    simp [idle] at stepped
  obtain ⟨producer, head, _⟩ := spscRingPop_shows stepped
  cases who with
  | producer => exact knows.producer_frame producer head
  | consumer =>
    cases call with
    | idle => trivial
    | called => exact absurd knows busy
    | loadedHead head => exact absurd knows.1 busy
  | observer => trivial

end Frame

/-- After a step, the ring holds the same queue or the one that the action leads to. -/
def SizedStepsTo (capacity : UInt64) (queue : List α) (action : Option (SizedAction α))
    (state' : SizedState α) : Prop :=
  match action with
  | none => SizedHolds capacity state' queue
  | some action => ∃ queue', SizedNext capacity.toNat queue action queue' ∧
    SizedHolds capacity state' queue'

/-- A step of the ring, if the callers keep what they know. -/
private theorem ring_step (power : capacity.toNat = 2 ^ k) (holds : SizedHolds capacity state queue)
    (stepped : state.ring choice = some (state', action))
    (keeps : ∀ spsc' shown, spscStep choice state.spsc = some (spsc', shown) →
      ∀ who : Caller, who.Knows capacity spsc' (state.calls who)) :
    SizedStepsTo capacity queue action state' := by
  obtain ⟨⟨spsc', shown⟩, ran, same⟩ := Option.map_eq_some_iff.mp stepped
  cases same
  have simulates := spsc_simulates (α := α) power
  cases shown with
  | none => exact ⟨simulates.silent holds.ring ran, keeps _ _ ran⟩
  | some action =>
    obtain ⟨queue', next, after⟩ := simulates.visible holds.ring ran
    exact ⟨queue', .ring next, after, keeps _ _ ran⟩

/-- A call that only moves on leaves the other callers alone. -/
private theorem SizedHolds.setCall (holds : SizedHolds capacity state queue) {who : Caller}
    {call : SizeCall}
    (knows : who.Knows capacity state.spsc call) :
    SizedHolds capacity { state with calls := Function.update state.calls who call } queue := by
  refine ⟨holds.ring, fun other => ?_⟩
  by_cases same : other = who
  · subst same
    change other.Knows capacity state.spsc (Function.update state.calls other call other)
    rwa [Function.update_self]
  · change other.Knows capacity state.spsc (Function.update state.calls who call other)
    rw [Function.update_of_ne same]
    exact holds.knows other

/-- The load of `head`, and the difference once `tail` is loaded. -/
private theorem size_step (holds : SizedHolds capacity state queue)
    (stepped : spscRingSize who state = some (state', action)) :
    SizedStepsTo capacity queue action state' := by
  have knows := holds.knows who
  unfold spscRingSize at stepped
  cases stage : state.calls who with
  | idle => simp [stage] at stepped
  | called =>
    rw [stage] at knows
    simp only [stage] at stepped
    cases stepped
    refine holds.setCall ?_
    cases who with
    | producer => exact ⟨knows, rfl⟩
    | consumer => exact ⟨knows, queue.length, holds.ring.bounded, holds.ring.head⟩
    | observer => trivial
  | loadedHead head =>
    rw [stage] at knows
    simp only [stage] at stepped
    cases stepped
    refine ⟨queue, .size fun inside => ?_, holds.setCall (by cases who <;> trivial)⟩
    cases who with
    | producer =>
      obtain ⟨_, rfl⟩ := knows
      rw [holds.ring.size]
      exact holds.ring.bounded
    | consumer =>
      obtain ⟨_, n, bounded, rfl⟩ := knows
      rwa [distance _ bounded]
    | observer => exact absurd rfl inside

/-- The functions together, as the queue. -/
private theorem sized_simulates (power : capacity.toNat = 2 ^ k) :
    (sizedMachine α).Simulates (SizedNext capacity.toNat) (SizedHolds capacity) := by
  have step {choice : SizedChoice α} {state state' : SizedState α} {queue : List α}
      {action : Option (SizedAction α)} (holds : SizedHolds capacity state queue)
      (stepped : sizedStep choice state = some (state', action)) :
      SizedStepsTo capacity queue action state' := by
    cases choice with
    | push item =>
      obtain ⟨free, ran⟩ := Option.ite_none_right_eq_some.mp stepped
      refine ring_step power holds ran fun spsc' shown called who => ?_
      obtain ⟨rfl, -⟩ := spscStep_push called
      cases who with
      | producer => exact SizedState.free_idle free ▸ trivial
      | consumer => exact (holds.knows .consumer).consumer_frame rfl rfl
      | observer => trivial
    | pop =>
      obtain ⟨free, ran⟩ := Option.ite_none_right_eq_some.mp stepped
      refine ring_step power holds ran fun spsc' shown called who => ?_
      obtain ⟨rfl, -⟩ := spscStep_pop called
      cases who with
      | producer => exact (holds.knows .producer).producer_frame rfl rfl
      | consumer => exact SizedState.free_idle free ▸ trivial
      | observer => trivial
    | size who =>
      obtain ⟨free, same⟩ := Option.ite_none_right_eq_some.mp stepped
      cases same
      exact holds.setCall (SizedState.free_knows free)
    | producer => exact ring_step power holds stepped fun spsc' shown ran who => (holds.knows who).push ran
    | consumer => exact ring_step power holds stepped fun spsc' shown ran who => (holds.knows who).pop ran
    | sizing who => exact size_step holds stepped
  exact ⟨step, step⟩

end Simulation

/-! ## What is returned -/

/-- The operations on the ring among the actions. -/
def ringActions (actions : List (SizedAction α)) : List (Fifo.Action α) :=
  actions.filterMap fun
    | .ring action => some action
    | .size _ _ => none

/-- The queue goes on as if nobody asked, and the owners of the counters are told sizes. -/
theorem sized_trace {actions : List (SizedAction α)}
    (trace : Machine.Trace (SizedNext capacity) queue actions queue') :
    Machine.Trace (Fifo.Next capacity) queue (ringActions actions) queue' ∧
      ∀ who value, .size who value ∈ actions → who ≠ .observer → value.toNat ≤ capacity := by
  induction trace with
  | refl => exact ⟨.refl, fun _ _ none => absurd none List.not_mem_nil⟩
  | cons stepped rest ih =>
    obtain ⟨further, bounded⟩ := ih
    cases stepped with
    | ring next =>
      refine ⟨.cons next further, fun who value told => ?_⟩
      rcases List.mem_cons.mp told with impossible | later
      · cases impossible
      · exact bounded who value later
    | size here =>
      refine ⟨further, fun who value told => ?_⟩
      rcases List.mem_cons.mp told with same | later
      · cases same
        exact here
      · exact bounded who value later

/-- Every step is one of the ring, which leaves the calls alone, or one of a call, which
leaves the ring and the other calls alone. -/
theorem sizedStep_cases {state state' : SizedState α} {choice : SizedChoice α}
    {action : Option (SizedAction α)}
    (stepped : sizedStep choice state = some (state', action)) :
    (state'.calls = state.calls ∧ ∃ choice' shown, spscStep choice' state.spsc = some (state'.spsc, shown) ∧
      ringActions action.toList = shown.toList) ∨
    (state'.spsc = state.spsc ∧ ringActions action.toList = [] ∧
      ∃ who, (choice = .sizing who ∨ state.free who = true) ∧
        ∀ other ≠ who, state'.calls other = state.calls other) := by
  have ring {choice'} (ran : state.ring choice' = some (state', action)) :
      state'.calls = state.calls ∧ ∃ choice' shown,
        spscStep choice' state.spsc = some (state'.spsc, shown) ∧
        ringActions action.toList = shown.toList := by
    obtain ⟨⟨spsc', shown⟩, moved, same⟩ := Option.map_eq_some_iff.mp ran
    cases same
    exact ⟨rfl, choice', shown, moved, by cases shown <;> rfl⟩
  cases choice with
  | push item => exact .inl (ring (Option.ite_none_right_eq_some.mp stepped).2)
  | pop => exact .inl (ring (Option.ite_none_right_eq_some.mp stepped).2)
  | producer | consumer => exact .inl (ring stepped)
  | size who =>
    obtain ⟨free, same⟩ := Option.ite_none_right_eq_some.mp stepped
    cases same
    exact .inr ⟨rfl, rfl, who, .inr free, fun other ne => Function.update_of_ne ne ..⟩
  | sizing who =>
    refine .inr ?_
    unfold sizedStep spscRingSize at stepped
    cases stage : state.calls who with
    | idle => simp [stage] at stepped
    | called | loadedHead head =>
      simp only [stage] at stepped
      cases stepped
      exact ⟨rfl, rfl, who, .inl rfl, fun other ne => Function.update_of_ne ne ..⟩

private theorem ringActions_append (earlier later : List (SizedAction α)) :
    ringActions (earlier ++ later) = ringActions earlier ++ ringActions later := List.filterMap_append

/-- The observer has its copy of `head`, and `tail` has counted the items returned. -/
structure Waiting (capacity head tail : UInt64) (actions : List (SizedAction α))
    (state : SizedState α) : Prop where
  holds : ∃ queue, SizedHolds capacity state queue
  copy : state.calls .observer = .loadedHead head
  count : state.spsc.ring.tail = tail + UInt64.ofNat (Fifo.returned (ringActions actions)).length

/-- While the observer waits between its two loads, `tail` counts on with every item that is
returned. -/
theorem Waiting.step (power : capacity.toNat = 2 ^ k) {state state' : SizedState α}
    (waiting : Waiting capacity head tail actions state)
    (stepped : (sizedMachine α).step choice state = some (state', action))
    (waits : choice ≠ .sizing .observer) :
    Waiting capacity head tail (actions ++ action.toList) state' := by
  have simulates := sized_simulates (α := α) power
  obtain ⟨queue, holds⟩ := waiting.holds
  refine ⟨?_, ?_, ?_⟩
  · cases action with
    | none => exact ⟨queue, simulates.silent holds stepped⟩
    | some action =>
      obtain ⟨queue', _, after⟩ := simulates.visible holds stepped
      exact ⟨queue', after⟩
  · rcases sizedStep_cases stepped with ⟨same, _⟩ | ⟨_, _, who, acts, others⟩
    · rw [same, waiting.copy]
    · refine (others .observer ?_).trans waiting.copy
      rintro rfl
      rcases acts with same | free
      · exact waits same
      · have idle := SizedState.free_idle free
        rw [waiting.copy] at idle
        cases idle
  · have sum (more : List (Fifo.Action α)) : (Fifo.returned (ringActions actions ++ more)).length =
        (Fifo.returned (ringActions actions)).length + (Fifo.returned more).length := by
      rw [Fifo.returned, List.filterMap_append, List.length_append]
      rfl
    rw [ringActions_append, sum, UInt64.ofNat_add, ← UInt64.add_assoc, ← waiting.count]
    rcases sizedStep_cases stepped with ⟨_, choice', shown, ran, same⟩ | ⟨same, none, _⟩
    · rw [same]
      exact tail_step holds.ring ran
    · rw [same, none]
      exact (UInt64.add_zero _).symm

/-- The observer, about to load `head`, loads it, then `between` happens, then it loads
`tail` and returns the value. -/
def Observes (state : SizedState α) (between : List (SizedAction α)) (value : UInt64) : Prop :=
  ∃ choices loaded before after, state.calls .observer = .called ∧
    sizedStep (.sizing .observer) state = some (loaded, none) ∧
    .sizing .observer ∉ choices ∧ (sizedMachine α).run choices loaded = some (between, before) ∧
    sizedStep (.sizing .observer) before = some (after, some (.size .observer value))

/-- The difference of a size and of what was popped since, however often it wraps. -/
theorem wrapped_le_iff {capacity : UInt64} {size : Nat} (bounded : size ≤ capacity.toNat)
    (popped : Nat) :
    (UInt64.ofNat size - UInt64.ofNat popped).toNat ≤ capacity.toNat ↔
      ∃ laps, popped ≤ size + laps * 2 ^ 64 ∧ size + laps * 2 ^ 64 ≤ popped + capacity.toNat := by
  have small := capacity.toNat_lt
  rw [UInt64.toNat_sub, UInt64.toNat_ofNat', UInt64.toNat_ofNat']
  constructor
  · intro least
    refine ⟨(popped + (2 ^ 64 - popped % 2 ^ 64 + size % 2 ^ 64) % 2 ^ 64) / 2 ^ 64, ?_, ?_⟩ <;> omega
  · rintro ⟨laps, lower, upper⟩
    omega

private theorem Observes.difference (power : capacity.toNat = 2 ^ k) {state : SizedState α}
    (holds : SizedHolds capacity state queue) (observes : Observes state between value) :
    value = UInt64.ofNat queue.length - UInt64.ofNat (Fifo.returned (ringActions between)).length := by
  obtain ⟨choices, loaded, before, after, called, first, waits, ran, second⟩ := observes
  have loads : (sizedMachine α).step (.sizing .observer) state = some (loaded, none) := first
  have holds' := (sized_simulates power).silent holds loads
  simp only [sizedStep, spscRingSize, called, Option.some.injEq, Prod.mk.injEq, and_true] at first
  subst first
  have copied : Function.update state.calls .observer (.loadedHead state.spsc.ring.head) .observer =
      .loadedHead state.spsc.ring.head := Function.update_self ..
  have start : Waiting capacity state.spsc.ring.head state.spsc.ring.tail [] _ :=
    ⟨⟨queue, holds'⟩, copied, (UInt64.add_zero _).symm⟩
  have others : ∀ choice ∈ choices, choice ≠ .sizing .observer := fun _ member same => waits (same ▸ member)
  have waiting := Machine.run_along (Waiting.step power) start ran
    (Machine.along_of_choices (fun choice member _ _ => others choice member) _)
  rw [List.nil_append] at waiting
  simp only [sizedStep, spscRingSize, waiting.copy] at second
  cases second
  rw [waiting.count, holds.ring.head]
  grind

/-- **Ring size is always a size** for the producer and for the consumer. For an observer
it is one exactly when, between its two loads, no more items are returned than the ring
held at the first; `laps` is 0 unless that is about 2 ^ 64 items. -/
theorem ring_size_bounded_iff {slots : UInt64 → Option α} {capacity : UInt64} {ring : SpscRing α}
    {choices : List (SizedChoice α)} {actions : List (SizedAction α)} {state : SizedState α}
    (init : spscRingInit slots capacity = some ring)
    (ran : (sizedMachine α).run choices { spsc := { ring } } = some (actions, state)) :
    (∀ who value, .size who value ∈ actions → who ≠ .observer → value.toNat ≤ capacity.toNat) ∧
    ∀ between value, Observes state between value →
      let size := (Fifo.unread (ringActions actions)).length
      let popped := (Fifo.returned (ringActions between)).length
      (value.toNat ≤ capacity.toNat ↔
        ∃ laps, popped ≤ size + laps * 2 ^ 64 ∧ size + laps * 2 ^ 64 ≤ popped + capacity.toNat) := by
  obtain ⟨⟨k, power⟩, rfl⟩ := capacity_pow init
  have start : SizedHolds capacity { spsc := { ring := ⟨slots, capacity - 1, 0, 0⟩ } } ([] : List α) :=
    ⟨Holds.init slots capacity, fun who => by cases who <;> trivial⟩
  obtain ⟨queue, trace, holds⟩ := (sized_simulates power).trace start ran
  obtain ⟨ringTrace, bounded⟩ := sized_trace trace
  refine ⟨bounded, fun between value observes => ?_⟩
  rw [Fifo.unread_eq ringTrace, observes.difference power holds]
  exact wrapped_le_iff holds.ring.bounded _

/-- One item is pushed and popped between the two loads of the observer, whose copy of `head` is
then behind `tail`: it is told 2 ^ 64 - 1. -/
theorem observer_size_underflows : ∃ state,
    (sizedMachine Nat).run
      [.size .observer, .sizing .observer, .push 7, .producer, .producer, .producer, .producer,
        .pop, .consumer, .consumer, .consumer, .consumer, .sizing .observer]
      { spsc := { ring := ⟨fun _ => none, 1, 0, 0⟩ } } =
      some ([.ring (.push 7 true), .ring (.pop (some 7)), .size .observer 18446744073709551615], state) :=
  ⟨_, rfl⟩

/-- A ring of two slots that holds one item, and an observer about to load `head`. -/
def observedRing : SizedState Nat where
  spsc := { ring := ⟨Function.update (fun _ => none) 0 (some 7), 1, 1, 0⟩ }
  calls := Function.update (fun _ => .idle) .observer .called

/-- One item is in the ring, and no pop comes between the two loads: the observer is told 1. -/
theorem ring_size_bounded_iff_single :
    spscRingInit (fun _ => (none : Option Nat)) 2 = some ⟨fun _ => none, 1, 0, 0⟩ ∧
    (sizedMachine Nat).run [.push 7, .producer, .producer, .producer, .producer, .size .observer]
      { spsc := { ring := ⟨fun _ => none, 1, 0, 0⟩ } } = some ([.ring (.push 7 true)], observedRing) ∧
    Observes observedRing [] 1 ∧ (1 : UInt64).toNat ≤ (2 : UInt64).toNat := by
  have init : spscRingInit (fun _ => (none : Option Nat)) 2 = some ⟨fun _ => none, 1, 0, 0⟩ := rfl
  have ran : (sizedMachine Nat).run [.push 7, .producer, .producer, .producer, .producer, .size .observer]
      { spsc := { ring := ⟨fun _ => none, 1, 0, 0⟩ } } = some ([.ring (.push 7 true)], observedRing) := rfl
  have observes : Observes observedRing [] 1 := ⟨[], _, _, _, rfl, rfl, List.not_mem_nil, rfl, rfl⟩
  exact ⟨init, ran, observes,
    ((ring_size_bounded_iff init ran).2 [] 1 observes).mpr ⟨0, by decide, by decide⟩⟩

end H2oTpcc

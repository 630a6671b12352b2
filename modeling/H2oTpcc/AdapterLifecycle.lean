import H2oTpcc.AdapterRefinement
import H2oTpcc.DroppedRequests

/-! The requests of the server through the adapter. What was proved of their callbacks holds
of the code below them: futures and wrappers are released once, whatever the callbacks do,
and a request that comes to rest has been answered exactly if nothing in the adapter failed. -/
namespace H2oTpcc
open Ownership

variable {S σ κ K V ρ : Type}

/-! ## Futures and wrappers -/

/-- For any callbacks, in any interleaving, with any failures: no future or wrapper is used
before it was made or after it was released, none is released twice, and when nothing is
left to happen each was released. -/
theorem futures_released_once (chain : Chain S σ κ K V ρ) (parameters : S) (state : Adapter σ κ K V ρ)
    (reachable : Adapter.Reachable chain parameters state) :
    state.misuses = [] ∧
    (∀ future, state.futures.released future ≤ 1) ∧
    (∀ wrapper, state.wrappers.released wrapper ≤ 1) ∧
    (state.AtRest → (∀ future < state.futures.size, state.futures.released future = 1) ∧
      ∀ wrapper < state.wrappers.size, state.wrappers.released wrapper = 1) := by
  obtain ⟨moves, played⟩ := reachable
  have sound := (Adapter.start_sound chain parameters).play played
  refine ⟨sound.unmisused, sound.futures.released_le_one, sound.wrappers.released_le_one,
    fun rest => ⟨?_, ?_⟩⟩
  · intro future inside
    refine sound.futures.released_eq_one inside ?_
    rw [rest.futureHolders]
    exact List.not_mem_nil
  · intro wrapper inside
    refine sound.wrappers.released_eq_one inside ?_
    rw [rest.wrapperHolders]
    exact List.not_mem_nil

/-- A run of moves ends in a state with a property that can be decided. -/
theorem Adapter.exists_played (chain : Chain S σ κ K V ρ) (parameters : S)
    (moves : List (Adapter.Move K V))
    (Outcome : Adapter σ κ K V ρ → Prop) [DecidablePred Outcome]
    (played : ((Adapter.start chain parameters).play chain moves).map
      (fun state => decide (Outcome state)) = some true) :
    ∃ state, (Adapter.start chain parameters).play chain moves = some state ∧ Outcome state := by
  obtain ⟨state, played, outcome⟩ := Option.map_eq_some_iff.mp played
  exact ⟨state, played, of_decide_eq_true outcome⟩

/-- Each activation runs to its end before the next future becomes ready, with `first` as
the answers to the entry point. -/
def through (first : AdapterAnswers) (futures : List (Future Bytes Bytes)) :
    List (Adapter.Move Bytes Bytes) :=
  List.replicate 40 (.run 0 first) ++
    (futures.zipIdx 1).flatMap fun (future, i) => .fire 0 future :: List.replicate 40 (.run i {})

/-- At rest, after so many answers, with one future and one wrapper made. -/
def Adapter.OneMade (answers : Nat) (state : Adapter σ κ K V ρ) : Prop :=
  state.AtRest ∧ state.core.sent.length = answers ∧ state.futures.size = 1 ∧ state.wrappers.size = 1

instance (answers : Nat) (state : Adapter σ κ K V ρ) : Decidable (state.OneMade answers) :=
  inferInstanceAs (Decidable (_ ∧ _))

/-- A read that is answered, and one whose callback cannot be set: both leave nothing behind. -/
theorem futures_released_once_read :
    (∃ state, (Adapter.start (dbChain plainPlatform) ()).play (dbChain plainPlatform)
        (through {} [.value (some [0, 0, 0, 7])]) = some state ∧ state.OneMade 1 ∧
      state.futures.released 0 = 1 ∧ state.wrappers.released 0 = 1) ∧
    (∃ state, (Adapter.start (dbChain plainPlatform) ()).play (dbChain plainPlatform)
        (through { set := false } []) = some state ∧ state.OneMade 0 ∧
      state.futures.released 0 = 1 ∧ state.wrappers.released 0 = 1) := by
  constructor
  · obtain ⟨state, played, made⟩ := Adapter.exists_played (dbChain plainPlatform) ()
      (through {} [.value (some [0, 0, 0, 7])]) (Adapter.OneMade 1) (by decide +kernel)
    have released := (futures_released_once _ _ state ⟨_, played⟩).2.2.2 made.1
    refine ⟨state, played, made, released.1 0 ?_, released.2 0 ?_⟩
    · simp [made.2.2.1]
    · simp [made.2.2.2]
  · obtain ⟨state, played, made⟩ := Adapter.exists_played (dbChain plainPlatform) ()
      (through { set := false } []) (Adapter.OneMade 0) (by decide +kernel)
    have released := (futures_released_once _ _ state ⟨_, played⟩).2.2.2 made.1
    refine ⟨state, played, made, released.1 0 ?_, released.2 0 ?_⟩
    · simp [made.2.2.1]
    · simp [made.2.2.2]

/-! ## The discipline through the adapter -/

/-- One request, one answer: in every state of the code. -/
structure Adapter.WellBehaved (Bound : Nat → Prop) (state : Adapter σ κ K V ρ) : Prop where
  one_future : state.registered.length ≤ 1
  /-- After the context is freed no callback can start. -/
  quiet : state.core.memory = .freed → state.registered = []
  /-- Nothing touches a context, a transaction, a future or a wrapper that is not there. -/
  no_fault : state.core.faults = []
  no_misuse : state.misuses = []
  sent_once : state.core.sent.length ≤ 1
  destroyed_once : state.core.destroyed ≤ 1
  freed_once : state.core.freed ≤ 1
  in_bounds : ∀ access ∈ state.core.accesses, access.1 < access.2 ∧ Bound access.2

section Chains
variable {chain : Chain S σ κ K V ρ} {parameters : S} {At : κ → σ → Prop} {Bound : Nat → Prop}
  {state : Adapter σ κ K V ρ}

/-- The database has as many futures of the request as are outstanding in the request machine. -/
theorem Adapter.Shows.length {outstanding : List (Operation K × κ)} (shows : state.Shows outstanding) :
    state.registered.length = outstanding.length := by
  have same := congrArg List.length shows.waiting
  rwa [List.length_map, List.length_map] at same

private theorem Chain.Disciplined.adapter (disciplined : chain.Disciplined parameters At Bound)
    (reachable : Adapter.Reachable chain parameters state) : state.WellBehaved Bound := by
  obtain ⟨moves, played⟩ := reachable
  have sound := Adapter.start_sound chain parameters
  have shows := Adapter.start_shows chain parameters
  have behaves : ∀ moves request, Request.play chain { frames := [chain.entry parameters] } moves =
      some request → request.WellBehaved Bound :=
    fun moves request played => disciplined.wellBehaved (Request.Reachable.play .refl moves played)
  obtain ⟨moves', outstanding, faults, followed, shown, _⟩ := shows.play sound [] played
  have behaved := behaves moves' _ followed
  have length := shown.length
  refine ⟨length ▸ behaved.one_future, ?_, ?_, (sound.play played).unmisused, behaved.sent_once,
    behaved.destroyed_once, behaved.freed_once, behaved.in_bounds⟩
  · intro freed
    have none : outstanding = [] := behaved.quiet freed
    rw [none] at length
    exact List.eq_nil_of_length_eq_zero length
  · exact shows.faultless sound rfl []
      (fun moves request played => (behaves moves request played).no_fault) played

/-- What comes to rest in the adapter is at rest in the request machine, so that what is proved
there of requests at rest holds here. -/
theorem Adapter.AtRest.request {outstanding : List (Operation K × κ)} (rest : state.AtRest)
    (shows : state.Shows outstanding) (faults : List Fault) :
    (state.request outstanding faults).AtRest := by
  refine ⟨?_, fun frame member => ?_⟩
  · have length := shows.length
    rw [rest.idle] at length
    exact List.eq_nil_of_length_eq_zero length.symm
  · obtain ⟨activation, listed, rfl⟩ := List.mem_map.mp member
    have ended := rest.ended activation listed
    cases activation with
    | returned => rfl
    | _ => cases ended

private theorem Adapter.AtRest.not_failing (rest : state.AtRest) : state.failing = false := by
  apply List.any_eq_false.mpr
  intro activation member
  have ended := rest.ended activation member
  cases activation with
  | returned => exact Bool.false_ne_true
  | _ => cases ended

/-- A request at rest has its answer and has released everything exactly if every future was
created, every wrapper allocated and every callback set. -/
def Chain.SettlesUnlessFailed (chain : Chain S σ κ K V ρ) (parameters : S) : Prop :=
  ∀ moves state, (Adapter.start chain parameters).play chain moves = some state → state.AtRest →
    (state.core.Settled ↔ (Adapter.start chain parameters).failed chain moves = false)

private theorem Chain.SettlesUnlessRefused.adapter (settles : chain.SettlesUnlessRefused parameters) :
    chain.SettlesUnlessFailed parameters := by
  intro moves state played rest
  obtain ⟨moves', outstanding, faults, followed, shown, flag⟩ :=
    (Adapter.start_shows chain parameters).play (Adapter.start_sound chain parameters) [] played
  have settled := settles moves' _ followed (rest.request shown faults)
  have same : (Adapter.start chain parameters).failed chain moves =
      Request.refused chain { frames := [chain.entry parameters] } moves' := by
    rw [rest.not_failing, Bool.or_false] at flag
    exact (flag.trans (Bool.or_false _)).symm
  rw [same, ← settled]
  exact ⟨fun settled => ⟨settled.answered, settled.destroyed, settled.freed⟩,
    fun settled => ⟨settled.answered, settled.destroyed, settled.freed⟩⟩

end Chains

/-! ## Every request -/

/-- The seven kinds of requests behave through the adapter as they do in the request machine:
one answer, every release once, and nothing used that is not there, in every state and every
interleaving of their callbacks with the adapter's own statements. -/
theorem one_answer_through_adapter (P : Platform) :
    (∀ request state, Adapter.Reachable (newOrderChain P) request state →
      state.WellBehaved fun bound => bound = request.val.olCnt.toNat ∧ bound ≤ maxOrderLines) ∧
    (∀ params state, Adapter.Reachable (paymentChain P) params state →
      state.WellBehaved fun _ => False) ∧
    (∀ seed state, Adapter.Reachable (orderStatusChain P) seed state →
      state.WellBehaved fun _ => False) ∧
    (∀ seed state, Adapter.Reachable (deliveryChain P) seed state →
      state.WellBehaved fun _ => False) ∧
    (∀ seed state, Adapter.Reachable (stockLevelChain P) seed state →
      state.WellBehaved fun _ => False) ∧
    (∀ state, Adapter.Reachable (dbChain P) () state → state.WellBehaved fun _ => False) ∧
    (∀ parameter state, Adapter.Reachable (updatesChain P) parameter state →
      state.WellBehaved fun bound => bound = getQueryNumber parameter) :=
  ⟨fun request _ reachable => (NewOrder.disciplined P request).adapter reachable,
    fun params _ reachable => (Payment.disciplined P params).adapter reachable,
    fun seed _ reachable => (OrderStatus.disciplined P seed).adapter reachable,
    fun seed _ reachable => (Delivery.disciplined P seed).adapter reachable,
    fun seed _ reachable => (StockLevel.disciplined P seed).adapter reachable,
    fun _ reachable => (SingleQuery.disciplined P).adapter reachable,
    fun parameter _ reachable => (Update.disciplined P parameter).adapter reachable⟩

/-- How many answers were sent, transactions destroyed, contexts freed, futures destroyed. -/
def Adapter.tally (state : Adapter σ κ K V ρ) : Nat × Nat × Nat × Nat :=
  (state.core.sent.length, state.core.destroyed, state.core.freed,
    (state.futures.cells.map Prod.snd).sum)

private theorem reachable_through (chain : Chain S σ κ Bytes Bytes ρ) (parameters : S)
    (futures : List (Future Bytes Bytes))
    (played : ((Adapter.start chain parameters).play chain (through {} futures)).map Adapter.tally =
      some (1, 1, 1, futures.length)) :
    ∃ state, Adapter.Reachable chain parameters state ∧ state.tally = (1, 1, 1, futures.length) := by
  obtain ⟨state, played, counted⟩ := Option.map_eq_some_iff.mp played
  exact ⟨state, ⟨_, played⟩, counted⟩

/-- Requests of each kind run to their end through the adapter, and are answered once. -/
theorem one_answer_through_adapter_served :
    (∃ state, Adapter.Reachable (newOrderChain plainPlatform) (smallOrder 1 (by decide)) state ∧
      state.tally = (1, 1, 1, 3) ∧ state.WellBehaved fun bound => bound = 1 ∧ bound ≤ maxOrderLines) ∧
    (∃ state, Adapter.Reachable (paymentChain plainPlatform) (smallPayment 1) state ∧
      state.tally = (1, 1, 1, 3) ∧ state.WellBehaved fun _ => False) ∧
    (∃ state, Adapter.Reachable (orderStatusChain plainPlatform) 7 state ∧
      state.tally = (1, 1, 1, 1) ∧ state.WellBehaved fun _ => False) ∧
    (∃ state, Adapter.Reachable (deliveryChain plainPlatform) 7 state ∧
      state.tally = (1, 1, 1, 1) ∧ state.WellBehaved fun _ => False) ∧
    (∃ state, Adapter.Reachable (stockLevelChain plainPlatform) 7 state ∧
      state.tally = (1, 1, 1, 1) ∧ state.WellBehaved fun _ => False) ∧
    (∃ state, Adapter.Reachable (dbChain plainPlatform) () state ∧
      state.tally = (1, 1, 1, 1) ∧ state.WellBehaved fun _ => False) ∧
    (∃ state, Adapter.Reachable (updatesChain plainPlatform) (some 1) state ∧
      state.tally = (1, 1, 1, 2) ∧ state.WellBehaved fun bound => bound = 1) := by
  obtain ⟨order, payment, orderStatus, delivery, stockLevel, db, updates⟩ :=
    one_answer_through_adapter plainPlatform
  refine ⟨?_, ?_, ?_, ?_, ?_, ?_, ?_⟩
  · obtain ⟨state, reached, counted⟩ := reachable_through (newOrderChain plainPlatform)
      (smallOrder 1 (by decide)) [.error 1020, .done, .value none] (by decide +kernel)
    exact ⟨state, reached, counted, order _ state reached⟩
  · obtain ⟨state, reached, counted⟩ := reachable_through (paymentChain plainPlatform)
      (smallPayment 1) [.error 1020, .done, .value none] (by decide +kernel)
    exact ⟨state, reached, counted, payment _ state reached⟩
  · obtain ⟨state, reached, counted⟩ := reachable_through (orderStatusChain plainPlatform)
      7 [.error 1020] (by decide +kernel)
    exact ⟨state, reached, counted, orderStatus 7 state reached⟩
  · obtain ⟨state, reached, counted⟩ := reachable_through (deliveryChain plainPlatform)
      7 [.done] (by decide +kernel)
    exact ⟨state, reached, counted, delivery 7 state reached⟩
  · obtain ⟨state, reached, counted⟩ := reachable_through (stockLevelChain plainPlatform)
      7 [.rows [] false] (by decide +kernel)
    exact ⟨state, reached, counted, stockLevel 7 state reached⟩
  · obtain ⟨state, reached, counted⟩ := reachable_through (dbChain plainPlatform)
      () [.value (some [0, 0, 0, 7])] (by decide +kernel)
    exact ⟨state, reached, counted, db state reached⟩
  · obtain ⟨state, reached, counted⟩ := reachable_through (updatesChain plainPlatform)
      (some 1) [.value none, .done] (by decide +kernel)
    exact ⟨state, reached, counted, updates _ state reached⟩

/-- A request that comes to rest was answered and has released its transaction and context
exactly if nothing in the adapter failed on the way: no future was refused, no `malloc` and no
`fdb_future_set_callback` failed. -/
theorem settled_through_adapter_iff (P : Platform) :
    (∀ request, (newOrderChain P).SettlesUnlessFailed request) ∧
    (∀ params, (paymentChain P).SettlesUnlessFailed params) ∧
    (∀ seed, (stockLevelChain P).SettlesUnlessFailed seed) ∧
    (dbChain P).SettlesUnlessFailed () ∧
    (∀ parameter, (updatesChain P).SettlesUnlessFailed parameter) :=
  ⟨fun request => ((NewOrder.disciplined P request).settles (NewOrder.concluding P request)).adapter,
    fun params => ((Payment.disciplined P params).settles (Payment.concluding P params)).adapter,
    fun seed => ((StockLevel.disciplined P seed).settles (StockLevel.concluding P seed)).adapter,
    ((SingleQuery.disciplined P).settles (SingleQuery.concluding P)).adapter,
    fun parameter => ((Update.disciplined P parameter).settles (Update.concluding P parameter)).adapter⟩

/-- A payment that is retried and served to its end, and one that stops in the middle because
`malloc` fails: it is at rest, and not settled. -/
theorem settled_through_adapter_iff_payment :
    (∃ state, (Adapter.start (paymentChain plainPlatform) (smallPayment 1)).play
        (paymentChain plainPlatform) (through {} [.error 1020, .done, .value none]) = some state ∧
      state.AtRest ∧ state.core.Settled) ∧
    (∃ state, (Adapter.start (paymentChain plainPlatform) (smallPayment 1)).play
        (paymentChain plainPlatform) (through { wrapper := false } []) = some state ∧
      state.AtRest ∧ ¬ state.core.Settled) := by
  have payment := (settled_through_adapter_iff plainPlatform).2.1 (smallPayment 1)
  constructor
  · obtain ⟨state, played, rest⟩ := Adapter.exists_played (paymentChain plainPlatform) (smallPayment 1)
      (through {} [.error 1020, .done, .value none]) Adapter.AtRest (by decide +kernel)
    exact ⟨state, played, rest, (payment _ state played rest).mpr (by decide +kernel)⟩
  · obtain ⟨state, played, rest⟩ := Adapter.exists_played (paymentChain plainPlatform) (smallPayment 1)
      (through { wrapper := false } []) Adapter.AtRest (by decide +kernel)
    refine ⟨state, played, rest, fun settled => ?_⟩
    have unfailed := (payment _ state played rest).mp settled
    exact absurd unfailed (by decide +kernel)

end H2oTpcc

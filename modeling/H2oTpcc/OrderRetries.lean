import H2oTpcc.OrderIds
import H2oTpcc.RequestEffects

/-! Retries of an order. All attempts share one context and a restart clears only
`current_ol`; still, what an attempt commits is what a fresh order with the same
parameters, reading the same version and the same clock, would have committed. -/
namespace H2oTpcc

namespace NewOrder
variable {P : Platform} {request : NewOrderRequest}

/-! ## What an order sets is determined -/

/-- Two contexts with the same parameters, filled from the same tables, describe the same
order. -/
theorem ReadFrom.rows_eq {ctx ctx' : NewOrderCtx} {tables : Key → Option Bytes}
    (same : ctx.params = ctx'.params) (read : ReadFrom P ctx ctx.olCnt.toNat tables)
    (read' : ReadFrom P ctx' ctx'.olCnt.toNat tables) (now : Int64) :
    ctx.dNextOId = ctx'.dNextOId ∧ rows P ctx now = rows P ctx' now := by
  obtain ⟨_, w, d, c, lines, supply, item, quantity, allLocal⟩ := NewOrderParams.mk.injEq .. ▸ same
  have id : ctx.dNextOId = ctx'.dNextOId := by
    obtain ⟨dv, row, next⟩ := read.district
    obtain ⟨dv', row', next'⟩ := read'.district
    rw [← w, ← d, row] at row'
    cases row'
    rw [next, next']
  have line : ∀ i ∈ List.range ctx.olCnt.toNat,
      ctx.sQuantity i = ctx'.sQuantity i ∧ ctx.sAmount i = ctx'.sAmount i := by
    intro i member
    have below := List.mem_range.mp member
    obtain ⟨sv, row, left, amount⟩ := read.stock i below
    obtain ⟨sv', row', left', amount'⟩ := read'.stock i (lines ▸ below)
    rw [← supply, ← item, row] at row'
    cases row'
    rw [left, left', amount, amount', quantity]
    exact ⟨rfl, rfl⟩
  refine ⟨id, ?_⟩
  have orderLines : ∀ i ∈ List.range ctx.olCnt.toNat, orderLineVal ctx i = orderLineVal ctx' i := by
    intro i member
    simp only [orderLineVal, (line i member).2, supply, item, quantity]
  have stocks : ∀ i ∈ List.range ctx.olCnt.toNat, stockVal ctx i = stockVal ctx' i := by
    intro i member
    simp only [stockVal, (line i member).1, quantity]
  have header : oorderVal ctx now = oorderVal ctx' now := by
    simp only [oorderVal, c, lines, allLocal]
  simp only [rows, header, ← w, ← d, ← id, ← supply, ← item, ← lines]
  refine congrArg₂ (· ++ ·) (congrArg₂ (· ++ ·) (congrArg₂ (· ++ ·) rfl ?_) rfl) ?_
  · exact List.map_congr_left fun i member => by rw [orderLines i member]
  · exact List.map_congr_left fun i member => by rw [stocks i member]

/-- A context filled from a version is filled again in the same way by an order that
reads, undisturbed, from that version. -/
theorem ReadFrom.quiet (now : Int64) {ctx : NewOrderCtx} {view : Bytes → Option Bytes}
    (read : ReadFrom P ctx ctx.olCnt.toNat (tablesOf P.host view)) (own : ctx.params = request.val) :
    ∃ fresh, (newOrderChain P).client.Quiet { now } view ((newOrderChain P).start request { now }) []
        fresh (built P.host (rows P ctx now)) ∧
      fresh.pending = some (.commit, .onCommit) ∧ fresh.ctx.dNextOId = ctx.dNextOId := by
  obtain ⟨params, fits⟩ := request
  subst own
  have started := start_waits P ⟨ctx.params, fits⟩ now
  obtain ⟨dv, district, _⟩ := read.district
  have supplied : Supplied P ctx.params.ctx dv (tablesOf P.host view) :=
    ⟨fits, district, read.customer, fun i below => (read.stock i below).imp fun _ row => row.1⟩
  obtain ⟨fresh, cDiscount, sQuantity, sAmount, quiet, pending, _, filled⟩ :=
    quiet_order { now } view rfl ((newOrderChain P).start ⟨ctx.params, fits⟩ { now })
      (by rw [started]; exact supplied) (by rw [started]; rfl)
  -- The fresh order knows as much about the view as any order that waits for its commit.
  obtain ⟨attempt, holds, writes, agrees⟩ := quiet.invariant (localInvariant P)
    ((localInvariant P).start _ _) rfl (by simp)
  obtain ⟨_, read', _⟩ := commit_meaning P fresh attempt holds (by simp [Chain.client, pending]) view agrees
  have same : ctx.params = fresh.ctx.params := by
    rw [filled, started]
    rfl
  obtain ⟨id, rows⟩ := read.rows_eq same read' now
  exact ⟨fresh, rows ▸ quiet, pending, id.symm⟩

end NewOrder

/-! ## Retries -/

/-- **Retries of an order are transparent.** Whatever the other clients do and however
often the order was retried: what it commits, and the id it reports, are those of a
fresh order with the same parameters and clock that runs undisturbed on the version
that the committing attempt has read. -/
theorem order_retries_transparent {P : Platform} {T M : Type} (other : Client T M Bytes Bytes)
    {base : Store Bytes Bytes} {events : List (Event (NewOrderRequest ⊕ T))}
    {world world' : World _ Bytes Bytes} {request : NewOrderRequest} {answers answers' : Answers}
    {session : Session NewOrderCtx NewOrderCallback Bytes Bytes Response}
    {attempt : Attempt Bytes Bytes}
    (ran : (World.initial base).run ((newOrderChain P).client.sum other) events = some world)
    (noted : (requests events)[i]? = some (.inl request, answers))
    (found : world.connections[i]? = some ⟨.inl session, attempt⟩)
    (committed : world.step ((newOrderChain P).client.sum other) (.settle i .committed answers') =
      some world') :
    ∃ version fresh, ∃ oId : Int32, attempt.version = some version ∧
      (newOrderChain P).client.Quiet { now := answers.now } (fun key => (world.db.asOf version)[key]?)
        ((newOrderChain P).start request { now := answers.now }) [] fresh attempt.writes ∧
      fresh.pending = some (.commit, .onCommit) ∧
      world'.db = world.db.append ⟨(i, .inl session), attempt.writes⟩ ∧
      world'.connections[i]?.map (·.client) =
        some (.inl ((newOrderChain P).resume answers' session .done)) ∧
      ((newOrderChain P).resume answers' session .done).reply =
        some (.json (.map [("status", .str "ok"), ("o_id", .int oId.toInt)])) ∧
      ((newOrderChain P).resume { now := answers.now } fresh .done).reply =
        some (.json (.map [("status", .str "ok"), ("o_id", .int oId.toInt)])) := by
  have invariant := (NewOrder.localInvariant P).sum (.nothing other)
  obtain ⟨holds, faithful⟩ :=
    World.reachable_connections invariant ⟨events, ran⟩ _ (List.mem_of_getElem? found)
  obtain ⟨inputs, here, request', time⟩ : ∃ inputs, (history events).inputs[i]? = some inputs ∧
      inputs.parameters = .inl request ∧ inputs.latest = answers := by
    simpa [requests_eq] using noted
  obtain ⟨_, same, serving⟩ := Inputs.Either.of_inl
    ((World.run_kept (NewOrder.requestInvariant.sum (.nothing other)) ran).connection i _ inputs found here)
  cases request'.symm.trans same
  rcases World.step_cases committed with ⟨_, _, impossible, _⟩ |
    ⟨j, verdict, answers', connection, operation, attempt', future, event, found', asks, settles, after⟩
  · cases impossible
  cases event
  cases found.symm.trans found'
  obtain ⟨rfl, grown, rfl, rfl⟩ := settles.of_committed
  obtain ⟨waiting, own, writes⟩ := NewOrder.Serving.commit serving asks
  rw [show Inputs.latest ⟨request, inputs.answers⟩ = answers from time] at writes
  have known := (NewOrder.commit_meaning P session _ holds asks).mono fun _ commits => commits.2.1
  obtain ⟨version, chosen, read⟩ := known.version faithful fun read => by
    obtain ⟨dv, row, _⟩ := read.district
    cases row
  obtain ⟨fresh, quiet, pending, id⟩ := read.quiet answers.now own
  refine ⟨version, fresh, session.ctx.dNextOId, chosen, writes ▸ quiet, pending, grown, ?_,
    NewOrder.resume_committed _ _ _ waiting, ?_⟩
  · obtain ⟨inside, _⟩ := List.getElem?_eq_some_iff.mp found
    simp [after, inside, Client.sum, Chain.client]
  · rw [NewOrder.resume_committed _ _ _ pending, id]

/-- A small order whose first read has failed, and that was reset. -/
private theorem small_order_reset : ∃ world session,
    (World.initial smallLoaded).run (tpccClient plainPlatform)
      [.start (.inl (smallOrder 1 (by decide))) {}, .settle 0 (.failed 1020) {}, .settle 0 .reset {}] =
        some world ∧
    world.db = (World.initial smallLoaded : TpccWorld).db ∧
    world.connections[0]? = some ⟨.inl session, {}⟩ ∧ session.ctx = (smallOrder 1 (by decide)).val.ctx ∧
    session.pending = some (.get (kvDistrictKey session.ctx.wId session.ctx.dId), .onDistrictRead) :=
  ⟨_, _, rfl, rfl, rfl, rfl, rfl⟩

/-- That order, which was retried after a conflict, commits what a fresh one would have, and its
`o_id` is 3001. -/
theorem order_retries_transparent_reset :
    ∃ events session attempt version fresh, ∃ world world' : TpccWorld,
    (World.initial smallLoaded).run (tpccClient plainPlatform) events = some world ∧
    .settle 0 (.failed 1020) {} ∈ events ∧
    world.connections[0]? = some ⟨.inl session, attempt⟩ ∧
    world.step (tpccClient plainPlatform) (.settle 0 .committed {}) = some world' ∧
    attempt.version = some version ∧
    (newOrderChain plainPlatform).client.Quiet {} (fun key => (world.db.asOf version)[key]?)
      ((newOrderChain plainPlatform).start (smallOrder 1 (by decide)) {}) [] fresh attempt.writes ∧
    world'.db = world.db.append ⟨(0, .inl session), attempt.writes⟩ ∧
    ((newOrderChain plainPlatform).resume {} fresh .done).reply =
      some (.json (.map [("status", .str "ok"), ("o_id", .int 3001)])) := by
  obtain ⟨reset, session, ran, unchanged, found, ctx, waiting⟩ := small_order_reset
  obtain ⟨dv, id, supplied⟩ := smallOrder_supplied 1 (by decide)
  rw [← World.initial_store (L := TpccState) smallLoaded, ← unchanged, ← ctx] at supplied
  obtain ⟨ready, _, _, _, quiet, pending, _, filled⟩ :=
    NewOrder.quiet_order {} (fun key => reset.db.store[key]?) rfl session supplied waiting
  obtain ⟨reads, world, attempt, ran', same, here, only, _, newest⟩ :=
    World.run_quiet (quiet.inl (paymentChain plainPlatform).client) found rfl
      (fun _ chosen => by cases chosen)
  have asks : (tpccClient plainPlatform).pending (.inl ready) = some .commit := by
    simp [tpccClient, Client.sum, Chain.client, pending]
  have settled : settle world.db (0, .inl ready) attempt .commit .committed =
      some (world.db.append ⟨(0, .inl ready), attempt.writes⟩, attempt, .done) := by
    simp [settle, same, newest.clear]
  obtain ⟨world', stepped, _⟩ := World.step_settle {} here asks settled
  have whole := World.run_trans ran ran'
  have noted : requests ([.start (.inl (smallOrder 1 (by decide))) {}, .settle 0 (.failed 1020) {},
      .settle 0 .reset {}] ++ reads) = [(.inl (smallOrder 1 (by decide)), {})] :=
    requests_single rfl fun event member =>
      (only event member).elim fun version read => ⟨.read version, read⟩
  obtain ⟨version, fresh, oId, chosen, again, _, grown, _, told, told'⟩ :=
    order_retries_transparent (paymentChain plainPlatform).client whole (by rw [noted]; rfl) here stepped
  refine ⟨_, ready, attempt, version, fresh, world, world', whole, by simp, here, stepped, chosen, again,
    grown, ?_⟩
  rw [told', ← told, NewOrder.resume_committed _ _ _ pending, filled, id]
  rfl

end H2oTpcc

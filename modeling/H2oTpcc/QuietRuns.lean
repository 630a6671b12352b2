import H2oTpcc.TransactionSystem

/-! Runs in which nothing goes wrong. A client left alone with the current store
gets every read answered from it; such a stretch of the client's own behaviour can
be played in any world, and a commit asked for at its end succeeds. -/
namespace H2oTpcc
variable {S L T M K V : Type}

/-- The client reads, undisturbed, from one view; the lists are the sets it has
buffered before and after. -/
inductive Client.Quiet (client : Client S L K V) (answers : Answers) (view : K → Option V) :
    L → List (K × V) → L → List (K × V) → Prop where
  | refl : Quiet client answers view state sets state sets
  | read (asks : client.pending state = some (.get key))
      (rest : Quiet client answers view (client.resume answers state (.value (view key))).1
        (client.resume answers state (.value (view key))).2 state' sets') :
      Quiet client answers view state [] state' sets'

/-- A client that runs within another is left alone where that one is. -/
theorem Client.Quiet.embed {small : Client S L K V} {large : Client T M K V} {embed : L → M}
    (pending : ∀ state, large.pending (embed state) = small.pending state)
    (resume : ∀ state future, large.resume answers (embed state) future =
      (embed (small.resume answers state future).1, (small.resume answers state future).2))
    (quiet : small.Quiet answers view state sets state' sets') :
    large.Quiet answers view (embed state) sets (embed state') sets' := by
  induction quiet with
  | refl => exact .refl
  | read asks _ ih =>
    refine .read ((pending _).trans asks) ?_
    rw [resume]
    exact ih

theorem Client.Quiet.inl {left : Client S L K V} (right : Client T M K V)
    (quiet : left.Quiet answers view state sets state' sets') :
    (left.sum right).Quiet answers view (.inl state) sets (.inl state') sets' :=
  quiet.embed (fun _ => rfl) fun _ _ => rfl

theorem Client.Quiet.inr (left : Client S L K V) {right : Client T M K V}
    (quiet : right.Quiet answers view state sets state' sets') :
    (left.sum right).Quiet answers view (.inr state) sets (.inr state') sets' :=
  quiet.embed (fun _ => rfl) fun _ _ => rfl

/-- A chain waiting for a read goes on with what its callback leaves. -/
theorem Chain.quiet_read (chain : Chain S σ κ K V ρ) {session after : Session σ κ K V ρ} {key : K}
    {callback : κ} (waiting : session.pending = some (.get key, callback))
    (ran : (chain.body callback (.value (view key))).run answers
      { session with pending := none, sets := [] } = ((), after))
    (rest : chain.client.Quiet answers view after after.sets state' sets') :
    chain.client.Quiet answers view session [] state' sets' := by
  have resumed : chain.resume answers session (.value (view key)) = after := by
    simp only [Chain.resume, waiting, ran]
  have asks : chain.client.pending session = some (.get key) := by simp [Chain.client, waiting]
  refine .read asks ?_
  simpa [Chain.client, resumed] using rest

variable [Ord K] [Std.TransOrd K] [DecidableEq K]

/-- The attempt reads from the newest version. -/
def Attempt.Current (attempt : Attempt K V) (db : Database K V A) : Prop :=
  ∀ version, attempt.version = some version → version = db.log.length

omit [Std.TransOrd K] [DecidableEq K] in
/-- Who has read the newest version only has no conflict. -/
theorem Attempt.Current.clear {attempt : Attempt K V} {db : Database K V A}
    (current : attempt.Current db) : ¬ attempt.Conflicts db := by
  rintro ⟨version, chosen, _, _, commit, later, _⟩
  rw [current version chosen, List.drop_length] at later
  cases later

namespace World
variable {client : Client S L K V} {world : World L K V} {i : Nat}

/-- A settlement that the database allows can be played, and this is the world after it. -/
theorem step_settle (answers : Answers) (found : world.connections[i]? = some ⟨state, attempt⟩)
    (asks : client.pending state = some operation)
    (settled : settle world.db (i, state) attempt operation verdict = some (db', attempt', future)) :
    ∃ world', world.step client (.settle i verdict answers) = some world' ∧ world'.db = db' ∧
      world'.connections[i]? = some
        { client := (client.resume answers state future).1
          attempt := { attempt' with
            writes := attempt'.writes ++ (client.resume answers state future).2 } } := by
  obtain ⟨inside, _⟩ := List.getElem?_eq_some_iff.mp found
  refine ⟨{
    db := db'
    connections := world.connections.set i
      { client := (client.resume answers state future).1
        attempt := { attempt' with
          writes := attempt'.writes ++ (client.resume answers state future).2 } } }, ?_, rfl, ?_⟩
  · simp [step, found, asks, settled]
  · simp [inside]

/-- A read of the newest version is always allowed, and sees the store. -/
theorem settle_read {attempt : Attempt K V} {db : Database K V (Nat × L)} (author : Nat × L) (key : K)
    (clean : attempt.writes = []) (current : attempt.Current db) :
    settle db author attempt (.get key) (.read db.log.length) =
      some (db, attempt.readFrom db db.log.length key, .value db.store[key]?) := by
  have version : attempt.version.getD db.log.length = db.log.length := by
    cases chosen : attempt.version with
    | none => rfl
    | some version => exact current version chosen
  simp [settle, clean, version, Database.store]

/-- A quiet stretch of one connection can be played in any world: the database may always answer
a read from the newest version. -/
theorem run_quiet {attempt : Attempt K V}
    (quiet : client.Quiet answers (fun key => world.db.store[key]?) state sets state' sets')
    (found : world.connections[i]? = some ⟨state, attempt⟩) (buffered : attempt.writes = sets)
    (current : attempt.Current world.db) :
    ∃ events world' attempt', world.run client events = some world' ∧ world'.db = world.db ∧
      world'.connections[i]? = some ⟨state', attempt'⟩ ∧
      (∀ event ∈ events, ∃ version, event = .settle i (.read version) answers) ∧
      attempt'.writes = sets' ∧ attempt'.Current world.db := by
  generalize viewed : (fun key : K => world.db.store[key]?) = view at quiet
  induction quiet generalizing world attempt with
  | refl => exact ⟨[], world, attempt, rfl, rfl, found, by simp, buffered, current⟩
  | @read state key state' sets' asks rest ih =>
    obtain ⟨next, stepped, same, here⟩ := step_settle answers found asks
      (settle_read (i, state) key buffered current)
    rw [congrFun viewed key] at here
    have newest : ({ attempt.readFrom world.db world.db.log.length key with
        writes := (attempt.readFrom world.db world.db.log.length key).writes ++
          (client.resume answers state (.value (view key))).2 } : Attempt K V).Current next.db := by
      intro version chosen
      cases chosen
      rw [same]
    obtain ⟨events, world', attempt', ran, kept, last, reads, writes, newest⟩ :=
      ih here (by simp [Attempt.readFrom, buffered]) newest (by rw [same]; exact viewed)
    refine ⟨.settle i (.read world.db.log.length) answers :: events, world', attempt', ?_,
      kept.trans same, last, List.forall_mem_cons.mpr ⟨⟨_, rfl⟩, reads⟩, writes, same ▸ newest⟩
    simp [run, stepped, ran]

/-- A quiet stretch that ends at a commit can be followed by any verdict that applies
it, acknowledged or not. -/
theorem quiet_commit {attempt : Attempt K V}
    (quiet : client.Quiet answers (fun key => world.db.store[key]?) state sets state' sets')
    (found : world.connections[i]? = some ⟨state, attempt⟩) (buffered : attempt.writes = sets)
    (current : attempt.Current world.db) (asks : client.pending state' = some .commit)
    (verdict : Verdict) (future : Future K V)
    (applies : (verdict, future) ∈ [(.committed, .done), (.unknown true, .error commitUnknownResult)]) :
    ∃ events world' attempt', world.run client (events ++ [.settle i verdict answers]) = some world' ∧
      (∀ event ∈ events, ∃ version, event = .settle i (.read version) answers) ∧
      world'.db = world.db.append ⟨(i, state'), sets'⟩ ∧
      world'.connections[i]? = some ⟨(client.resume answers state' future).1, attempt'⟩ := by
  obtain ⟨events, middle, attempt', ran, same, here, reads, writes, newest⟩ :=
    run_quiet quiet found buffered current
  have settled : settle middle.db (i, state') attempt' .commit verdict =
      some (middle.db.append ⟨(i, state'), attempt'.writes⟩, attempt', future) := by
    simp only [List.mem_cons, Prod.mk.injEq, List.not_mem_nil, or_false] at applies
    rcases applies with ⟨rfl, rfl⟩ | ⟨rfl, rfl⟩ <;> simp [settle, same, newest.clear]
  obtain ⟨final, stepped, grown, last⟩ := step_settle answers here asks settled
  refine ⟨events, final, _, run_trans ran (run_step stepped), reads, ?_, last⟩
  rw [grown, same, writes]

/-- A request that nothing disturbs is opened and reads, and the database stays as it is. -/
theorem solo_quiet (parameters : S) (answers : Answers)
    (quiet : client.Quiet answers (fun key => world.db.store[key]?) (client.start parameters answers) []
      state sets) :
    ∃ reads world' attempt, world.run client (.start parameters answers :: reads) = some world' ∧
      (∀ event ∈ reads, ∃ version, event = .settle world.connections.length (.read version) answers) ∧
      world'.db = world.db ∧ world'.connections[world.connections.length]? = some ⟨state, attempt⟩ ∧
      attempt.writes = sets ∧ attempt.Current world.db := by
  generalize opening : ({ world with connections :=
    world.connections ++ [{ client := client.start parameters answers }] } : World L K V) = opened
  have started : world.step client (.start parameters answers) = some opened := by rw [← opening]; rfl
  have unchanged : opened.db = world.db := by rw [← opening]
  have here : opened.connections[world.connections.length]? =
      some ⟨client.start parameters answers, {}⟩ := by rw [← opening]; simp
  obtain ⟨reads, final, attempt, ran, same, last, only, writes, newest⟩ :=
    run_quiet (unchanged ▸ quiet) here rfl fun _ chosen => by cases chosen
  exact ⟨reads, final, attempt, run_trans (run_step started) ran, only, same.trans unchanged, last,
    writes, unchanged ▸ newest⟩

/-- Where the request has then to commit, the commit succeeds, and adds exactly what it has
buffered. -/
theorem solo_run (parameters : S) (answers : Answers)
    (quiet : client.Quiet answers (fun key => world.db.store[key]?) (client.start parameters answers) []
      state sets)
    (asks : client.pending state = some .commit) :
    ∃ reads world', world.run client ([.start parameters answers] ++
        (reads ++ [.settle world.connections.length .committed answers])) = some world' ∧
      (∀ event ∈ reads, ∃ version, event = .settle world.connections.length (.read version) answers) ∧
      world'.db = world.db.append ⟨(world.connections.length, state), sets⟩ := by
  obtain ⟨reads, middle, attempt, ran, only, same, here, writes, newest⟩ :=
    solo_quiet parameters answers quiet
  have settled : settle middle.db (world.connections.length, state) attempt .commit .committed =
      some (middle.db.append ⟨(world.connections.length, state), attempt.writes⟩, attempt, .done) := by
    simp [settle, same, newest.clear]
  obtain ⟨final, stepped, grown, _⟩ := step_settle answers here asks settled
  have whole := run_trans ran (run_step stepped)
  exact ⟨reads, final, whole, only, by rw [grown, same, writes]⟩

/-- A request that nothing disturbs can be committed in every world that is reached. -/
theorem solo_commit {base : Store K V} (reachable : Reachable client base world) (parameters : S)
    (answers : Answers)
    (quiet : client.Quiet answers (fun key => world.db.store[key]?) (client.start parameters answers) []
      state sets)
    (asks : client.pending state = some .commit) :
    ∃ world', Reachable client base world' ∧
      world'.db = world.db.append ⟨(world.connections.length, state), sets⟩ := by
  obtain ⟨reads, final, ran, _, grown⟩ := solo_run parameters answers quiet asks
  obtain ⟨before, reach⟩ := reachable
  exact ⟨final, ⟨_, run_trans reach ran⟩, grown⟩

end World

end H2oTpcc

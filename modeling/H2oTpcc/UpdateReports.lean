import H2oTpcc.Loader
import H2oTpcc.UpdateDraws

/-! What `/updates` reports about the rows it has written. The ids of a request are
drawn independently, so a row may be listed twice; each listing has a number of its
own, and only the last one is in the store after the commit. -/
namespace H2oTpcc

namespace Update
variable (P : Platform)

/-- The rows of a request, with their new numbers, as they are listed. -/
def rows (ctx : UpdateCtx) : List (UInt32 × UInt32) :=
  (List.range ctx.numResult).map fun i => (ctx.ids i, ctx.randomNumbers i)

private theorem rowsJson_eq (ctx : UpdateCtx) :
    rowsJson ctx = .json (.array ((rows ctx).map fun row => worldJson row.1 row.2)) := by
  rw [rows, List.map_map]
  rfl

/-- The sets of a request are the rows that its response lists, encoded, in the same order. -/
theorem sets_eq (ctx : UpdateCtx) :
    sets P ctx = (rows ctx).map fun row => (worldKey P.host row.1, kvEncodeU32Be row.2) := by
  simp only [sets, rows, List.map_map, Function.comp_def, uint32Bytes_htonl]

/-- The store holds every row as it is listed exactly if no id is listed with two
different numbers. -/
theorem listed_stored_iff (host : Endian) (store : Store Bytes Bytes) (rows : List (UInt32 × UInt32)) :
    (∀ row ∈ rows, (applyWrites store (rows.map fun row =>
        (worldKey host row.1, kvEncodeU32Be row.2)))[worldKey host row.1]? =
      some (kvEncodeU32Be row.2)) ↔
    ∀ row ∈ rows, ∀ row' ∈ rows, row.1 = row'.1 → row.2 = row'.2 := by
  constructor
  · intro stored row member row' member' same
    have first := stored row member
    rw [same, stored row' member', Option.some_inj] at first
    exact (kvEncodeU32Be_injective first).symm
  · intro single row member
    have written : ∃ write ∈ rows.map fun row => (worldKey host row.1, kvEncodeU32Be row.2),
        write.1 = worldKey host row.1 := ⟨_, List.mem_map.mpr ⟨row, member, rfl⟩, rfl⟩
    obtain ⟨value, last, rfl⟩ := lastWrite_of_mem (Q := fun value => value = kvEncodeU32Be row.2)
      written (by
        intro write written same
        obtain ⟨row', member', rfl⟩ := List.mem_map.mp written
        rw [single row' member' row member (worldKey_injective host same)])
    rw [applyWrites_get, last, Option.some_or]

/-! ## The rows and their draws -/

variable {S : Type}

/-- Where a request draws an id again, it draws the number again that it has drawn for it: the
`rand_r` values agree modulo 10000. The view tells which rows are missing, where the second value
of a callback counts. -/
def RepeatsAgree (inputs : Inputs S) (view : Bytes → Option Bytes) (count : Nat) : Prop :=
  let number (i : Nat) := inputs.numberDraw P i
    (holdsRow P.host view (UInt32.ofNat (2 + (inputs.idDraw P i).toNat % 10000)))
  ∀ i < count, ∀ j < count, (inputs.idDraw P i).toNat ≡ (inputs.idDraw P j).toNat [MOD 10000] →
    (number i).toNat ≡ (number j).toNat [MOD 10000]

variable {P}

private theorem DrawnFrom.agree_iff {inputs : Inputs (Option Int32)} {ctx : UpdateCtx}
    {view : Bytes → Option Bytes} (drawn : DrawnFrom P inputs ctx view)
    (complete : ctx.numResult = ctx.numQuery) :
    (∀ row ∈ rows ctx, ∀ row' ∈ rows ctx, row.1 = row'.1 → row.2 = row'.2) ↔
      RepeatsAgree P inputs view ctx.numResult := by
  simp only [rows, List.forall_mem_map, List.mem_range, RepeatsAgree]
  refine forall₂_congr fun i below => forall₂_congr fun j below' => ?_
  have id {k : Nat} (inside : k < ctx.numResult) :
      UInt32.ofNat (2 + (inputs.idDraw P k).toNat % 10000) = ctx.ids k := by
    rw [← drawn.ids k (complete ▸ inside), UInt32.ofNat_toNat]
  rw [id below, id below', ← UInt32.toNat_inj, ← UInt32.toNat_inj, drawn.ids i (complete ▸ below),
    drawn.ids j (complete ▸ below'), drawn.numbers i below, drawn.numbers j below', Nat.add_left_cancel_iff,
    Nat.add_left_cancel_iff]
  rfl

end Update

/-- **`/updates` reports what it stored** exactly if it has drawn the same number wherever it
has drawn the same id. It always lists as many rows as it was asked for. -/
theorem update_reports_stored_iff {P : Platform} {T M : Type} (other : Client T M Bytes Bytes)
    {base : Store Bytes Bytes} {events : List (Event (Option Int32 ⊕ T))}
    {world world' : World _ Bytes Bytes} {verdict : Verdict} {answers : Answers}
    {session : Session UpdateCtx UpdateCallback Bytes Bytes Response}
    {attempt : Attempt Bytes Bytes}
    (ran : (World.initial base).run ((updatesChain P).client.sum other) events = some world)
    (found : world.connections[i]? = some ⟨.inl session, attempt⟩)
    (stepped : world.step ((updatesChain P).client.sum other) (.settle i verdict answers) = some world')
    (commits : world'.db.log.length = world.db.log.length + 1) :
    ∃ (parameter : Option Int32) (inputs : Inputs (Option Int32 ⊕ T)) (rows : List (UInt32 × UInt32))
        (answered : Session _ _ _ _ _),
      asked events i = some (.inl parameter) ∧ (history events).inputs[i]? = some inputs ∧
      rows.length = getQueryNumber parameter ∧
      world'.connections[i]?.map (·.client) = some (.inl answered) ∧
      answered.reply = some (.json (.array (rows.map fun row => worldJson row.1 row.2))) ∧
      ((∀ row ∈ rows, world'.db.store[worldKey P.host row.1]? = some (kvEncodeU32Be row.2)) ↔
        Update.RepeatsAgree P inputs (fun key => world.db.store[key]?) (getQueryNumber parameter)) := by
  rcases World.step_cases stepped with ⟨_, _, impossible, _⟩ |
    ⟨j, _, _, connection, operation, attempt', future, event, found', asks, settles, after⟩
  · cases impossible
  cases event
  cases found.symm.trans found'
  have kept := World.run_kept (Update.requestInvariant.sum (.nothing other)) ran
  have faithful := (World.reachable_connections (.nothing _) ⟨events, ran⟩ _
    (List.mem_of_getElem? found)).2
  obtain ⟨inside, _⟩ := List.getElem?_eq_some_iff.mp found
  obtain ⟨inputs, noted⟩ : ∃ inputs, (history events).inputs[i]? = some inputs :=
    ⟨_, List.getElem?_eq_getElem (kept.size ▸ inside)⟩
  obtain ⟨parameter, same, drawing⟩ := (kept.connection i _ inputs found noted).of_inl
  rcases settles.log with unchanged | ⟨rfl, clear, grown⟩
  · rw [unchanged] at commits
    omega
  obtain ⟨waiting, count, complete, writes, known⟩ := Update.Drawing.commit drawing asks
  have drawn := known (fun key => world.db.store[key]?) (Attempt.reads_current faithful clear)
  refine ⟨parameter, inputs, Update.rows session.ctx, (updatesChain P).resume answers session future,
    by rw [asked_eq, noted]; exact congrArg some same, noted, by simp [Update.rows, complete, count],
    ?_, ?_, ?_⟩
  · rw [after, List.getElem?_set_self inside]
    rfl
  · rw [Update.resume_commit P answers future waiting, Update.rowsJson_eq]
  · have logged : world'.db.log[world.db.log.length]? = some ⟨(i, .inl session), attempt.writes⟩ := by
      rw [grown]
      simp
    have store : world'.db.store = applyWrites world.db.store (Update.sets P session.ctx) := by
      rw [Database.store, commits, world'.db.asOf_succ logged, writes, grown,
        Database.asOf_append _ _ (Nat.le_refl _)]
      rfl
    rw [store, Update.sets_eq, Update.listed_stored_iff, drawn.agree_iff complete, complete, count]
    rfl

/-- A listed row can be read off the answer. -/
private theorem worldJson_injective :
    Function.Injective fun row : UInt32 × UInt32 => worldJson row.1 row.2 := by
  rintro ⟨id, number⟩ ⟨id', number'⟩ same
  simp only [worldJson, Json.map.injEq, List.cons.injEq, Prod.mk.injEq, Json.int.injEq, true_and,
    and_true, Nat.cast_inj, UInt32.toNat_inj] at same
  exact Prod.ext same.1 same.2

/-- A generator that gives every number twice. -/
def pairedPlatform : Platform where
  host := .little
  randR seed := (seed / 2 % 2147483648, seed + 1)
  randR_lt seed := UInt32.mod_lt (seed / 2) (by decide)
  remByZero _ := 0

/-- A request for two rows, up to its commit, on an empty store; each callback draws
from where the last one left the seed. -/
def twoRows : List (Event (Option Int32 ⊕ Unit)) :=
  [.start (.inl (some 2)) {}, .settle 0 (.read 0) { seed := 2 }, .settle 0 (.read 0) { seed := 4 }]

/-- Row 2 is listed with the numbers 2 and 3, and holds 3: the id was drawn twice, and the later
set wins. -/
theorem row_listed_twice : ∃ world world' answered,
    (World.initial ∅).run ((updatesChain pairedPlatform).client.sum (dbChain pairedPlatform).client)
      twoRows = some world ∧
    world.step ((updatesChain pairedPlatform).client.sum (dbChain pairedPlatform).client)
      (.settle 0 .committed {}) = some world' ∧
    world'.connections[0]?.map (·.client) = some (.inl answered) ∧
    answered.reply = some (.json (.array [worldJson 2 2, worldJson 2 3])) ∧
    world'.db.store[worldKey .little 2]? = some (kvEncodeU32Be 3) :=
  ⟨_, _, _, rfl, rfl, rfl, rfl, rfl⟩

/-- On a generator that counts, two different rows are listed, and the store holds both numbers. -/
theorem update_reports_stored_iff_two : ∃ world world' answered,
    (World.initial ∅).run ((updatesChain plainPlatform).client.sum (dbChain plainPlatform).client)
      twoRows = some world ∧
    world.step ((updatesChain plainPlatform).client.sum (dbChain plainPlatform).client)
      (.settle 0 .committed {}) = some world' ∧
    world'.connections[0]?.map (·.client) = some (.inl answered) ∧
    answered.reply = some (.json (.array [worldJson 2 4, worldJson 3 6])) ∧
    world'.db.store[worldKey .little 2]? = some (kvEncodeU32Be 4) ∧
    world'.db.store[worldKey .little 3]? = some (kvEncodeU32Be 6) := by
  have steps : ∃ world world' session attempt answered,
      (World.initial ∅).run ((updatesChain plainPlatform).client.sum (dbChain plainPlatform).client)
        twoRows = some world ∧
      world.connections[0]? = some ⟨.inl session, attempt⟩ ∧
      world.step ((updatesChain plainPlatform).client.sum (dbChain plainPlatform).client)
        (.settle 0 .committed {}) = some world' ∧
      world'.db.log.length = world.db.log.length + 1 ∧
      world'.connections[0]?.map (·.client) = some (.inl answered) ∧
      answered.reply = some (.json (.array [worldJson 2 4, worldJson 3 6])) :=
    ⟨_, _, _, _, _, rfl, rfl, rfl, rfl, rfl, rfl⟩
  obtain ⟨world, world', session, attempt, answered, ran, found, stepped, commits, client, reply⟩ := steps
  obtain ⟨parameter, inputs, rows, answered', asks, noted, _, client', reply', stored⟩ :=
    update_reports_stored_iff (dbChain plainPlatform).client ran found stepped commits
  cases asks
  cases noted
  cases client.symm.trans client'
  have listed : rows = [(2, 4), (3, 6)] := by
    have same := reply'.symm.trans reply
    simp only [Option.some_inj, Response.json.injEq, Json.array.injEq] at same
    exact List.map_injective_iff.mpr worldJson_injective same
  subst listed
  refine ⟨world, world', answered, ran, stepped, client, reply, ?_⟩
  have both := stored.mpr (by
    -- The ids are made of 0 and 1, so only a place and itself have the same id.
    intro i (below : i < 2) j (below' : j < 2) same
    obtain rfl | rfl : i = 0 ∨ i = 1 := by omega
    all_goals obtain rfl | rfl : j = 0 ∨ j = 1 := by omega
    all_goals first | exact Nat.ModEq.rfl | exact absurd same (by decide))
  exact ⟨both (2, 4) (by simp), both (3, 6) (by simp)⟩

end H2oTpcc

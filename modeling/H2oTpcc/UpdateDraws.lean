import Mathlib.Data.Nat.ModEq
import H2oTpcc.RequestHistory
import H2oTpcc.UpdateProofs

/-! What `/updates` draws. Its entry point draws the ids one after the other, and the callback
that reads a row draws the row's new number; so ids and numbers are functions of the seeds that
the request has got, and of which of its rows were there. -/
namespace H2oTpcc

/-! ## The draws -/

section Draws
variable (P : Platform)

/-- A World id is drawn from 2 to 10001: `get_random_number` starts at 1 already. -/
theorem getRandomWorldId_value (generator : Generator) :
    ((getRandomWorldId P).value generator).toNat = 2 + (rawDraw P generator.seed 0).toNat % 10000 := by
  have fits : (P.randR generator.seed).1.toNat % 10000 < 10000 := Nat.mod_lt _ (by decide)
  simp only [getRandomWorldId, getRandomNumber, Draw.value_bind, Draw.value_pure, value_randR,
    value_rem P _ (show tfbMaxId ≠ 0 by decide), UInt32.toNat_add, UInt32.toNat_mod, rawDraw]
  change (1 + ((P.randR generator.seed).1.toNat % 10000 + 1) % 2 ^ 32) % 2 ^ 32 = _
  omega

/-- A row's number is `get_random_world_id() - 1`, from 1 to 10000. -/
private theorem getRandomWorldId_number (generator : Generator) :
    ((getRandomWorldId P).value generator - 1).toNat = 1 + (rawDraw P generator.seed 0).toNat % 10000 := by
  have value := getRandomWorldId_value P generator
  have one : (1 : UInt32) ≤ (getRandomWorldId P).value generator := by
    rw [UInt32.le_iff_toNat_le, value]
    exact Nat.le_trans (by decide) (Nat.le_add_right 2 _)
  rw [UInt32.toNat_sub_of_le _ _ one, value, UInt32.toNat_one]
  omega

theorem seed_getRandomWorldId (generator : Generator) :
    (getRandomWorldId P generator).2.seed = (P.randR generator.seed).2 := rfl

private theorem drawIds_other {places : List Nat} {ids : Nat → UInt32} (generator : Generator) {i : Nat}
    (outside : i ∉ places) : (Update.drawIds P ids places).value generator i = ids i := by
  induction places generalizing ids generator with
  | nil => rfl
  | cons place rest ih =>
    rw [List.mem_cons, not_or] at outside
    obtain ⟨other, behind⟩ := outside
    rw [Update.drawIds, Draw.value_bind, ih _ behind, Function.update_of_ne other]

/-- The id at each place is made of the `rand_r` value of that number along the seed. -/
theorem drawIds_range (ids : Nat → UInt32) (generator : Generator) (first : Nat) {count k : Nat}
    (below : k < count) :
    ((Update.drawIds P ids (List.range' first count)).value generator (first + k)).toNat =
      2 + (rawDraw P generator.seed k).toNat % 10000 := by
  induction count generalizing ids generator first k with
  | zero => exact absurd below (Nat.not_lt_zero k)
  | succ count ih =>
    rw [List.range'_succ, Update.drawIds, Draw.value_bind]
    cases k with
    | zero =>
      have outside : first ∉ List.range' (first + 1) count := by
        rw [List.mem_range'_1]
        omega
      rw [show first + 0 = first from rfl, drawIds_other P _ outside, Function.update_self,
        getRandomWorldId_value, rawDraw]
    | succ k =>
      rw [show first + (k + 1) = first + 1 + k by omega, ih _ _ _ (Nat.lt_of_succ_lt_succ below),
        seed_getRandomWorldId]
      simp only [rawDraw]

end Draws

/-! ## The draws of a request -/

namespace Inputs
variable (P : Platform) (inputs : Inputs S)

/-- The seed that a callback of the request draws from, the entry point being callback 0. -/
def seed (k : Nat) : UInt32 := (inputs.answers[k]?.getD {}).seed

/-- The `rand_r` value that the id at place `i` is made of. -/
def idDraw (i : Nat) : UInt32 := rawDraw P (inputs.seed 0) i

/-- The `rand_r` value that the number at place `i` is made of. A callback that has not found
its row draws twice, and overwrites what it made of the first value. -/
def numberDraw (i : Nat) (found : Bool) : UInt32 :=
  rawDraw P (inputs.seed (i + 1)) (if found then 0 else 1)

private theorem seed_hear (answers : Answers) (k : Nat) :
    (inputs.hear answers).seed k = if k = inputs.answers.length then answers.seed else inputs.seed k := by
  unfold seed hear
  rcases Nat.lt_trichotomy k inputs.answers.length with old | rfl | beyond
  · rw [List.getElem?_append_left old, if_neg (Nat.ne_of_lt old)]
  · simp
  · rw [if_neg (Nat.ne_of_gt beyond), List.getElem?_eq_none (by simp; omega),
      List.getElem?_eq_none (Nat.le_of_lt beyond)]

end Inputs

/-- The World row with this id is there, and has at least four bytes. -/
def holdsRow (host : Endian) (view : Bytes → Option Bytes) (id : UInt32) : Bool :=
  (worldNumber host (view (worldKey host id))).isSome

namespace Update
variable (P : Platform)

section Row
variable (found : Bool) (ctx : UpdateCtx) (seed : UInt32)

private theorem withRow_number :
    (((withRow P found ctx).value { seed }).randomNumbers ctx.numResult).toNat =
      1 + (rawDraw P seed (if found then 0 else 1)).toNat % 10000 := by
  cases found with
  | true =>
    change (Function.update ctx.randomNumbers ctx.numResult
      ((getRandomWorldId P).value { seed } - 1) ctx.numResult).toNat = _
    rw [Function.update_self, getRandomWorldId_number]
    rfl
  | false =>
    change (Function.update (Function.update ctx.randomNumbers ctx.numResult _) ctx.numResult
      ((getRandomWorldId P).value (getRandomWorldId P { seed }).2 - 1) ctx.numResult).toNat = _
    rw [Function.update_self, getRandomWorldId_number]
    rfl

private theorem withRow_other {i : Nat} (other : i ≠ ctx.numResult) :
    ((withRow P found ctx).value { seed }).randomNumbers i = ctx.randomNumbers i := by
  cases found with
  | true => exact Function.update_of_ne other _ _
  | false => exact (Function.update_of_ne other _ _).trans (Function.update_of_ne other _ _)

end Row

/-- The ids of a context and the numbers of its first rows are made of the request's draws, on
this view of the store. -/
structure DrawnFrom (inputs : Inputs (Option Int32)) (ctx : UpdateCtx) (view : Bytes → Option Bytes) :
    Prop where
  ids : ∀ i < ctx.numQuery, (ctx.ids i).toNat = 2 + (inputs.idDraw P i).toNat % 10000
  numbers : ∀ i < ctx.numResult, (ctx.randomNumbers i).toNat =
    1 + (inputs.numberDraw P i (holdsRow P.host view (ctx.ids i))).toNat % 10000

variable {P} {inputs : Inputs (Option Int32)} {ctx : UpdateCtx} {view : Bytes → Option Bytes}

/-- One row read, one number drawn: the context is still drawn from the inputs, with the answers of
the callback added to them. -/
theorem DrawnFrom.withRow (drawn : DrawnFrom P inputs ctx view)
    (heard : inputs.answers.length = ctx.numResult + 1) (answers : Answers) :
    DrawnFrom P (inputs.hear answers)
      ((withRow P (holdsRow P.host view (ctx.ids ctx.numResult)) ctx).value
        { seed := answers.seed }) view := by
  obtain ⟨query, result, ids⟩ := withRow_frame P ctx { seed := answers.seed }
    (holdsRow P.host view (ctx.ids ctx.numResult))
  constructor
  · intro i below
    rw [ids, Inputs.idDraw, Inputs.seed_hear, if_neg (by omega)]
    exact drawn.ids i (query ▸ below)
  · rw [result, ids]
    intro i below
    rw [Inputs.numberDraw, Inputs.seed_hear, heard]
    by_cases own : i = ctx.numResult
    · subst own
      rw [if_pos rfl]
      exact withRow_number P _ ctx answers.seed
    · rw [if_neg (by omega), withRow_other P _ ctx answers.seed own]
      exact drawn.numbers i (by omega)

/-! ## Whole requests -/

variable (P) in
/-- What holds of a request and its inputs while the future that will run `callback` is
outstanding: one callback has run for each row that was read, and the commit waits for all of
them. -/
def Drawing (inputs : Inputs (Option Int32)) :
    UpdateCallback → Operation Bytes → UpdateCtx → Attempt Bytes Bytes → Prop
  | .updateOnRead, operation, ctx, attempt => ctx.numQuery = getQueryNumber inputs.parameters ∧
    ctx.numResult < ctx.numQuery ∧ inputs.answers.length = ctx.numResult + 1 ∧ attempt.writes = [] ∧
    operation = .get (worldKey P.host (ctx.ids ctx.numResult)) ∧
    Known attempt.reads (DrawnFrom P inputs ctx)
  | .updateOnCommit, operation, ctx, attempt => ctx.numQuery = getQueryNumber inputs.parameters ∧
    ctx.numResult = ctx.numQuery ∧ operation = .commit ∧ attempt.writes = sets P ctx ∧
    Known attempt.reads (DrawnFrom P inputs ctx)

private theorem drawnFrom_start (parameter : Option Int32) (answers : Answers)
    (view : Bytes → Option Bytes) :
    DrawnFrom P ⟨parameter, [answers]⟩ {
      numQuery := getQueryNumber parameter
      ids := (drawIds P (fun _ => 0) (List.range (getQueryNumber parameter))).value
        { seed := answers.seed } } view := by
  refine ⟨fun i below => ?_, fun i below => absurd below (Nat.not_lt_zero i)⟩
  have made := drawIds_range P (fun _ => 0) { seed := answers.seed } 0 below
  rwa [Nat.zero_add, ← List.range_eq_range'] at made

/-- Along every run the ids and the numbers of a request are made of the `rand_r` values that its
callbacks' seeds give. -/
theorem requestInvariant : RequestInvariant (updatesChain P).client
    (fun inputs => SessionInv (Drawing P inputs)) := by
  apply Chain.requestInvariant
  · intro parameter answers
    rw [run_start]
    have drawn := drawnFrom_start (P := P) parameter answers
    have positive := getQueryNumber_pos parameter
    split
    · split
      · exact .of_submit rfl ⟨rfl, positive, rfl, rfl, rfl, fun view _ => drawn view⟩
      · exact .of_idle rfl
    · exact .of_idle rfl
  · intro inputs answers callback operation attempt attempt' future session holds delivers idle unset
    cases callback with
    | updateOnRead =>
      obtain ⟨count, more, heard, clean, rfl, known⟩ := holds
      rcases delivers.get_cases clean with ⟨code, nonzero, rfl⟩ | ⟨value, rfl, clean', learns⟩
      · exact .of_idle (run_updateOnRead_error P answers session nonzero) idle
      have ran := run_updateOnRead_value P answers session value
      obtain ⟨query, result, _⟩ := withRow_frame P session.ctx { seed := answers.seed }
        (worldNumber P.host value).isSome
      have known' : Known attempt'.reads (DrawnFrom P (inputs.hear answers)
          ((withRow P (worldNumber P.host value).isSome session.ctx).value { seed := answers.seed })) := by
        refine (learns _ known).mono fun view ⟨seen, drawn⟩ => ?_
        have row := drawn.withRow heard answers
        rwa [holdsRow, seen] at row
      have heard' : (inputs.hear answers).answers.length = inputs.answers.length + 1 := by
        simp [Inputs.hear]
      dsimp only at ran
      split at ran
      · rename_i further
        exact .of_submit ran idle ⟨query.trans count, further, by rw [heard', result, heard],
          by simp [clean', unset], rfl, known'⟩
      · -- every row has been read, so none is missing from the sets
        rename_i last
        rw [run_updateDoWrites] at ran
        refine .of_submit ran idle ⟨query.trans count, ?_, rfl, by simp only [clean', unset]; rfl,
          known'.mono fun _ drawn => ⟨drawn.ids, drawn.numbers⟩⟩
        rw [query, result] at last
        change ((Update.withRow P _ session.ctx).value _).numResult =
          ((Update.withRow P _ session.ctx).value _).numQuery
        rw [result, query]
        omega
    | updateOnCommit => exact .of_idle (run_updateOnCommit answers session future) idle

/-- At its commit a request has drawn all its numbers, and has buffered one set for each of its rows. -/
theorem Drawing.commit {attempt : Attempt Bytes Bytes}
    {session : Session UpdateCtx UpdateCallback Bytes Bytes Response}
    (drawing : SessionInv (Drawing P inputs) session attempt)
    (asks : (updatesChain P).client.pending session = some .commit) :
    session.pending = some (.commit, .updateOnCommit) ∧
      session.ctx.numQuery = getQueryNumber inputs.parameters ∧
      session.ctx.numResult = session.ctx.numQuery ∧ attempt.writes = sets P session.ctx ∧
      Known attempt.reads (DrawnFrom P inputs session.ctx) := by
  change session.pending.map Prod.fst = _ at asks
  obtain ⟨⟨operation, callback⟩, waiting, rfl⟩ := Option.map_eq_some_iff.mp asks
  have here := drawing .commit callback waiting
  cases callback with
  | updateOnCommit => exact ⟨waiting, here.1, here.2.1, here.2.2.2⟩
  | updateOnRead => obtain ⟨_, _, _, _, impossible, _⟩ := here; cases impossible

end Update

end H2oTpcc

import H2oTpcc.RowReads
import H2oTpcc.TfbHandlers

/-! What `/updates` commits: one set for each row it has drawn, with the number it
has drawn for it. It answers when the commit is ready, and does not look at it. -/
namespace H2oTpcc
open Stmt

namespace Update
variable (P : Platform)

/-! ## Running the callbacks -/

/-- The sets of `update_do_writes`, in the order of the rows. -/
def sets (ctx : UpdateCtx) : List (Bytes × Bytes) :=
  (List.range ctx.numResult).map fun i =>
    (worldKey P.host (ctx.ids i), uint32Bytes P.host (htonl P.host (ctx.randomNumbers i)))

section Run
variable (answers : Answers) (session : Session UpdateCtx UpdateCallback Bytes Bytes Response)

/-- What is reported after the commit. -/
def rowsJson (ctx : UpdateCtx) : Response :=
  .json (.array ((List.range ctx.numResult).map fun i => worldJson (ctx.ids i) (ctx.randomNumbers i)))

/-- The response lists the rows of the context, whatever became of the commit. -/
theorem run_updateOnCommit (future : Future Bytes Bytes) :
    (updateOnCommit future).run answers session =
      ((), { session with reply := some (rowsJson session.ctx) }) := by
  simp only [updateOnCommit, Prog.run_bind, Prog.run_load, run_finish]
  rw [Prog.run_forRange_skip answers session _ _ fun i session => Prog.run_index ..]
  rfl

/-- After the last read all rows are set, in the order of the request, and the commit is
submitted. -/
theorem run_updateDoWrites :
    (updateDoWrites P).run answers session = ((), Session.submit answers .commit .updateOnCommit
      { session with
        ctx := { session.ctx with phase := true }
        sets := session.sets ++ sets P session.ctx }) := by
  simp only [updateDoWrites, Prog.run_bind, Prog.run_store, Prog.run_load, run_fdbAsyncCommit]
  rw [Prog.run_forRange_sets answers _ _ _ (fun i => (worldKey P.host (session.ctx.ids i),
    uint32Bytes P.host (htonl P.host (session.ctx.randomNumbers i)))) fun i session => by simp]
  rfl

/-- A read that fails ends the request; it is not retried. -/
theorem run_updateOnRead_error (nonzero : code ≠ 0) :
    (updateOnRead P (.error code)).run answers session =
      ((), { session with reply := some (serviceUnavailable "FDB error") }) := by
  simp [updateOnRead, nonzero]

/-- A row has been read, or is known to be missing: its new number is drawn. -/
theorem run_updateOnRead_value (value : Option Bytes) :
    let ctx := (withRow P (worldNumber P.host value).isSome session.ctx).value { seed := answers.seed }
    (updateOnRead P (.value value)).run answers session =
      if ctx.numResult < ctx.numQuery then
        ((), Session.submit answers (.get (worldKey P.host (ctx.ids ctx.numResult))) .updateOnRead
          { session with ctx })
      else (updateDoWrites P).run answers { session with ctx } := by
  dsimp only
  split
  · rename_i more
    simp [updateOnRead, more]
  · rename_i last
    simp [updateOnRead, last]

/-- How `/updates` is opened: the ids are drawn, and the first of them is read. -/
theorem run_start (parameter : Option Int32) :
    (updatesChain P).start parameter answers =
      if answers.alloc then
        let ctx : UpdateCtx := {
          numQuery := getQueryNumber parameter
          ids := (drawIds P (fun _ => 0) (List.range (getQueryNumber parameter))).value
            { seed := answers.seed } }
        let session : Session UpdateCtx UpdateCallback Bytes Bytes Response := { ctx }
        if answers.create then session.submit answers (.get (worldKey P.host (ctx.ids 0))) .updateOnRead
        else { session with reply := some (serviceUnavailable "fdb failed") }
      else { ctx := {}, reply := some (serviceUnavailable "oom") } := by
  simp only [Chain.start, updatesChain, updatesHandler, run_openRequest, Prog.run_bind, Prog.run_draw,
    Prog.run_store, Prog.run_load, Prog.run_index, run_fdbAsyncGet]
  rw [Prog.run_forRange_skip answers _ _ _ fun i session => Prog.run_index ..]

end Run

/-! ## What the chain knows -/

/-- What holds while the future that will run `callback` is outstanding. -/
def KnownAt : UpdateCallback → Operation Bytes → UpdateCtx → Attempt Bytes Bytes → Prop
  | .updateOnRead, operation, _, attempt => attempt.writes = [] ∧ ∃ key, operation = .get key
  | .updateOnCommit, operation, ctx, attempt => operation = .commit ∧ attempt.writes = sets P ctx

variable {attempt attempt' : Attempt Bytes Bytes} {answers : Answers}
  {session : Session UpdateCtx UpdateCallback Bytes Bytes Response}

/-- Along every run a request of `/updates` knows at its commit that it has set its own rows and
nothing else. -/
theorem localInvariant : LocalInvariant (updatesChain P).client (SessionInv (KnownAt P)) := by
  apply Chain.localInvariant
  · intro parameter answers
    rw [run_start]
    split
    · split
      · exact .of_submit rfl ⟨rfl, _, rfl⟩
      · exact .of_idle rfl
    · exact .of_idle rfl
  · intro answers callback operation attempt attempt' future session holds delivers idle unset
    cases callback with
    | updateOnRead =>
      obtain ⟨clean, key, rfl⟩ := holds
      rcases delivers.get_cases clean with ⟨code, nonzero, rfl⟩ | ⟨value, rfl, clean', _⟩
      · exact .of_idle (run_updateOnRead_error P answers session nonzero) idle
      · have ran := run_updateOnRead_value P answers session value
        dsimp only at ran
        split at ran
        · exact .of_submit ran idle ⟨by simp [clean', unset], _, rfl⟩
        · rw [run_updateDoWrites] at ran
          exact .of_submit ran idle ⟨rfl, by rw [clean', unset]; rfl⟩
    | updateOnCommit => exact .of_idle (run_updateOnCommit answers session future) idle

/-- A pending commit holds the sets of the rows that have been drawn. -/
theorem commit_sets (holds : SessionInv (KnownAt P) session attempt)
    (pending : (updatesChain P).client.pending session = some .commit) :
    session.pending = some (.commit, .updateOnCommit) ∧ attempt.writes = sets P session.ctx := by
  change session.pending.map Prod.fst = _ at pending
  obtain ⟨⟨operation, callback⟩, waiting, rfl⟩ := Option.map_eq_some_iff.mp pending
  have here := holds .commit callback waiting
  cases callback with
  | updateOnRead => obtain ⟨_, _, impossible⟩ := here; cases impossible
  | updateOnCommit => exact ⟨waiting, here.2⟩

/-- What the client is told once the commit is ready, whatever became of it. -/
theorem resume_commit (answers : Answers) (future : Future Bytes Bytes)
    (waiting : session.pending = some (.commit, .updateOnCommit)) :
    ((updatesChain P).resume answers session future).reply = some (rowsJson session.ctx) := by
  simp only [Chain.resume, waiting]
  change ((updateOnCommit future).run answers _).2.reply = _
  rw [run_updateOnCommit]

end Update

end H2oTpcc

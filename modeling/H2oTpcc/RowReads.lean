import H2oTpcc.CommitCounts
import H2oTpcc.FdbDatabase
import H2oTpcc.QuietRuns

/-! What the callbacks that read one row have in common: a failed read is retried, a
missing row ends the request, and a row that is found is known for the rest of the
attempt. -/
namespace H2oTpcc

section RowReads
variable {σ κ ρ ν : Type} [PackedRow ν] {host : Endian} {retry : κ}
  {missing : Prog σ κ Bytes Bytes ρ Unit} {found : ν → Prog σ κ Bytes Bytes ρ Unit} {key : Bytes}
  {attempt attempt' : Attempt Bytes Bytes} {answers : Answers} {session : Session σ κ Bytes Bytes ρ}

/-- What a read callback hands on, in its three cases: the retry after an error, the answer for
a missing row, and the next step with the row now known. -/
theorem onRowRead_handsOn {At : κ → Operation Bytes → σ → Attempt Bytes Bytes → Prop}
    (clean : attempt.writes = []) (delivers : Delivers (.get key) attempt attempt' future)
    (idle : session.pending = none)
    (retries : ∀ code attempt, At retry (.onError code) session.ctx attempt)
    (givesUp : missing.HandsOn At answers attempt' session)
    (goesOn : ∀ row, attempt'.writes = [] →
      (∀ fact, Known attempt.reads fact →
        Known attempt'.reads fun view => asRow host (view key) = some row ∧ fact view) →
      (found row).HandsOn At answers attempt' session) :
    (onRowRead host retry missing found future).HandsOn At answers attempt' session := by
  rcases delivers.get_cases clean with ⟨code, nonzero, rfl⟩ | ⟨value, rfl, clean', learns⟩
  · exact .of_submit (run_onRowRead_error answers session host retry missing found nonzero) idle
      (retries code _)
  · cases cast : (asRow host value : Option ν) with
    | none =>
      rw [onRowRead_none cast]
      exact givesUp
    | some row =>
      rw [onRowRead_some cast]
      refine goesOn row clean' fun fact known => (learns fact known).mono fun view seen => ?_
      exact ⟨(congrArg (asRow host) seen.1).trans cast, seen.2⟩

/-- A read callback tells of no success: it goes on, retries, or answers with an error. -/
theorem onRowRead_reports {ok : ρ → Bool} (clean : attempt.writes = [])
    (delivers : Delivers (.get key) attempt attempt' future) (unanswered : session.reply = none)
    (givesUp : (missing.run answers session).2.Reports ok false)
    (goesOn : ∀ row, ((found row).run answers session).2.Reports ok false) :
    ((onRowRead host retry missing found future).run answers session).2.Reports ok
      (acknowledged (.get key) future) := by
  rcases delivers.get_cases clean with ⟨code, nonzero, rfl⟩ | ⟨value, rfl, _⟩
  · exact .of_run (run_onRowRead_error answers session host retry missing found nonzero)
      (.of_submit unanswered rfl)
  · cases cast : (asRow host value : Option ν) with
    | none =>
      rw [onRowRead_none cast]
      exact givesUp
    | some row =>
      rw [onRowRead_some cast]
      exact goesOn row

/-- Left alone, a chain goes on with the row that is there, as its callback does with a row. -/
theorem Chain.quiet_row (chain : Chain S σ κ Bytes Bytes ρ) {callback : κ} {view : Bytes → Option Bytes}
    {after : Session σ κ Bytes Bytes ρ} (waiting : session.pending = some (.get key, callback))
    (reads : chain.body callback = onRowRead host retry missing found)
    (cast : asRow host (view key) = some row)
    (ran : (found row).run answers { session with pending := none, sets := [] } = ((), after))
    (rest : chain.client.Quiet answers view after after.sets state' sets') :
    chain.client.Quiet answers view session [] state' sets' := by
  refine chain.quiet_read waiting ?_ rest
  rw [reads, onRowRead_some cast]
  exact ran

/-- Left alone without the row, a chain does what its callback has for that case. -/
theorem Chain.quiet_missing (chain : Chain S σ κ Bytes Bytes ρ) {callback : κ}
    {view : Bytes → Option Bytes} {after : Session σ κ Bytes Bytes ρ}
    (waiting : session.pending = some (.get key, callback))
    (reads : chain.body callback = onRowRead host retry missing found)
    (cast : (asRow host (view key) : Option ν) = none)
    (ran : missing.run answers { session with pending := none, sets := [] } = ((), after))
    (rest : chain.client.Quiet answers view after after.sets state' sets') :
    chain.client.Quiet answers view session [] state' sets' := by
  refine chain.quiet_read waiting ?_ rest
  rw [reads, onRowRead_none cast]
  exact ran

end RowReads

end H2oTpcc

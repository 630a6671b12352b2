import Mathlib.Data.Nat.ModEq
import Mathlib.Logic.Function.Iterate
import H2oTpcc.Ledger

/-! Retries of a payment. A payment by customer number is the same at every attempt; a
payment by name draws a customer number from the seed in its context each time it has
read its district, and a restart does not put the seed back. -/
namespace H2oTpcc

/-- The parameters as the context holds them; of these, only the seed and the customer
number ever change. -/
def PaymentCtx.params (ctx : PaymentCtx) : PaymentParams where
  seed := ctx.seed
  wId := ctx.wId
  dId := ctx.dId
  cWId := ctx.cWId
  cDId := ctx.cDId
  cId := ctx.cId
  cLast := ctx.cLast
  byName := ctx.byName
  hAmount := ctx.hAmount

namespace Payment
variable (P : Platform) (params : PaymentParams)

abbrev PaymentSession := Session PaymentCtx PaymentCallback Bytes Bytes Response

/-- The parameters after one more choice of a customer. -/
def redraw (params : PaymentParams) : PaymentParams := (chooseCustomer P params.ctx).params

/-- The customer of the `k`-th attempt that gets as far as choosing one. -/
def chosen (k : Nat) : UInt32 := ((redraw P)^[k + 1] params).cId

/-- The customer of the request itself: the one it names, or, for a payment by last name, the
one that the first `rand_r` value of its seed stands for. -/
def customer : UInt32 := if params.byName then 2 + rawDraw P params.seed 0 % 2999 else params.cId

/-- The customer number is asked for. -/
def asksCustomer (session : PaymentSession) : Bool :=
  match session.pending with
  | some (_, .onCustomerRead) => true
  | _ => false

/-- What the session asks for or sets is under the keys of the request and of this
customer, and what it sets is for the amount of the request. -/
structure Charges (cId : UInt32) (session : PaymentSession) : Prop where
  reads : ∀ key callback, session.pending = some (.get key, callback) →
    key ∈ [kvWarehouseKey params.wId, kvDistrictKey params.cWId params.cDId,
      kvCustomerKey params.cWId params.cDId cId]
  writes : session.sets ≠ [] → ∃ ctx cv now, session.sets = built P.host (rows P ctx cv now) ∧
    ctx.wId = params.wId ∧ ctx.cWId = params.cWId ∧ ctx.cDId = params.cDId ∧ ctx.cId = cId ∧
    ctx.hAmount = params.hAmount

/-! ## Choosing customers -/

section Choices
variable {P params}

private theorem chooseCustomer_params (ctx : PaymentCtx) :
    (chooseCustomer P ctx).params = redraw P ctx.params := by
  unfold redraw chooseCustomer
  cases byName : ctx.byName <;> simp [PaymentCtx.params, PaymentParams.ctx, byName]

/-- Only the seed and the customer number are ever redrawn. -/
private theorem redraw_frame (P : Platform) (params : PaymentParams) (k : Nat) :
    ((redraw P)^[k] params).wId = params.wId ∧ ((redraw P)^[k] params).cWId = params.cWId ∧
      ((redraw P)^[k] params).cDId = params.cDId ∧ ((redraw P)^[k] params).hAmount = params.hAmount ∧
      ((redraw P)^[k] params).byName = params.byName := by
  induction k with
  | zero => exact ⟨rfl, rfl, rfl, rfl, rfl⟩
  | succ k ih =>
    rw [Function.iterate_succ_apply']
    generalize (redraw P)^[k] params = before at ih ⊢
    obtain ⟨w, cw, cd, amount, byName⟩ := ih
    unfold redraw chooseCustomer
    split <;> exact ⟨w, cw, cd, amount, byName⟩

/-- A payment by number stays with its customer. -/
private theorem redraw_numbered (numbered : params.byName = false) (k : Nat) :
    (redraw P)^[k] params = params := by
  have fixed : redraw P params = params := by
    unfold redraw chooseCustomer
    rw [if_neg (by simp [PaymentParams.ctx, numbered])]
    rfl
  exact Function.iterate_fixed fixed k

private theorem chosen_numbered (numbered : params.byName = false) (k : Nat) :
    chosen P params k = params.cId := by
  rw [chosen, redraw_numbered numbered]

/-- A payment by name draws the customers one after the other from the seed of its request: the
seed is never put back. -/
theorem chosen_named (named : params.byName = true) (k : Nat) :
    chosen P params k = 2 + rawDraw P params.seed k % 2999 := by
  induction k generalizing params with
  | zero =>
    change (chooseCustomer P params.ctx).cId = 2 + (P.randR params.seed).1 % 2999
    rw [chooseCustomer, if_pos (show params.ctx.byName = true from named)]
    change 1 + ((P.randR params.seed).1 % 2999 + 1) = 2 + (P.randR params.seed).1 % 2999
    grind
  | succ k ih =>
    have next : (redraw P params).byName = true ∧ (redraw P params).seed = (P.randR params.seed).2 := by
      unfold redraw
      rw [chooseCustomer, if_pos (show params.ctx.byName = true from named)]
      exact ⟨named, rfl⟩
    have later := ih next.1
    rw [next.2] at later
    exact later

private theorem chosen_zero (P : Platform) (params : PaymentParams) :
    chosen P params 0 = customer P params := by
  unfold customer
  split
  · rename_i named
    exact chosen_named named 0
  · rename_i numbered
    exact chosen_numbered (by simpa using numbered) 0

private theorem chosen_eq_iff (named : params.byName = true) (k : Nat) :
    chosen P params k = customer P params ↔
      (rawDraw P params.seed k).toNat ≡ (rawDraw P params.seed 0).toNat [MOD 2999] := by
  rw [← chosen_zero, chosen_named named, chosen_named named, UInt32.add_right_inj, ← UInt32.toNat_inj,
    UInt32.toNat_mod, UInt32.toNat_mod]
  rfl

end Choices

/-! ## One session after the other -/

/-- What a session with a future outstanding asks for, and what its last callback has set,
when customers have been asked for `count` times. -/
def Asks (count : Nat) (session : PaymentSession) : Option (Operation Bytes × PaymentCallback) → Prop
  | some (operation, .onWarehouseRead) =>
    operation = .get (kvWarehouseKey session.ctx.wId) ∧ session.sets = []
  | some (operation, .onDistrictRead) =>
    operation = .get (kvDistrictKey session.ctx.cWId session.ctx.cDId) ∧ session.sets = []
  | some (operation, .onCustomerRead) =>
    operation = .get (kvCustomerKey session.ctx.cWId session.ctx.cDId session.ctx.cId) ∧
      session.sets = [] ∧ 0 < count
  | some (operation, .onErrorRetry) => (∃ code, operation = .onError code) ∧ session.sets = []
  | some (operation, .onCommit) => operation = .commit ∧ 0 < count ∧
    ∃ cv now, session.sets = built P.host (rows P session.ctx cv now)
  | none => 0 < count ∧ ∃ cv now, session.sets = built P.host (rows P session.ctx cv now)

/-- A session that can do nothing any more, or one that goes on with the parameters drawn
at the latest of `count` requests for a customer. -/
def Progress (count : Nat) (session : PaymentSession) : Prop :=
  (session.pending = none ∧ session.sets = []) ∨
  (session.ctx.params = (redraw P)^[count] params ∧ Asks P count session session.pending)

section Steps
variable {P params} {answers : Answers} {session : PaymentSession} {count : Nat}

/-- A session that submits makes progress whether the submission is accepted or not: if not, it
can do nothing any more. -/
theorem Progress.of_submit {operation : Operation Bytes} {callback : PaymentCallback}
    (idle : session.pending = none) (unset : session.sets = [])
    (own : session.ctx.params = (redraw P)^[count] params)
    (asks : Asks P count session (some (operation, callback))) :
    Progress P params count (session.submit answers operation callback) := by
  unfold Session.submit
  split
  · exact .inr ⟨own, by cases callback <;> exact asks⟩
  · exact .inl ⟨idle, unset⟩

private theorem asksCustomer_submit (idle : session.pending = none) (operation : Operation Bytes)
    (callback : PaymentCallback) : asksCustomer (session.submit answers operation callback) =
      (answers.accept && callback == .onCustomerRead) := by
  unfold asksCustomer
  rw [Session.submit_pending, idle]
  cases answers.accept <;> cases callback <;> rfl

/-- The count after one more session. -/
def tally (count : Nat) (session : PaymentSession) :
    Nat := if asksCustomer session then count + 1 else count

/-- The body makes progress from this session. -/
def Advances (P : Platform) (params : PaymentParams) (count : Nat) (answers : Answers)
    (session : PaymentSession) (body : PaymentProg Unit) : Prop :=
  Progress P params (tally count (body.run answers session).2) (body.run answers session).2

/-- A callback other than that of the customer does not change how many customers were asked
for. -/
theorem Advances.of_submit {body : PaymentProg Unit} {before : PaymentSession}
    {operation : Operation Bytes} {callback : PaymentCallback}
    (ran : body.run answers session = ((), before.submit answers operation callback))
    (idle : before.pending = none) (unset : before.sets = [])
    (own : before.ctx.params = (redraw P)^[count] params) (other : callback ≠ .onCustomerRead)
    (asks : Asks P count before (some (operation, callback))) :
    Advances P params count answers session body := by
  have same : tally count (before.submit answers operation callback) = count := by
    simp [tally, asksCustomer_submit idle, other]
  rw [Advances, ran, same]
  exact .of_submit idle unset own asks

/-- A callback that neither submits nor sets anything has come to its end. -/
theorem Advances.of_idle {body : PaymentProg Unit} {after : PaymentSession}
    (ran : body.run answers session = ((), after)) (idle : after.pending = none) (unset : after.sets = []) :
    Advances P params count answers session body := by
  rw [Advances, ran]
  exact .inl ⟨idle, unset⟩

section Callbacks
variable (idle : session.pending = none) (unset : session.sets = [])
  (own : session.ctx.params = (redraw P)^[count] params)
include idle unset

theorem Advances.finishPayment (status : Nat) (text : String) :
    Advances P params count answers session (finishPayment status text) :=
  .of_idle (run_finishPayment answers session status text) idle unset

include own

/-- A read callback that retries, gives up or goes on makes progress if it does so with every
row. -/
theorem Advances.onRowRead [PackedRow ν] {text : String} {found : ν → PaymentProg Unit}
    {future : Future Bytes Bytes} (goesOn : ∀ row, Advances P params count answers session (found row)) :
    Advances P params count answers session
      (onRowRead P.host .onErrorRetry (Payment.finishPayment 500 text) found future) := by
  obtain ⟨code, ran⟩ | missing | ⟨row, going⟩ := run_onRowRead_cases answers session P.host
    PaymentCallback.onErrorRetry (Payment.finishPayment 500 text) found future
  · exact .of_submit ran idle unset own (by decide) ⟨⟨code, rfl⟩, unset⟩
  · rw [missing]
    exact .finishPayment idle unset 500 text
  · rw [going]
    exact goesOn row

/-- The district was read: a customer is chosen, and asked for if the submission succeeds. -/
theorem Advances.onDistrict (dv : DistrictVal) :
    Advances P params count answers session (onDistrict P dv) := by
  have own' : (withDistrict P dv session.ctx).params = (redraw P)^[count + 1] params := by
    rw [Function.iterate_succ_apply', ← own]
    exact chooseCustomer_params _
  rw [Advances, run_onDistrict]
  cases accepted : answers.accept <;> simp only [Session.submit, accepted]
  · exact .inl ⟨idle, unset⟩
  · exact .inr ⟨own', rfl, unset, Nat.succ_pos count⟩

/-- The customer was read: all rows are set, for the customer that the latest draw has chosen. -/
theorem Advances.onCustomer (positive : 0 < count) (cv : CustomerVal) :
    Advances P params count answers session (onCustomer P cv) := by
  rw [Advances, run_onCustomer, unset, List.nil_append]
  unfold Session.submit
  split
  · exact .inr ⟨own, rfl, positive, cv, answers.now, rfl⟩
  · simp only [tally, asksCustomer, idle]
    exact .inr ⟨own, positive, cv, answers.now, rfl⟩

theorem Advances.onCommit (future : Future Bytes Bytes) :
    Advances P params count answers session (onCommit future) := by
  unfold Payment.onCommit orRetry
  split
  · exact .of_submit (run_fdbHandleError answers session _ _) idle unset own (by decide) ⟨⟨_, rfl⟩, unset⟩
  · rw [Advances]
    simp only [Prog.run_bind, Prog.run_load, run_finish]
    exact .inl ⟨idle, unset⟩

theorem Advances.onErrorRetry (future : Future Bytes Bytes) :
    Advances P params count answers session (onErrorRetry future) := by
  unfold Payment.onErrorRetry
  split
  · exact .finishPayment idle unset 503 _
  · have ran : (do
        let ctx ← Stmt.load
        fdbAsyncGet (kvWarehouseKey ctx.wId) .onWarehouseRead : PaymentProg Unit).run answers session =
          ((), session.submit answers (.get (kvWarehouseKey session.ctx.wId)) .onWarehouseRead) := by
      simp
    exact .of_submit ran idle unset own (by decide) ⟨rfl, unset⟩

end Callbacks

/-- Whatever a future brings, the session after it has the parameters of the latest draw. -/
theorem Progress.resume (progress : Progress P params count session) (answers : Answers)
    (future : Future Bytes Bytes) :
    Progress P params (tally count ((paymentChain P).resume answers session future))
      ((paymentChain P).resume answers session future) := by
  cases waiting : session.pending with
  | none =>
    have same : (paymentChain P).resume answers session future = session := by
      simp only [Chain.resume, waiting]
    have unasked : tally count session = count := by simp [tally, asksCustomer, waiting]
    rw [same, unasked]
    exact progress
  | some next =>
    obtain ⟨operation, callback⟩ := next
    obtain ⟨idle, _⟩ | ⟨own, asks⟩ := progress
    · rw [waiting] at idle
      cases idle
    have resumed : (paymentChain P).resume answers session future =
        (((paymentChain P).body callback future).run answers
          { session with pending := none, sets := [] }).2 := by
      simp only [Chain.resume, waiting]
    rw [waiting] at asks
    rw [resumed]
    change ({ session with pending := none, sets := [] } : PaymentSession).ctx.params = _ at own
    have idle : ({ session with pending := none, sets := [] } : PaymentSession).pending = none := rfl
    have unset : ({ session with pending := none, sets := [] } : PaymentSession).sets = [] := rfl
    generalize ({ session with pending := none, sets := [] } : PaymentSession) = start at own idle unset
    cases callback with
    | onWarehouseRead =>
      refine Advances.onRowRead idle unset own fun wv => ?_
      exact .of_submit (run_onWarehouse answers start wv) idle unset own (by decide) ⟨rfl, unset⟩
    | onDistrictRead => exact Advances.onRowRead idle unset own fun dv => .onDistrict idle unset own dv
    | onCustomerRead =>
      exact Advances.onRowRead idle unset own fun cv => .onCustomer idle unset own asks.2.2 cv
    | onCommit => exact Advances.onCommit idle unset own future
    | onErrorRetry => exact Advances.onErrorRetry idle unset own future

/-- A session that asks for a customer, or has set the rows of one, has chosen it. -/
theorem Progress.positive (progress : Progress P params count session)
    (touches : asksCustomer session = true ∨ session.sets ≠ []) :
    0 < count ∧ session.ctx.params = (redraw P)^[count] params := by
  obtain ⟨idle, unset⟩ | ⟨own, asks⟩ := progress
  · simp [asksCustomer, idle, unset] at touches
  · refine ⟨?_, own⟩
    cases waiting : session.pending with
    | none =>
      rw [waiting] at asks
      exact asks.1
    | some next =>
      obtain ⟨operation, callback⟩ := next
      rw [waiting] at asks
      cases callback with
      | onWarehouseRead | onDistrictRead | onErrorRetry => simp [asksCustomer, waiting, asks.2] at touches
      | onCustomerRead => exact asks.2.2
      | onCommit => exact asks.2.1

/-- Rows that were set determine the customer they were set for. -/
private theorem rows_customer_eq {ctx ctx' : PaymentCtx} {cv cv' : CustomerVal} {now now' : Int64}
    (same : built P.host (rows P ctx cv now) = built P.host (rows P ctx' cv' now')) :
    ctx.cId = ctx'.cId := by
  simp only [rows, built_cons, List.cons.injEq, Prod.mk.injEq] at same
  exact (Key.customer.inj (Key.build_injective P.host _ _ same.2.2.1.1)).2.2

/-- What a session sets are the rows of a payment with its own context. -/
theorem Progress.sets (progress : Progress P params count session) (set : session.sets ≠ []) :
    ∃ cv now, session.sets = built P.host (rows P session.ctx cv now) := by
  obtain ⟨_, unset⟩ | ⟨_, asks⟩ := progress
  · exact absurd unset set
  · cases waiting : session.pending with
    | none =>
      rw [waiting] at asks
      exact asks.2
    | some next =>
      obtain ⟨operation, callback⟩ := next
      rw [waiting] at asks
      cases callback with
      | onWarehouseRead | onDistrictRead | onErrorRetry => exact absurd asks.2 set
      | onCustomerRead => exact absurd asks.2.1 set
      | onCommit => exact asks.2.2

private theorem Progress.charges_iff (progress : Progress P params count session) (cId : UInt32) :
    Charges P params cId session ↔
      (asksCustomer session = true ∨ session.sets ≠ [] → session.ctx.cId = cId) := by
  constructor
  · rintro charges (asking | set)
    · obtain ⟨idle, _⟩ | ⟨_, asks⟩ := progress
      · simp [asksCustomer, idle] at asking
      unfold asksCustomer at asking
      split at asking
      · rename_i operation waiting
        rw [waiting] at asks
        obtain ⟨rfl, _⟩ := asks
        have member := charges.reads _ _ waiting
        simp only [List.mem_cons, List.not_mem_nil, or_false] at member
        rcases member with other | other | same
        · cases Key.build_injective P.host (.customer _ _ _) (.warehouse _) other
        · cases Key.build_injective P.host (.customer _ _ _) (.district _ _) other
        · exact (Key.customer.inj (Key.build_injective P.host (.customer _ _ _) (.customer _ _ _) same)).2.2
      · cases asking
    · obtain ⟨cv, now, rows⟩ := progress.sets set
      obtain ⟨ctx, cv', now', rows', _, _, _, same, _⟩ := charges.writes set
      exact (rows_customer_eq (rows.symm.trans rows')).trans same
  · intro right
    refine ⟨fun key callback waiting => ?_, fun set => ?_⟩
    · obtain ⟨idle, _⟩ | ⟨own, asks⟩ := progress
      · rw [waiting] at idle
        cases idle
      obtain ⟨w, cw, cd, _⟩ := redraw_frame P params count
      rw [← own] at w cw cd
      rw [waiting] at asks
      cases callback with
      | onWarehouseRead =>
        cases asks.1
        simp [← w, PaymentCtx.params]
      | onDistrictRead =>
        cases asks.1
        simp [← cw, ← cd, PaymentCtx.params]
      | onCustomerRead =>
        cases asks.1
        rw [right (.inl (by simp [asksCustomer, waiting]))]
        simp [← cw, ← cd, PaymentCtx.params]
      | onErrorRetry => obtain ⟨⟨code, impossible⟩, _⟩ := asks; cases impossible
      | onCommit => cases asks.1
    · obtain ⟨cv, now, rows⟩ := progress.sets set
      obtain ⟨_, own⟩ := progress.positive (.inr set)
      obtain ⟨w, cw, cd, amount, _⟩ := redraw_frame P params count
      rw [← own] at w cw cd amount
      exact ⟨session.ctx, cv, now, rows, w, cw, cd, right (.inr set), amount⟩

end Steps

/-! ## Whole requests -/

section Runs
variable {P params} {session : PaymentSession} {count : Nat}

private theorem trail_eq_cons (outcomes : List (Answers × Future Bytes Bytes)) :
    (paymentChain P).trail session outcomes =
      session :: ((paymentChain P).trail session outcomes).tail := by
  cases outcomes <;> rfl

/-- Every session of a request makes progress, and every choice of a customer is made by
one of them. -/
theorem Progress.trail (progress : Progress P params count session)
    (outcomes : List (Answers × Future Bytes Bytes)) :
    let asked := ((paymentChain P).trail session outcomes).tail.countP asksCustomer
    (∀ later ∈ (paymentChain P).trail session outcomes, ∃ j ≤ count + asked, Progress P params j later) ∧
    (∀ k, count ≤ k → k < count + asked → ∃ later ∈ (paymentChain P).trail session outcomes,
      asksCustomer later = true ∧ Progress P params (k + 1) later) := by
  induction outcomes generalizing session count with
  | nil =>
    refine ⟨fun later member => ?_, fun k least most => ?_⟩
    · cases List.mem_singleton.mp member
      exact ⟨count, Nat.le_add_right .., progress⟩
    · exact absurd most (by simp [Chain.trail]; omega)
  | cons outcome rest ih =>
    obtain ⟨answers, future⟩ := outcome
    have next := progress.resume answers future
    simp only [Chain.trail, List.tail_cons, List.mem_cons]
    generalize (paymentChain P).resume answers session future = following at next
    obtain ⟨each, every⟩ := ih next
    have counted : count + ((paymentChain P).trail following rest).countP asksCustomer =
        tally count following + ((paymentChain P).trail following rest).tail.countP asksCustomer := by
      rw [trail_eq_cons, List.countP_cons, List.tail_cons]
      unfold tally
      split <;> omega
    rw [counted]
    refine ⟨?_, fun k least most => ?_⟩
    · rintro later (rfl | member)
      · refine ⟨count, ?_, progress⟩
        unfold tally
        split <;> omega
      · exact each later member
    · by_cases now : k < tally count following
      · -- The following session is the one that asks for this customer.
        unfold tally at now next
        split at now
        · rename_i asking
          rw [if_pos asking, show count + 1 = k + 1 by omega] at next
          exact ⟨following, .inr (by rw [trail_eq_cons]; exact List.mem_cons_self), asking, next⟩
        · omega
      · obtain ⟨later, member, rest⟩ := every k (Nat.le_of_not_lt now) most
        exact ⟨later, .inr member, rest⟩

/-- A payment starts with the parameters of its request, before any draw. -/
theorem Progress.start (P : Platform) (params : PaymentParams) (answers : Answers) :
    Progress P params 0 ((paymentChain P).start params answers) ∧
      asksCustomer ((paymentChain P).start params answers) = false := by
  rw [run_start]
  split
  · split
    · exact ⟨.of_submit rfl rfl rfl ⟨rfl, rfl⟩, by simp [asksCustomer_submit]⟩
    · exact ⟨.inl ⟨rfl, rfl⟩, rfl⟩
  · exact ⟨.inl ⟨rfl, rfl⟩, rfl⟩

private theorem charges_iff_chosen (P : Platform) (params : PaymentParams) (answers : Answers)
    (outcomes : List (Answers × Future Bytes Bytes)) :
    let trail := (paymentChain P).trail ((paymentChain P).start params answers) outcomes
    (∀ session ∈ trail, Charges P params (customer P params) session) ↔
      ∀ k < trail.countP asksCustomer, chosen P params k = customer P params := by
  intro trail
  obtain ⟨progress, unasked⟩ := Progress.start P params answers
  obtain ⟨each, every⟩ := progress.trail outcomes
  have counted : trail.countP asksCustomer = 0 + trail.tail.countP asksCustomer := by
    rw [show trail = _ :: trail.tail from trail_eq_cons outcomes, List.countP_cons, unasked]
    simp
  rw [counted]
  constructor
  · intro all k below
    obtain ⟨session, member, asking, progress⟩ := every k (Nat.zero_le k) below
    obtain ⟨_, own⟩ := progress.positive (.inl asking)
    rw [← (progress.charges_iff _).mp (all session member) (.inl asking)]
    exact congrArg PaymentParams.cId own.symm
  · intro same session member
    obtain ⟨j, most, progress⟩ := each session member
    refine (progress.charges_iff _).mpr fun touches => ?_
    obtain ⟨positive, own⟩ := progress.positive touches
    obtain ⟨k, rfl⟩ := Nat.exists_eq_add_of_lt positive
    rw [← same (0 + k) most]
    exact congrArg PaymentParams.cId own

/-- The choices agree just if there is only one, or the draws that they are made of agree. -/
theorem charges_iff_draws (P : Platform) (params : PaymentParams) (answers : Answers)
    (outcomes : List (Answers × Future Bytes Bytes)) :
    let trail := (paymentChain P).trail ((paymentChain P).start params answers) outcomes
    (∀ session ∈ trail, Charges P params (customer P params) session) ↔
      params.byName = false ∨ ∀ k < trail.countP asksCustomer,
        (rawDraw P params.seed k).toNat ≡ (rawDraw P params.seed 0).toNat [MOD 2999] := by
  intro trail
  refine (charges_iff_chosen P params answers outcomes).trans ?_
  cases byName : params.byName with
  | false =>
    have numbered (k : Nat) : chosen P params k = customer P params := by
      rw [chosen_numbered byName, customer, byName]
      rfl
    simp [numbered]
  | true =>
    simp only [Bool.true_eq_false, false_or]
    exact forall₂_congr fun k _ => chosen_eq_iff byName k

/-- Undisturbed, a payment charges the customer of its request. -/
private theorem quiet_chosen (P : Platform) (params : PaymentParams) {view : Bytes → Option Bytes}
    {wv : WarehouseVal} {dv : DistrictVal} {cv : CustomerVal} (now : Int64)
    (supplied : Supplied P params.ctx wv dv cv (tablesOf P.host view)) :
    ∃ fresh, (paymentChain P).client.Quiet { now } view ((paymentChain P).start params { now }) []
        fresh (built P.host (rows P fresh.ctx cv now)) ∧
      fresh.pending = some (.commit, .onCommit) ∧ fresh.ctx.cId = customer P params := by
  have started := start_waits P params now
  obtain ⟨fresh, quiet, pending, _, ctx⟩ := quiet_payment P { now } view rfl
    ((paymentChain P).start params { now }) (by rw [started]; exact supplied) (by rw [started]; rfl)
  refine ⟨fresh, quiet, pending, ?_⟩
  rw [started] at ctx
  have own : fresh.ctx.params = redraw P params := by
    rw [ctx]
    exact chooseCustomer_params _
  exact (congrArg PaymentParams.cId own).trans (chosen_zero P params)

end Runs

end Payment

/-! ## Retries -/

/-- **Retries of a payment.** However its futures turn out, all sessions of a payment read and
set what an error-free payment with the same parameters does exactly if the customer is given by
number, or the `rand_r` values that the attempts have drawn from its seed agree modulo 2999. -/
theorem payment_retries_iff (P : Platform) (params : PaymentParams) :
    (∀ answers outcomes,
      let trail := (paymentChain P).trail ((paymentChain P).start params answers) outcomes
      (∀ session ∈ trail, Payment.Charges P params (Payment.customer P params) session) ↔
        params.byName = false ∨ ∀ k < trail.countP Payment.asksCustomer,
          (rawDraw P params.seed k).toNat ≡ (rawDraw P params.seed 0).toNat [MOD 2999]) ∧
    (∀ view wv dv cv now, Payment.Supplied P params.ctx wv dv cv (tablesOf P.host view) →
      ∃ fresh, (paymentChain P).client.Quiet { now } view ((paymentChain P).start params { now }) []
          fresh (built P.host (Payment.rows P fresh.ctx cv now)) ∧
        fresh.pending = some (.commit, .onCommit) ∧ fresh.ctx.cId = Payment.customer P params) :=
  ⟨Payment.charges_iff_draws P params, fun _ _ _ _ now => Payment.quiet_chosen P params now⟩

/-- A payment of 100 by last name. -/
def namedPayment : PaymentParams :=
  { smallPayment 1 with cId := 0, cLast := Payment.genCLast 0, byName := true }

/-- All rows are there, the first commit fails, the transaction is reset, and the second
commit succeeds. -/
def retriedOnce : List (Answers × Future Bytes Bytes) :=
  let reads : List (Future Bytes Bytes) := [.value (some (encode .little (PackedRow.zero : WarehouseVal))),
    .value (some (encode .little (PackedRow.zero : DistrictVal))),
    .value (some (encode .little (PackedRow.zero : CustomerVal)))]
  let failed : List (Future Bytes Bytes) := [.error 1020, .done]
  (reads ++ failed ++ reads ++ [Future.done]).map ({}, ·)

/-- A payment by name is about to charge customer 2, is retried once after a conflict, and
charges customer 3: the seed has moved on between the attempts. -/
theorem named_payment_moves :
    let trail := (paymentChain plainPlatform).trail ((paymentChain plainPlatform).start namedPayment {})
      retriedOnce
    (trail[3]?.map fun session => session.sets.map Prod.fst) = some [kvWarehouseKey 1,
      kvDistrictKey 1 1, kvCustomerKey 1 1 2, historyKey 1 1 1 2 0] ∧
    (trail[8]?.map fun session => session.sets.map Prod.fst) = some [kvWarehouseKey 1,
      kvDistrictKey 1 1, kvCustomerKey 1 1 3, historyKey 1 1 1 3 0] ∧
    (trail[9]?.map fun session => session.reply.map Response.ok) = some (some true) ∧
    ¬ ∀ session ∈ trail, Payment.Charges plainPlatform namedPayment 2 session := by
  intro trail
  have first : (trail[3]?.map fun session => session.sets.map Prod.fst) = some [kvWarehouseKey 1,
      kvDistrictKey 1 1, kvCustomerKey 1 1 2, historyKey 1 1 1 2 0] := by decide +kernel
  have second : (trail[8]?.map fun session => session.sets.map Prod.fst) = some [kvWarehouseKey 1,
      kvDistrictKey 1 1, kvCustomerKey 1 1 3, historyKey 1 1 1 3 0] := by decide +kernel
  refine ⟨first, second, by decide +kernel, fun all => ?_⟩
  obtain ⟨session, found, keys⟩ := Option.map_eq_some_iff.mp second
  obtain ⟨ctx, cv, now, rows, _, _, _, customer, _⟩ :=
    (all session (List.mem_of_getElem? found)).writes fun unset => by simp [unset] at keys
  simp only [rows, Payment.rows, built_cons, built_nil, List.map_cons, List.cons.injEq] at keys
  have same := Key.build_injective .little (.customer _ _ _) (.customer 1 1 3) keys.2.2.1
  rw [(Key.customer.inj same).2.2] at customer
  exact absurd customer (by decide)

/-- A payment by number charges its customer, retried or not, as an undisturbed one does. -/
theorem payment_retries_iff_numbered :
    (∀ session ∈ (paymentChain plainPlatform).trail
        ((paymentChain plainPlatform).start (smallPayment 1) {}) retriedOnce,
      Payment.Charges plainPlatform (smallPayment 1) 1 session) ∧
    ∃ fresh sets, (paymentChain plainPlatform).client.Quiet {} (fun key => smallLoaded[key]?)
      ((paymentChain plainPlatform).start (smallPayment 1) {}) [] fresh sets ∧ fresh.ctx.cId = 1 := by
  obtain ⟨charges, quiet⟩ := payment_retries_iff plainPlatform (smallPayment 1)
  refine ⟨(charges {} retriedOnce).mpr (.inl rfl), ?_⟩
  obtain ⟨wv, warehouse, _⟩ := smallLoaded_warehouse 1 (.inl rfl)
  obtain ⟨dv, district, _⟩ := smallLoaded_district 1 (.inl rfl)
  obtain ⟨fresh, ran, _, customer⟩ := quiet (fun key => smallLoaded[key]?) wv dv PackedRow.zero 0
    ⟨warehouse, district, smallLoaded_customer 1 (.inl rfl)⟩
  exact ⟨fresh, _, ran, customer⟩

end H2oTpcc

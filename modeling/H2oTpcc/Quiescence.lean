import H2oTpcc.RequestMachine

/-! When a request comes to rest: no callback is in progress and no future is outstanding.
A chain whose callbacks do not look at whether a submission succeeded has answered and
released everything by then if and only if no submission failed on the way. -/
namespace H2oTpcc

variable {S σ κ K V ρ : Type}

/-! ## Rest -/

/-- The callback has returned. -/
def Prog.ended : Prog σ κ K V ρ α → Bool
  | pure _ => true
  | _ => false

/-- The next statement is a submission, and it fails. -/
def Prog.refused (answers : Answers) : Prog σ κ K V ρ α → Bool
  | submit .. => !answers.accept
  | _ => false

namespace Request

/-- Every callback has returned and nothing is outstanding: nothing will happen any more. -/
structure AtRest (request : Request σ κ K V ρ) : Prop where
  idle : request.outstanding = []
  ended : ∀ frame ∈ request.frames, frame.ended = true

/-- The client has its answer, and neither the transaction nor the context is left. -/
structure Settled (request : Request σ κ K V ρ) : Prop where
  answered : request.sent ≠ []
  destroyed : request.transaction ≠ .live
  freed : ∀ ctx, request.memory ≠ .live ctx

instance (request : Request σ κ K V ρ) : Decidable request.AtRest :=
  decidable_of_iff (request.outstanding = [] ∧ ∀ frame ∈ request.frames, frame.ended = true)
    ⟨fun both => ⟨both.1, both.2⟩, fun rest => ⟨rest.idle, rest.ended⟩⟩

/-- The move is a submission that fails. -/
def Move.refused (request : Request σ κ K V ρ) : Move K V → Bool
  | .run i answers => (request.frames[i]?.map (Prog.refused answers)).getD false
  | .fire .. => false

/-- A submission fails in the course of the moves. -/
def refused (chain : Chain S σ κ K V ρ) (request : Request σ κ K V ρ) : List (Move K V) → Bool
  | [] => false
  | next :: rest =>
    next.refused request || ((request.move chain next).map (refused chain · rest)).getD false

end Request

/-! ## Callbacks that see a request through -/

/-- The request is over for the callback that is responsible for it. -/
structure Own.Closed (own : Own σ) : Prop where
  answered : own.sent = true
  destroyed : own.transaction ≠ .live
  freed : ∀ ctx, own.memory ≠ .live ctx

/-- Every path of the body ends in `post`, or comes to a submission and goes on in the
same way whether that succeeds or not. -/
def Prog.Concludes (zero : σ) : Prog σ κ K V ρ α → Own σ → (α → Own σ → Prop) → Prop
  | pure result, own, post => post result own
  | alloc next, own, post => (next true).Concludes zero { own with memory := .live zero } post ∧
    (next false).Concludes zero own post
  | create next, own, post => (next true).Concludes zero { own with transaction := .live } post ∧
    (next false).Concludes zero own post
  | load next, own, post => ∀ ctx, own.memory = .live ctx → (next ctx).Concludes zero own post
  | store update next, own, post => ∀ ctx, own.memory = .live ctx →
    next.Concludes zero { own with memory := .live (update ctx) } post
  | index _ _ next, own, post => next.Concludes zero own post
  | time next, own, post => ∀ now, (next now).Concludes zero own post
  | draw next, own, post => ∀ seed, (next seed).Concludes zero own post
  | set _ _ next, own, post => next.Concludes zero own post
  | submit _ _ next, _, _ => next true = next false
  | send _ next, own, post => next.Concludes zero { own with sent := true } post
  | destroy next, own, post => next.Concludes zero { own with transaction := .destroyed } post
  | free next, own, post => next.Concludes zero { own with memory := .freed } post

section Rules
variable {zero : σ} {own : Own σ}

/-- Two statements in a row conclude if the second does wherever the first can lead. -/
theorem Prog.Concludes.bind {post : β → Own σ → Prop} {first : Prog σ κ K V ρ α}
    {rest : α → Prog σ κ K V ρ β}
    (concludes : first.Concludes zero own fun result own' => (rest result).Concludes zero own' post) :
    (first >>= rest).Concludes zero own post := by
  change (first.bind rest).Concludes zero own post
  induction first generalizing own with
  | pure => exact concludes
  | submit operation callback next ih =>
    change (next true).bind rest = (next false).bind rest
    rw [show next true = next false from concludes]
  | _ => simp only [Prog.bind, Prog.Concludes] at concludes ⊢; grind

theorem Prog.Concludes.mono {post post' : α → Own σ → Prop} {body : Prog σ κ K V ρ α}
    (concludes : body.Concludes zero own post)
    (weaker : ∀ result own', post result own' → post' result own') :
    body.Concludes zero own post' := by
  induction body generalizing own with
  | pure => exact weaker _ _ concludes
  | _ => simp only [Prog.Concludes] at concludes ⊢; grind

section Statements
variable {post : β → Own σ → Prop} {last : Unit → Own σ → Prop}

@[simp] theorem concludes_pure (result : β) :
    (Pure.pure result : Prog σ κ K V ρ β).Concludes zero own post ↔ post result own := Iff.rfl

@[simp] theorem concludes_load_bind (rest : σ → Prog σ κ K V ρ β) :
    (Stmt.load >>= rest).Concludes zero own post ↔
      ∀ ctx, own.memory = .live ctx → (rest ctx).Concludes zero own post := Iff.rfl

@[simp] theorem concludes_store_bind (update : σ → σ) (rest : Unit → Prog σ κ K V ρ β) :
    (Stmt.store update >>= rest).Concludes zero own post ↔ ∀ ctx, own.memory = .live ctx →
      (rest ()).Concludes zero { own with memory := .live (update ctx) } post := Iff.rfl

@[simp] theorem concludes_store (update : σ → σ) :
    (Stmt.store update : Prog σ κ K V ρ Unit).Concludes zero own last ↔ ∀ ctx, own.memory = .live ctx →
      last () { own with memory := .live (update ctx) } := Iff.rfl

@[simp] theorem concludes_index (position bound : Nat) :
    (Stmt.index position bound : Prog σ κ K V ρ Unit).Concludes zero own last ↔ last () own := Iff.rfl

@[simp] theorem concludes_index_bind (position bound : Nat) (rest : Unit → Prog σ κ K V ρ β) :
    (Stmt.index position bound >>= rest).Concludes zero own post ↔
      (rest ()).Concludes zero own post := Iff.rfl

@[simp] theorem concludes_time_bind (rest : Int64 → Prog σ κ K V ρ β) :
    (Stmt.time >>= rest).Concludes zero own post ↔ ∀ now, (rest now).Concludes zero own post := Iff.rfl

@[simp] theorem concludes_draw_bind (rest : UInt32 → Prog σ κ K V ρ β) :
    (Stmt.draw >>= rest).Concludes zero own post ↔ ∀ seed, (rest seed).Concludes zero own post := Iff.rfl

@[simp] theorem concludes_set (key : K) (value : V) :
    (Stmt.set key value : Prog σ κ K V ρ Unit).Concludes zero own last ↔ last () own := Iff.rfl

/-- What follows a submission does not know how it went: only if it was accepted will there be a
callback to conclude. -/
@[simp] theorem concludes_submit_bind (operation : Operation K) (callback : κ) (rest : Prog σ κ K V ρ β) :
    (Stmt.submit operation callback >>= fun _ => rest).Concludes zero own post := rfl

@[simp] theorem concludes_send_bind (reply : ρ) (rest : Unit → Prog σ κ K V ρ β) :
    (Stmt.send reply >>= rest).Concludes zero own post ↔
      (rest ()).Concludes zero { own with sent := true } post := Iff.rfl

@[simp] theorem concludes_destroy_bind (rest : Unit → Prog σ κ K V ρ β) :
    (Stmt.destroy >>= rest).Concludes zero own post ↔
      (rest ()).Concludes zero { own with transaction := .destroyed } post := Iff.rfl

@[simp] theorem concludes_free :
    (Stmt.free : Prog σ κ K V ρ Unit).Concludes zero own last ↔ last () { own with memory := .freed } :=
  Iff.rfl

/-- A loop whose iterations leave everything in place leaves the rest of the body to conclude. -/
theorem concludes_forRange {count : Nat} {body : Nat → Prog σ κ K V ρ Unit}
    (iteration : ∀ i, (body i).Concludes zero own fun _ own' => own' = own)
    (after : last () own) : (Stmt.forRange count body).Concludes zero own last := by
  unfold Stmt.forRange
  induction List.range count with
  | nil => exact after
  | cons i rest ih =>
    refine Prog.Concludes.bind ((iteration i).mono fun _ own' same => ?_)
    rw [same]
    exact ih

end Statements

end Rules

/-! ## Steps -/

section Steps
variable {zero : σ} {At : κ → σ → Prop} {Bound : Nat → Prop} {request : Request σ κ K V ρ}
  {frame : Prog σ κ K V ρ Unit} {post post' : Unit → Own σ → Prop} {answers : Answers}

/-- One statement of a body that concludes, and what is left of it concludes still, unless a
submission was refused. -/
theorem Prog.Concludes.exec (concludes : frame.Concludes zero request.own post)
    (safe : frame.Safe zero At Bound request.own post')
    (kept : (frame.exec zero answers request).1.outstanding = request.outstanding)
    (accepted : frame.refused answers = false) :
    (frame.exec zero answers request).2.Concludes zero (frame.exec zero answers request).1.own post := by
  cases frame with
  | pure result | index position bound next => exact concludes
  | time next => exact concludes answers.now
  | draw next => exact concludes answers.seed
  | alloc next =>
    cases answered : answers.alloc <;> simp only [Prog.exec, answered]
    · exact concludes.2
    · exact concludes.1
  | create next =>
    cases answered : answers.create <;> simp only [Prog.exec, answered]
    · exact concludes.2
    · exact concludes.1
  | load next | store update next =>
    obtain ⟨ctx, live, _⟩ := safe
    have rest := concludes ctx live
    change request.memory = .live ctx at live
    simp only [Prog.exec, Request.useContext_live live]
    exact rest
  | set key value next | destroy next =>
    have live : request.transaction = .live := safe.1
    simp only [Prog.exec, Request.useTransaction_live live]
    exact concludes
  | submit operation callback next =>
    have answered : answers.accept = true := by simpa [Prog.refused] using accepted
    simp [Prog.exec, answered] at kept
  | send reply next =>
    change next.Concludes zero { request.own with sent := true } post at concludes
    have sent : (!(request.sent ++ [reply]).isEmpty) = true := by simp
    simp only [Prog.exec, Request.own, sent]
    exact concludes
  | free next =>
    obtain ⟨⟨ctx, live⟩, _⟩ := safe
    change request.memory = .live ctx at live
    simp only [Prog.exec, Request.useContext_live live]
    exact concludes

/-- A failed submission leaves the request with the callback, which does nothing more. -/
theorem Prog.Concludes.exec_refused (concludes : frame.Concludes zero request.own post)
    (safe : frame.Safe zero At Bound request.own post') (failed : frame.refused answers = true) :
    (frame.exec zero answers request).1 = request ∧ (∃ ctx, request.own = .held ctx) ∧
      (frame.exec zero answers request).2.Safe zero At Bound .gone post' := by
  cases frame with
  | submit operation callback next =>
    obtain ⟨⟨ctx, held, _⟩, inert, _⟩ := safe
    have answered : answers.accept = false := by simpa [Prog.refused] using failed
    have live : request.transaction = .live := congrArg Own.transaction held
    have same : next true = next false := concludes
    simp only [Prog.exec, Request.useTransaction_live live, answered, ← same]
    exact ⟨rfl, ⟨ctx, held⟩, inert⟩
  | _ => cases failed

private theorem Prog.Safe.gone_refused (inert : frame.Safe zero At Bound .gone post) :
    frame.refused answers = false := by
  cases frame with
  | submit operation callback next =>
    obtain ⟨⟨ctx, held, _⟩, _⟩ := inert
    cases held
  | _ => rfl

end Steps

/-! ## Runs -/

/-- The bodies of the chain see a request through. -/
structure Chain.Concluding (chain : Chain S σ κ K V ρ) (parameters : S) (At : κ → σ → Prop) : Prop where
  entry : (chain.entry parameters).Concludes chain.zero {} fun _ own => own.Closed
  body : ∀ callback future ctx, At callback ctx →
    (chain.body callback future).Concludes chain.zero (.held ctx) fun _ own => own.Closed

/-- A request that has come to rest is settled if none of its submissions failed, and
only then. -/
def Chain.SettlesUnlessRefused (chain : Chain S σ κ K V ρ) (parameters : S) : Prop :=
  ∀ moves request, Request.play chain { frames := [chain.entry parameters] } moves = some request →
    request.AtRest →
    (request.Settled ↔ Request.refused chain { frames := [chain.entry parameters] } moves = false)

section Runs
variable {chain : Chain S σ κ K V ρ} {parameters : S} {At : κ → σ → Prop} {Bound : Nat → Prop}
  {request request' : Request σ κ K V ρ}

/-- No submission has failed so far: who is in charge will see the request through. -/
def Request.Attended (chain : Chain S σ κ K V ρ) (At : κ → σ → Prop) (Bound : Nat → Prop)
    (request : Request σ κ K V ρ) : Prop :=
  request.Charge At
    (fun active own => active.Safe chain.zero At Bound own (fun _ _ => True) ∧
      active.Concludes chain.zero own fun _ own => own.Closed)
    fun frame => frame.Safe chain.zero At Bound .gone fun _ _ => True

/-- A submission has failed: the client waits and everything is in place, but there is
nobody left who could do anything about it. -/
structure Request.Abandoned (chain : Chain S σ κ K V ρ) (At : κ → σ → Prop) (Bound : Nat → Prop)
    (request : Request σ κ K V ρ) : Prop where
  idle : request.outstanding = []
  held : ∃ ctx, request.own = .held ctx
  inert : ∀ frame ∈ request.frames, frame.Safe chain.zero At Bound .gone fun _ _ => True

/-- A request that is looked after and at rest has been answered, and its context and its
transaction are released. -/
theorem Request.Attended.settled (attended : request.Attended chain At Bound) (rest : request.AtRest) :
    request.Settled := by
  cases attended with
  | running i active found idle good others =>
    have finished := rest.ended active (List.mem_of_getElem? found)
    cases active with
    | pure result =>
      obtain ⟨answered, destroyed, freed⟩ : request.own.Closed := good.2
      exact ⟨by simpa [Request.own] using answered, destroyed, freed⟩
    | _ => cases finished
  | waiting operation callback ctx pending => simp [rest.idle] at pending

private theorem Request.Abandoned.not_settled (abandoned : request.Abandoned chain At Bound) :
    ¬ request.Settled := by
  obtain ⟨ctx, held⟩ := abandoned.held
  exact fun settled => settled.freed ctx (congrArg Own.memory held)

/-- While no submission is refused, somebody stays in charge of the request. -/
theorem Request.Attended.move (disciplined : chain.Disciplined parameters At Bound)
    (concluding : chain.Concluding parameters At) (clean : request.Clean Bound)
    (attended : request.Attended chain At Bound) {next : Request.Move K V}
    (moved : request.move chain next = some request') (accepted : next.refused request = false) :
    request'.Attended chain At Bound := by
  cases next with
  | fire i future =>
    exact attended.fire moved fun callback ctx fit =>
      ⟨disciplined.body callback future ctx fit, concluding.body callback future ctx fit⟩
  | run i answers =>
    refine Request.Charge.run attended moved (fun frame running good => ?_) (fun frame running inert => ?_)
    · obtain ⟨safe, concludes⟩ := good
      have accepted : frame.refused answers = false := by
        simpa [Request.Move.refused, running] using accepted
      obtain ⟨kept, safe'⟩ | handed := (safe.exec clean answers).2
      · exact .inl ⟨kept, safe', concludes.exec safe kept accepted⟩
      · exact .inr handed
    · obtain ⟨same, _, rest⟩ := inert.exec_gone clean answers
      exact ⟨same, rest⟩

/-- Only the callback in charge can have made the submission that failed. -/
private theorem Request.Attended.abandon (attended : request.Attended chain At Bound)
    {next : Request.Move K V}
    (moved : request.move chain next = some request') (failed : next.refused request = true) :
    request'.Abandoned chain At Bound := by
  cases next with
  | fire i future => cases failed
  | run i answers =>
    obtain ⟨frame, running, rfl⟩ := Option.map_eq_some_iff.mp moved
    have failed : frame.refused answers = true := by simpa [Request.Move.refused, running] using failed
    cases attended with
    | running j active found idle good others =>
      by_cases own : i = j
      · subst own
        cases found.symm.trans running
        obtain ⟨same, held, inert⟩ := good.2.exec_refused good.1 failed
        exact ⟨by rw [same]; exact idle, by rw [same]; exact held, inert_set inert others⟩
      · simp [(others i frame own running).gone_refused] at failed
    | waiting _ _ _ _ _ _ others =>
      simp [(others frame (List.mem_of_getElem? running)).gone_refused] at failed

/-- An abandoned request stays abandoned: no future is outstanding that could wake it. -/
theorem Request.Abandoned.move (clean : request.Clean Bound)
    (abandoned : request.Abandoned chain At Bound)
    {next : Request.Move K V} (moved : request.move chain next = some request') :
    request'.Abandoned chain At Bound := by
  cases next with
  | fire i future => simp [Request.move, abandoned.idle] at moved
  | run i answers =>
    obtain ⟨frame, running, rfl⟩ := Option.map_eq_some_iff.mp moved
    obtain ⟨⟨accesses, same⟩, _, inert⟩ :=
      (abandoned.inert frame (List.mem_of_getElem? running)).exec_gone clean answers
    rw [same]
    exact ⟨abandoned.idle, abandoned.held,
      inert_set inert fun j frame _ found => abandoned.inert frame (List.mem_of_getElem? found)⟩

section Play
variable (disciplined : chain.Disciplined parameters At Bound)
include disciplined

theorem Request.Abandoned.play (reachable : Request.Reachable chain parameters request)
    (abandoned : request.Abandoned chain At Bound) {moves : List (Request.Move K V)}
    (played : request.play chain moves = some request') : request'.Abandoned chain At Bound := by
  induction moves generalizing request with
  | nil =>
    cases played
    exact abandoned
  | cons next rest ih =>
    obtain ⟨middle, moved, played⟩ := Option.bind_eq_some_iff.mp played
    have clean := (disciplined.custody reachable).1
    exact ih (reachable.tail ⟨next, moved⟩) (abandoned.move clean moved) played

/-- Along a whole run the request is in somebody's charge until the first refusal, and abandoned
from then on. -/
theorem Request.Attended.play (concluding : chain.Concluding parameters At)
    (reachable : Request.Reachable chain parameters request) (attended : request.Attended chain At Bound)
    {moves : List (Request.Move K V)} (played : request.play chain moves = some request') :
    if Request.refused chain request moves then request'.Abandoned chain At Bound
    else request'.Attended chain At Bound := by
  induction moves generalizing request with
  | nil =>
    cases played
    exact attended
  | cons next rest ih =>
    obtain ⟨middle, moved, played⟩ := Option.bind_eq_some_iff.mp played
    have onwards : Request.Reachable chain parameters middle := reachable.tail ⟨next, moved⟩
    have clean := (disciplined.custody reachable).1
    cases failed : next.refused request with
    | true =>
      simp only [Request.refused, failed, Bool.true_or, if_true]
      exact (attended.abandon moved failed).play disciplined onwards played
    | false =>
      simp only [Request.refused, failed, moved, Option.map_some, Option.getD_some, Bool.false_or]
      exact ih onwards (attended.move disciplined concluding clean moved failed) played

/-- A chain that concludes settles all its requests whose submissions are accepted, and none of
the others. -/
theorem Chain.Disciplined.settles (concluding : chain.Concluding parameters At) :
    chain.SettlesUnlessRefused parameters := by
  intro moves request played rest
  have attended : Request.Attended chain At Bound { frames := [chain.entry parameters] } := by
    refine .running 0 _ rfl rfl ⟨disciplined.entry, concluding.entry⟩ ?_
    intro j frame apart found
    rw [List.getElem?_singleton, if_neg apart] at found
    cases found
  have outcome := attended.play disciplined concluding .refl played
  split at outcome
  · rename_i failed
    simp [failed, outcome.not_settled]
  · rename_i accepted
    simpa [accepted] using outcome.settled rest

end Play

end Runs

end H2oTpcc

import H2oTpcc.Quiescence
import H2oTpcc.StatementWorld

/-! Requests that keep the discipline of callbacks may be taken to run each callback in one
piece. What makes it so is that the callback that is responsible for a request is the only
one that touches it, and that a callback asks the environment for each thing at most once,
so that the answers it gets one by one are those of one `Answers`. -/
namespace H2oTpcc

/-- What a callback can ask of the environment. -/
inductive Question where
  | alloc | create | accept | now | seed
  deriving DecidableEq

/-- The same answers to everything that was not asked for yet. -/
structure Answers.Agree (asked : List Question) (answers answers' : Answers) : Prop where
  alloc : .alloc ∉ asked → answers.alloc = answers'.alloc
  create : .create ∉ asked → answers.create = answers'.create
  accept : .accept ∉ asked → answers.accept = answers'.accept
  now : .now ∉ asked → answers.now = answers'.now
  seed : .seed ∉ asked → answers.seed = answers'.seed

section Asks
variable {S σ κ K V ρ α β : Type}

/-- The body asks for nothing that was `asked` for before, and for nothing twice. -/
def Prog.Asks : Prog σ κ K V ρ α → List Question → (α → List Question → Prop) → Prop
  | pure result, asked, post => post result asked
  | alloc next, asked, post => .alloc ∉ asked ∧ ∀ ok, (next ok).Asks (.alloc :: asked) post
  | create next, asked, post => .create ∉ asked ∧ ∀ ok, (next ok).Asks (.create :: asked) post
  | load next, asked, post => ∀ ctx, (next ctx).Asks asked post
  | store _ next, asked, post => next.Asks asked post
  | index _ _ next, asked, post => next.Asks asked post
  | time next, asked, post => .now ∉ asked ∧ ∀ now, (next now).Asks (.now :: asked) post
  | draw next, asked, post => .seed ∉ asked ∧ ∀ seed, (next seed).Asks (.seed :: asked) post
  | set _ _ next, asked, post => next.Asks asked post
  | submit _ _ next, asked, post => .accept ∉ asked ∧ ∀ ok, (next ok).Asks (.accept :: asked) post
  | send _ next, asked, post => next.Asks asked post
  | destroy next, asked, post => next.Asks asked post
  | free next, asked, post => next.Asks asked post

section Rules
variable {asked : List Question}

@[simp] theorem asks_pure {post : α → List Question → Prop} (result : α) :
    (Pure.pure result : Prog σ κ K V ρ α).Asks asked post ↔ post result asked := Iff.rfl

@[simp] theorem asks_bind {post : β → List Question → Prop} (first : Prog σ κ K V ρ α)
    (rest : α → Prog σ κ K V ρ β) :
    (first >>= rest).Asks asked post ↔ first.Asks asked fun result asked' =>
      (rest result).Asks asked' post := by
  change (first.bind rest).Asks asked post ↔ _
  induction first generalizing asked with
  | pure => rfl
  | _ => simp only [Prog.bind, Prog.Asks, *]

/-- What a body asks for may be described more loosely at its end, as a postcondition may be
weakened. -/
theorem Prog.Asks.mono {post post' : α → List Question → Prop} {body : Prog σ κ K V ρ α}
    (asks : body.Asks asked post) (weaker : ∀ result asked', post result asked' → post' result asked') :
    body.Asks asked post' := by
  induction body generalizing asked with
  | pure => exact weaker _ _ asks
  | _ => simp only [Prog.Asks] at asks ⊢; grind

@[simp] theorem asks_alloc {post : Bool → List Question → Prop} :
    (Stmt.alloc : Prog σ κ K V ρ Bool).Asks asked post ↔
      .alloc ∉ asked ∧ ∀ ok, post ok (.alloc :: asked) := Iff.rfl

@[simp] theorem asks_create {post : Bool → List Question → Prop} :
    (Stmt.create : Prog σ κ K V ρ Bool).Asks asked post ↔
      .create ∉ asked ∧ ∀ ok, post ok (.create :: asked) := Iff.rfl

@[simp] theorem asks_load {post : σ → List Question → Prop} :
    (Stmt.load : Prog σ κ K V ρ σ).Asks asked post ↔ ∀ ctx, post ctx asked := Iff.rfl

@[simp] theorem asks_store {post : Unit → List Question → Prop} (update : σ → σ) :
    (Stmt.store update : Prog σ κ K V ρ Unit).Asks asked post ↔ post () asked := Iff.rfl

@[simp] theorem asks_index {post : Unit → List Question → Prop} (position bound : Nat) :
    (Stmt.index position bound : Prog σ κ K V ρ Unit).Asks asked post ↔ post () asked := Iff.rfl

@[simp] theorem asks_time {post : Int64 → List Question → Prop} :
    (Stmt.time : Prog σ κ K V ρ Int64).Asks asked post ↔
      .now ∉ asked ∧ ∀ now, post now (.now :: asked) := Iff.rfl

@[simp] theorem asks_draw {post : UInt32 → List Question → Prop} :
    (Stmt.draw : Prog σ κ K V ρ UInt32).Asks asked post ↔
      .seed ∉ asked ∧ ∀ seed, post seed (.seed :: asked) := Iff.rfl

@[simp] theorem asks_set {post : Unit → List Question → Prop} (key : K) (value : V) :
    (Stmt.set key value : Prog σ κ K V ρ Unit).Asks asked post ↔ post () asked := Iff.rfl

@[simp] theorem asks_submit {post : Bool → List Question → Prop} (operation : Operation K)
    (callback : κ) : (Stmt.submit operation callback : Prog σ κ K V ρ Bool).Asks asked post ↔
      .accept ∉ asked ∧ ∀ ok, post ok (.accept :: asked) := Iff.rfl

@[simp] theorem asks_send {post : Unit → List Question → Prop} (reply : ρ) :
    (Stmt.send reply : Prog σ κ K V ρ Unit).Asks asked post ↔ post () asked := Iff.rfl

@[simp] theorem asks_destroy {post : Unit → List Question → Prop} :
    (Stmt.destroy : Prog σ κ K V ρ Unit).Asks asked post ↔ post () asked := Iff.rfl

@[simp] theorem asks_free {post : Unit → List Question → Prop} :
    (Stmt.free : Prog σ κ K V ρ Unit).Asks asked post ↔ post () asked := Iff.rfl

/-- A loop that asks for nothing. -/
theorem asks_forRange {post : Unit → List Question → Prop} {count : Nat}
    {body : Nat → Prog σ κ K V ρ Unit}
    (iteration : ∀ i, (body i).Asks asked fun _ asked' => asked' = asked) (after : post () asked) :
    (Stmt.forRange count body).Asks asked post := by
  unfold Stmt.forRange
  induction List.range count with
  | nil => exact after
  | cons i rest ih =>
    simp only [Stmt.forEach, asks_bind]
    refine (iteration i).mono fun _ asked' same => ?_
    rw [same]
    exact ih

end Rules

variable {asked : List Question} {answers answers' : Answers} {session : Session σ κ K V ρ}

/-- Answers that agree on the questions asked so far agree on one more question that has been
put to both. -/
theorem Answers.Agree.cons (agree : Answers.Agree asked answers answers') (question : Question) :
    Answers.Agree (question :: asked) answers answers' where
  alloc unasked := agree.alloc (List.not_mem_of_not_mem_cons unasked)
  create unasked := agree.create (List.not_mem_of_not_mem_cons unasked)
  accept unasked := agree.accept (List.not_mem_of_not_mem_cons unasked)
  now unasked := agree.now (List.not_mem_of_not_mem_cons unasked)
  seed unasked := agree.seed (List.not_mem_of_not_mem_cons unasked)

/-- The answers with this one got already. -/
def Answers.got (answered : Answers) (question : Question) (answers : Answers) : Answers :=
  match question with
  | .alloc => { answers with alloc := answered.alloc }
  | .create => { answers with create := answered.create }
  | .accept => { answers with accept := answered.accept }
  | .now => { answers with now := answered.now }
  | .seed => { answers with seed := answered.seed }

private theorem Answers.got_agree (answered : Answers) (question : Question) (answers : Answers)
    (asked : List Question) :
    Answers.Agree (question :: asked) (answered.got question answers) answers := by
  cases question <;> constructor <;> simp [got]

/-- A body runs alike on answers that agree on what it asks for. -/
private theorem Prog.Asks.run_congr {body : Prog σ κ K V ρ α} {post : α → List Question → Prop}
    (asks : body.Asks asked post) (agree : Answers.Agree asked answers answers') :
    body.run answers session = body.run answers' session := by
  induction body generalizing asked session with
  | pure => rfl
  | alloc next ih =>
    simp only [Prog.run, agree.alloc asks.1]
    exact ih _ (asks.2 _) (agree.cons _)
  | create next ih =>
    simp only [Prog.run, agree.create asks.1]
    exact ih _ (asks.2 _) (agree.cons _)
  | time next ih =>
    simp only [Prog.run, agree.now asks.1]
    exact ih _ (asks.2 _) (agree.cons _)
  | draw next ih =>
    simp only [Prog.run, agree.seed asks.1]
    exact ih _ (asks.2 _) (agree.cons _)
  | submit operation callback next ih =>
    simp only [Prog.run, Session.submit, agree.accept asks.1]
    exact ih _ (asks.2 _) (agree.cons _)
  | load next ih => exact ih _ (asks _) agree
  | store _ _ ih | index _ _ _ ih | set _ _ _ ih | send _ _ ih | destroy _ ih | free _ ih =>
    exact ih asks agree

/-- A body only adds to the sets. -/
private theorem Prog.run_sets (body : Prog σ κ K V ρ α) (answers : Answers)
    (session : Session σ κ K V ρ) :
    ∃ more, (body.run answers session).2.sets = session.sets ++ more := by
  induction body generalizing session with
  | pure => exact ⟨[], (List.append_nil _).symm⟩
  | alloc _ ih | create _ ih | load _ ih | time _ ih | draw _ ih => exact ih _ session
  | index _ _ _ ih | destroy _ ih | free _ ih => exact ih session
  | store update _ ih => exact ih { session with ctx := update session.ctx }
  | send reply _ ih => exact ih { session with reply := some reply }
  | submit operation callback _ ih =>
    obtain ⟨more, added⟩ := ih answers.accept (session.submit answers operation callback)
    exact ⟨more, by rwa [Session.submit_sets] at added⟩
  | set key value _ ih =>
    obtain ⟨more, added⟩ := ih { session with sets := session.sets ++ [(key, value)] }
    exact ⟨(key, value) :: more, added.trans (List.append_assoc ..)⟩

/-- A body that has nothing to touch leaves everything as it is. -/
private theorem Prog.Safe.run_gone {zero : σ} {At : κ → σ → Prop} {Bound : Nat → Prop}
    {body : Prog σ κ K V ρ α}
    {post : α → Own σ → Prop} (safe : body.Safe zero At Bound .gone post) :
    (body.run answers session).2 = session := by
  induction body with
  | pure => rfl
  | time _ ih | draw _ ih => exact ih _ (safe _)
  | index _ _ _ ih => exact ih safe.2
  | submit =>
    obtain ⟨⟨ctx, held, _⟩, _⟩ := safe
    cases held
  | load | store =>
    obtain ⟨ctx, live, _⟩ := safe
    cases live
  | free =>
    obtain ⟨⟨ctx, live⟩, _⟩ := safe
    cases live
  | alloc | create | set | send | destroy => exact absurd safe.1 (by simp)

/-- A session with the context that a responsible callback finds. -/
structure Session.Mirrors (zero : σ) (session : Session σ κ K V ρ) (own : Own σ) : Prop where
  live : ∀ ctx, own.memory = .live ctx → session.ctx = ctx
  absent : own.memory = .absent → session.ctx = zero

/-- A body that finds the client answered does not answer again. -/
private theorem Prog.Safe.run_reply {zero : σ} {At : κ → σ → Prop} {Bound : Nat → Prop}
    {body : Prog σ κ K V ρ α}
    {post : α → Own σ → Prop} {own : Own σ} (safe : body.Safe zero At Bound own post)
    (mirrors : session.Mirrors zero own) (sent : own.sent = true) :
    (body.run answers session).2.reply = session.reply := by
  induction body generalizing own session with
  | pure => rfl
  | time _ ih | draw _ ih => exact ih _ (safe _) mirrors sent
  | index _ _ _ ih => exact ih safe.2 mirrors sent
  | set _ _ _ ih => exact ih safe.2 ⟨mirrors.live, mirrors.absent⟩ sent
  | destroy _ ih => exact ih safe.2 ⟨mirrors.live, mirrors.absent⟩ sent
  | free _ ih =>
    exact ih safe.2 ⟨fun _ live => (by cases live), fun absent => (by cases absent)⟩ sent
  | load _ ih =>
    obtain ⟨ctx, live, rest⟩ := safe
    obtain rfl := mirrors.live ctx live
    exact ih _ rest mirrors sent
  | store update _ ih =>
    obtain ⟨ctx, live, rest⟩ := safe
    obtain rfl := mirrors.live ctx live
    exact ih rest ⟨fun _ live => Memory.live.inj live, fun absent => (by cases absent)⟩ sent
  | alloc _ ih =>
    obtain ⟨absent, allocated, failed⟩ := safe
    cases answered : answers.alloc <;> simp only [Prog.run, answered]
    · exact ih _ failed mirrors sent
    · refine ih _ allocated ⟨fun ctx live => ?_, fun absent => (by cases absent)⟩ sent
      exact (mirrors.absent absent).trans (Memory.live.inj live)
  | create _ ih =>
    obtain ⟨_, created, failed⟩ := safe
    cases answered : answers.create <;> simp only [Prog.run, answered]
    · exact ih _ failed mirrors sent
    · exact ih _ created ⟨mirrors.live, mirrors.absent⟩ sent
  | submit operation callback _ ih =>
    obtain ⟨⟨ctx, rfl, _⟩, _⟩ := safe
    cases sent
  | send => exact absurd (safe.1.symm.trans sent) (by simp)

/-! ## A statement of the responsible callback -/

/-- The set that a callback's next statement buffers. -/
def Prog.buffered : Prog σ κ K V ρ α → List (K × V)
  | set key value _ => [(key, value)]
  | _ => []

/-- What a statement leaves of the callback: a session from which the rest runs as the
callback does that gets this answer. -/
structure Prog.GoesOn (zero : σ) (answered : Answers) (frame rest : Prog σ κ K V ρ Unit)
    (session : Session σ κ K V ρ) (request : Request σ κ K V ρ) (asked : List Question)
    (session' : Session σ κ K V ρ) : Prop where
  asks : rest.Asks asked fun _ _ => True
  mirrors : session'.Mirrors zero request.own
  reply : session'.reply = request.sent.head?
  idle : session'.pending = none
  sets : session'.sets = session.sets ++ frame.buffered
  same : ∀ answers, ∃ answers', frame.run answers' session = rest.run answers session'
  itself : frame.run answered session = rest.run answered session'

section Exec
variable {zero : σ} {At : κ → σ → Prop} {Bound : Nat → Prop} {request : Request σ κ K V ρ}
  {frame : Prog σ κ K V ρ Unit} {post : Unit → Own σ → Prop}

/-- One statement of a body in progress: either it hands nothing to the database, and what is left
leads where the whole callback leads, or it is an accepted submission, after which the callback
does nothing. -/
theorem Prog.Safe.goesOn (safe : frame.Safe zero At Bound request.own post)
    (asks : frame.Asks asked fun _ _ => True) (mirrors : session.Mirrors zero request.own)
    (reply : session.reply = request.sent.head?) (idle : session.pending = none) (answered : Answers) :
    ((frame.exec zero answered request).1.outstanding = request.outstanding ∧
      ∃ asked' session', frame.GoesOn zero answered (frame.exec zero answered request).2 session
        (frame.exec zero answered request).1 asked' session') ∨
    ∃ operation callback, (frame.exec zero answered request).1.outstanding =
        request.outstanding ++ [(operation, callback)] ∧
      (frame.exec zero answered request).1.own = request.own ∧ frame.buffered = [] ∧
      (frame.run answered session).2 = { session with pending := some (operation, callback) } := by
  have nothing : session.sets = session.sets ++ [] := (List.append_nil _).symm
  have asking (question : Question) (rest : Prog σ κ K V ρ Unit)
      (asks : rest.Asks (question :: asked) fun _ _ => True) (answers : Answers) :
      rest.run (answered.got question answers) session = rest.run answers session :=
    asks.run_congr (answered.got_agree question answers asked)
  cases frame with
  | pure result =>
    exact .inl ⟨rfl, asked, session, asks, mirrors, reply, idle, nothing,
      fun answers => ⟨answers, rfl⟩, rfl⟩
  | time next =>
    exact .inl ⟨rfl, _, session, asks.2 _, mirrors, reply, idle, nothing,
      fun answers => ⟨answered.got .now answers, asking .now _ (asks.2 _) answers⟩, rfl⟩
  | draw next =>
    exact .inl ⟨rfl, _, session, asks.2 _, mirrors, reply, idle, nothing,
      fun answers => ⟨answered.got .seed answers, asking .seed _ (asks.2 _) answers⟩, rfl⟩
  | alloc next =>
    refine .inl ⟨by simp only [Prog.exec]; split <;> rfl, _, session, asks.2 _, ?_, ?_, idle, nothing,
      fun answers => ⟨answered.got .alloc answers, asking .alloc _ (asks.2 _) answers⟩, rfl⟩
    · cases ok : answered.alloc <;> simp only [Prog.exec, ok]
      · exact mirrors
      · refine ⟨fun ctx live => ?_, fun absent => (by cases absent)⟩
        exact (mirrors.absent safe.1).trans (Memory.live.inj live)
    · simp only [Prog.exec]
      split <;> exact reply
  | create next =>
    refine .inl ⟨by simp only [Prog.exec]; split <;> rfl, _, session, asks.2 _, ?_, ?_, idle, nothing,
      fun answers => ⟨answered.got .create answers, asking .create _ (asks.2 _) answers⟩, rfl⟩
    · simp only [Prog.exec]
      split <;> exact ⟨mirrors.live, mirrors.absent⟩
    · simp only [Prog.exec]
      split <;> exact reply
  | load next =>
    obtain ⟨ctx, live, _⟩ := safe
    obtain rfl := mirrors.live ctx live
    have found : request.memory = .live session.ctx := live
    simp only [Prog.exec, Request.useContext_live found]
    exact .inl ⟨trivial, asked, session, asks _, mirrors, reply, idle, nothing,
      fun answers => ⟨answers, rfl⟩, rfl⟩
  | store update next =>
    obtain ⟨ctx, live, _⟩ := safe
    obtain rfl := mirrors.live ctx live
    have found : request.memory = .live session.ctx := live
    simp only [Prog.exec, Request.useContext_live found]
    refine .inl ⟨trivial, asked, { session with ctx := update session.ctx }, asks, ?_, reply, idle, nothing,
      fun answers => ⟨answers, rfl⟩, rfl⟩
    exact ⟨fun _ live => Memory.live.inj live, fun absent => (by cases absent)⟩
  | index position bound next =>
    exact .inl ⟨rfl, asked, session, asks, mirrors, reply, idle, nothing,
      fun answers => ⟨answers, rfl⟩, rfl⟩
  | set key value next =>
    have live : request.transaction = .live := safe.1
    simp only [Prog.exec, Request.useTransaction_live live]
    exact .inl ⟨trivial, asked, { session with sets := session.sets ++ [(key, value)] }, asks,
      ⟨mirrors.live, mirrors.absent⟩, reply, idle, rfl, fun answers => ⟨answers, rfl⟩, rfl⟩
  | submit operation callback next =>
    obtain ⟨⟨ctx, held, _⟩, accepted, _⟩ := safe
    have live : request.transaction = .live := congrArg Own.transaction held
    cases ok : answered.accept <;> simp only [Prog.exec, Request.useTransaction_live live, ok]
    · refine .inl ⟨rfl, _, session, asks.2 false, mirrors, reply, idle, nothing,
        fun answers => ⟨answered.got .accept answers, ?_⟩, ?_⟩
      · simp only [Prog.run, Answers.got, Session.submit, ok]
        exact (asks.2 false).run_congr (ok ▸ answered.got_agree .accept answers asked)
      · simp only [Prog.run, Session.submit, ok]
        rfl
    · refine .inr ⟨operation, callback, rfl, rfl, rfl, ?_⟩
      simp only [Prog.run, Session.submit, ok]
      exact accepted.run_gone
  | send response next =>
    have unsent : request.sent = [] := by simpa [Request.own] using safe.1
    refine .inl ⟨rfl, asked, { session with reply := some response }, asks,
      ⟨mirrors.live, mirrors.absent⟩, ?_, idle, nothing, fun answers => ⟨answers, rfl⟩, rfl⟩
    simp [Prog.exec, unsent]
  | destroy next =>
    have live : request.transaction = .live := safe.1
    simp only [Prog.exec, Request.useTransaction_live live]
    exact .inl ⟨trivial, asked, session, asks, ⟨mirrors.live, mirrors.absent⟩, reply, idle, nothing,
      fun answers => ⟨answers, rfl⟩, rfl⟩
  | free next =>
    obtain ⟨⟨ctx, live⟩, _⟩ := safe
    have found : request.memory = .live ctx := live
    simp only [Prog.exec, Request.useContext_live found]
    refine .inl ⟨trivial, asked, session, asks, ?_, reply, idle, nothing,
      fun answers => ⟨answers, rfl⟩, rfl⟩
    exact ⟨fun _ live => (by cases live), fun absent => (by cases absent)⟩

end Exec

/-! ## Requests as machines -/

/-- Requests of this kind, statement by statement. -/
def Chain.machine (chain : Chain S σ κ K V ρ) : StepClient S (Request σ κ K V ρ) K V where
  start parameters := { frames := [chain.entry parameters] }
  outstanding request := request.outstanding.map Prod.fst
  fire request i future := request.move chain (.fire i future)
  run request i answers := (request.move chain (.run i answers)).map fun next =>
    (next, (request.frames[i]?.map Prog.buffered).getD [])

/-- Every callback keeps the discipline and asks for each thing once; the entry point sets
nothing. -/
structure Chain.AsksOnce (chain : Chain S σ κ K V ρ) (At : S → κ → σ → Prop) (Bound : S → Nat → Prop) :
    Prop where
  disciplined : ∀ parameters, chain.Disciplined parameters (At parameters) (Bound parameters)
  entry : ∀ parameters, (chain.entry parameters).Asks [] fun _ _ => True
  body : ∀ callback future, (chain.body callback future).Asks [] fun _ _ => True
  unset : ∀ parameters answers, (chain.start parameters answers).sets = []

/-- A callback is responsible for the request, and completes it from this session. -/
structure Request.Running (chain : Chain S σ κ K V ρ) (At : κ → σ → Prop) (Bound : Nat → Prop)
    (request : Request σ κ K V ρ) (completion : Completion (Session σ κ K V ρ) K V) (i : Nat)
    (active : Prog σ κ K V ρ Unit) (asked : List Question) (session : Session σ κ K V ρ) : Prop where
  found : request.frames[i]? = some active
  idle : request.outstanding = []
  safe : active.Safe chain.zero At Bound request.own fun _ _ => True
  asks : active.Asks asked fun _ _ => True
  mirrors : session.Mirrors chain.zero request.own
  reply : session.reply = request.sent.head?
  unasked : session.pending = none
  others : ∀ j frame, j ≠ i → request.frames[j]? = some frame →
    frame.Safe chain.zero At Bound .gone fun _ _ => True
  completes : ∀ answers, completion answers = ((active.run answers session).2,
    (active.run answers session).2.sets.drop session.sets.length)

/-- A future is outstanding, and nothing is done until it is ready. -/
structure Request.Waiting (chain : Chain S σ κ K V ρ) (At : κ → σ → Prop) (Bound : Nat → Prop)
    (request : Request σ κ K V ρ) (completion : Completion (Session σ κ K V ρ) K V)
    (operation : Operation K) (callback : κ) (session : Session σ κ K V ρ) : Prop where
  outstanding : request.outstanding = [(operation, callback)]
  held : request.own = .held session.ctx
  fit : At callback session.ctx
  pending : session.pending = some (operation, callback)
  unsent : session.reply = none
  others : ∀ frame ∈ request.frames, frame.Safe chain.zero At Bound .gone fun _ _ => True
  completes : ∀ answers, completion answers = (session, [])

/-- What is left of a request. -/
inductive Request.Left (chain : Chain S σ κ K V ρ) (At : κ → σ → Prop) (Bound : Nat → Prop)
    (request : Request σ κ K V ρ) (completion : Completion (Session σ κ K V ρ) K V) : Prop where
  | running (i : Nat) (active : Prog σ κ K V ρ Unit) (asked : List Question) (session : Session σ κ K V ρ)
      (runs : request.Running chain At Bound completion i active asked session)
  | waiting (operation : Operation K) (callback : κ) (session : Session σ κ K V ρ)
      (waits : request.Waiting chain At Bound completion operation callback session)

section Left
variable {chain : Chain S σ κ K V ρ} {At : κ → σ → Prop} {Bound : Nat → Prop}
  {request request' : Request σ κ K V ρ} {completion : Completion (Session σ κ K V ρ) K V}

/-- Who waits for a future has not answered yet. -/
theorem Request.Waiting.sent {operation : Operation K} {callback : κ}
    (waits : request.Waiting chain At Bound completion operation callback session) : request.sent = [] := by
  have unsent := congrArg Own.sent waits.held
  simpa [Request.own] using unsent

/-- The future of a request that waits becomes ready: its callback is left. -/
theorem Request.Left.fire (disciplined : chain.Disciplined parameters At Bound)
    (body : ∀ callback future, (chain.body callback future).Asks [] fun _ _ => True)
    (left : request.Left chain At Bound completion)
    (outstanding : (request.outstanding.map Prod.fst)[j]? = some operation)
    (moved : request.move chain (.fire j future) = some request') :
    ∃ rest, (∀ answers, completion answers = (rest, [])) ∧ chain.client.pending rest = some operation ∧
      request'.Left chain At Bound fun answers => chain.client.resume answers rest future := by
  cases left with
  | running _ _ _ _ runs => simp [runs.idle] at outstanding
  | waiting operation' callback session waits =>
    rw [waits.outstanding, List.map_singleton, List.getElem?_singleton] at outstanding
    split at outstanding <;> cases outstanding
    rename_i first
    subst first
    simp only [Request.move, waits.outstanding, List.getElem?_singleton, Option.map_some, if_true] at moved
    cases moved
    refine ⟨session, waits.completes, by simp [Chain.client, waits.pending], ?_⟩
    refine .running request.frames.length (chain.body callback future) []
      { session with pending := none, sets := [] }
      ⟨by simp, by simp, ?_, body callback future, ?_, ?_, rfl, ?_, fun answers => ?_⟩
    · change (chain.body callback future).Safe _ _ _ request.own _
      rw [waits.held]
      exact disciplined.body callback future session.ctx waits.fit
    · change Session.Mirrors _ _ request.own
      rw [waits.held]
      exact ⟨fun _ live => Memory.live.inj live, fun absent => (by cases absent)⟩
    · simp [waits.sent, waits.unsent]
    · intro j frame apart found
      have old : j < request.frames.length := by
        obtain ⟨bound, _⟩ := List.getElem?_eq_some_iff.mp found
        rw [List.length_append, List.length_singleton] at bound
        omega
      rw [List.getElem?_append_left old] at found
      exact waits.others frame (List.mem_of_getElem? found)
    · simp only [Chain.client, Chain.resume, waits.pending, List.length_nil, List.drop_zero]

/-- A body that touches nothing buffers nothing. -/
private theorem Prog.Safe.buffered_gone {frame : Prog σ κ K V ρ Unit} {zero : σ}
    (safe : frame.Safe zero At Bound .gone fun _ _ => True) : frame.buffered = [] := by
  cases frame with
  | set => exact absurd safe.1 (by simp)
  | _ => rfl

/-- The request after a statement of its `i`-th callback. -/
def Request.after (chain : Chain S σ κ K V ρ) (request : Request σ κ K V ρ) (i : Nat)
    (frame : Prog σ κ K V ρ Unit) (answered : Answers) : Request σ κ K V ρ :=
  { (frame.exec chain.zero answered request).1 with
    frames := request.frames.set i (frame.exec chain.zero answered request).2 }

/-- A statement of the responsible callback: the rest of it completes the request as before,
or waits for a future. -/
theorem Request.Running.exec {frame : Prog σ κ K V ρ Unit} (clean : request.Clean Bound)
    (runs : request.Running chain At Bound completion i frame asked session) (answered : Answers) :
    ∃ completion', ((∃ asked' session', (request.after chain i frame answered).Running chain At Bound
        completion' i (frame.exec chain.zero answered request).2 asked' session') ∨
      ∃ operation callback session', (request.after chain i frame answered).Waiting chain At Bound
        completion' operation callback session') ∧
      (∀ answers, ∃ answers', completion answers' =
        ((completion' answers).1, frame.buffered ++ (completion' answers).2)) ∧
      completion answered = ((completion' answered).1, frame.buffered ++ (completion' answered).2) := by
  obtain ⟨inside, _⟩ := List.getElem?_eq_some_iff.mp runs.found
  obtain ⟨clean', outcome⟩ := runs.safe.exec clean answered
  rcases runs.safe.goesOn runs.asks runs.mirrors runs.reply runs.unasked answered with
    ⟨kept, asked', session', goesOn⟩ | ⟨operation, callback, grown, untouched, nothing, submits⟩
  · have rest : (frame.exec chain.zero answered request).2.Safe chain.zero At Bound
        (frame.exec chain.zero answered request).1.own fun _ _ => True := by
      rcases outcome with ⟨_, rest⟩ | ⟨_, _, _, grown, _⟩
      · exact rest
      · exact absurd (kept.symm.trans grown) (by simp)
    have continues {answers answers' : Answers} (same : frame.run answers' session =
        (frame.exec chain.zero answered request).2.run answers session') :
        completion answers' = (((frame.exec chain.zero answered request).2.run answers session').2,
          frame.buffered ++ ((frame.exec chain.zero answered request).2.run answers session').2.sets.drop
            session'.sets.length) := by
      obtain ⟨more, added⟩ := (frame.exec chain.zero answered request).2.run_sets answers session'
      rw [runs.completes, same, added, goesOn.sets]
      simp
    refine ⟨_, .inl ⟨asked', session', by simp [Request.after, inside], kept.trans runs.idle, rest,
      goesOn.asks, goesOn.mirrors, goesOn.reply, goesOn.idle, ?_, fun _ => rfl⟩, fun answers => ?_,
      continues goesOn.itself⟩
    · intro k other apart found
      rw [Request.after, List.getElem?_set_ne (Ne.symm apart)] at found
      exact runs.others k other apart found
    · obtain ⟨answers', same⟩ := goesOn.same answers
      exact ⟨answers', continues same⟩
  · obtain ⟨ctx, held, fit, rest⟩ : ∃ ctx, (frame.exec chain.zero answered request).1.own = .held ctx ∧
        At callback ctx ∧
        (frame.exec chain.zero answered request).2.Safe chain.zero At Bound .gone fun _ _ => True := by
      rcases outcome with ⟨kept, _⟩ | ⟨_, _, ctx, grown', held, fit, rest⟩
      · exact absurd (kept.symm.trans grown) (by simp)
      · obtain ⟨rfl, rfl⟩ : _ ∧ _ := by simpa using grown.symm.trans grown'
        exact ⟨ctx, held, fit, rest⟩
    rw [untouched] at held
    have same : session.ctx = ctx := runs.mirrors.live ctx (congrArg Own.memory held)
    have none : request.sent = [] := by
      have sent := congrArg Own.sent held
      simpa [Request.own] using sent
    have submitted : completion answered = ({ session with pending := some (operation, callback) },
        frame.buffered ++ []) := by
      rw [runs.completes, submits, nothing]
      simp
    refine ⟨_, .inr ⟨operation, callback, { session with pending := some (operation, callback) },
      by rw [Request.after, grown, runs.idle, List.nil_append], ?_, same ▸ fit, rfl,
      by simp [runs.reply, none], inert_set rest runs.others, fun _ => rfl⟩,
      fun _ => ⟨answered, submitted⟩, submitted⟩
    exact untouched.trans (by rw [held, same])

/-- A statement of any callback: the rest of the responsible one completes as before. -/
theorem Request.Left.run (clean : request.Clean Bound) (left : request.Left chain At Bound completion)
    (moved : request.move chain (.run i answered) = some request') :
    ∃ completion', request'.Left chain At Bound completion' ∧ ∀ answers, ∃ answers',
      completion answers' = ((completion' answers).1,
        (request.frames[i]?.map Prog.buffered).getD [] ++ (completion' answers).2) := by
  obtain ⟨frame, here, rfl⟩ := Option.map_eq_some_iff.mp moved
  obtain ⟨inside, _⟩ := List.getElem?_eq_some_iff.mp here
  rw [here, Option.map_some, Option.getD_some]
  cases left with
  | running j active asked session runs =>
    by_cases own : i = j
    · subst own
      cases runs.found.symm.trans here
      obtain ⟨completion', outcome, continues, _⟩ := runs.exec clean answered
      refine ⟨completion', ?_, continues⟩
      rcases outcome with ⟨asked', session', runs⟩ | ⟨operation, callback, session', waits⟩
      · exact .running i _ asked' session' runs
      · exact .waiting operation callback session' waits
    · have inert := runs.others i frame own here
      obtain ⟨⟨accesses, same⟩, _, rest⟩ := inert.exec_gone clean answered
      refine ⟨completion, ?_, fun answers => ⟨answers, by rw [inert.buffered_gone, List.nil_append]⟩⟩
      rw [same]
      refine .running j active asked session { runs with
        found := by rw [List.getElem?_set_ne own]; exact runs.found
        others := ?_ }
      intro k other apart found'
      by_cases ran : i = k
      · subst ran
        rw [List.getElem?_set_self inside] at found'
        cases found'
        exact rest
      · rw [List.getElem?_set_ne ran] at found'
        exact runs.others k other apart found'
  | waiting operation callback session waits =>
    have inert := waits.others frame (List.mem_of_getElem? here)
    obtain ⟨⟨accesses, same⟩, _, rest⟩ := inert.exec_gone clean answered
    refine ⟨completion, ?_, fun answers => ⟨answers, by rw [inert.buffered_gone, List.nil_append]⟩⟩
    rw [same]
    exact .waiting operation callback session { waits with
      others := inert_set rest fun k frame _ found => waits.others frame (List.mem_of_getElem? found) }

/-- Whatever is left of a request, its context and its transaction are in safe hands. -/
theorem Request.Left.custody (left : request.Left chain At Bound completion) :
    request.Custody chain.zero At Bound := by
  cases left with
  | running i active _ _ runs => exact .running i active runs.found runs.idle runs.safe runs.others
  | waiting operation callback session waits =>
    exact .waiting operation callback session.ctx waits.outstanding waits.held waits.fit waits.others

/-- An answer that was sent in the middle of a callback is already that of the completed
callback: nothing that the rest of it is told can change it. -/
theorem Request.Left.sent (clean : request.Clean Bound) (left : request.Left chain At Bound completion)
    {response : ρ} (sent : response ∈ request.sent) (answers : Answers) :
    (completion answers).1.reply = some response := by
  have only : request.sent = [response] := by
    have once := clean.sent_once
    cases listed : request.sent with
    | nil =>
      rw [listed] at sent
      cases sent
    | cons first rest =>
      obtain rfl : rest = [] := by simpa [listed] using once
      rw [listed, List.mem_singleton] at sent
      rw [sent]
  cases left with
  | running _ _ _ session runs =>
    rw [runs.completes, runs.safe.run_reply runs.mirrors (by simp [Request.own, only]), runs.reply, only,
      List.head?_cons]
  | waiting _ _ session waits => exact absurd (waits.sent.symm.trans only) (by simp)

/-- Every statement of a callback leaves less of it. -/
private theorem Prog.exec_induction {motive : Prog σ κ K V ρ Unit → Prop} (zero : σ)
    (ended : ∀ result, motive (.pure result))
    (step : ∀ frame : Prog σ κ K V ρ Unit,
      (∀ answers request, motive (frame.exec zero answers request).2) → motive frame)
    (frame : Prog σ κ K V ρ Unit) : motive frame := by
  have useContext (request : Request σ κ K V ρ) {next : σ → Request σ κ K V ρ × Prog σ κ K V ρ Unit}
      (goesOn : ∀ ctx, motive (next ctx).2) : motive (request.useContext next).2 := by
    unfold Request.useContext
    split
    · exact goesOn _
    · exact ended ()
  induction frame with
  | pure result => exact ended result
  | alloc _ ih | create _ ih | time _ ih | draw _ ih => exact step _ fun _ _ => ih _
  | submit _ _ _ ih => exact step _ fun _ _ => ih _
  | index _ _ _ ih | set _ _ _ ih | send _ _ ih | destroy _ ih => exact step _ fun _ _ => ih
  | load _ ih => exact step _ fun _ request => useContext request ih
  | store _ _ ih => exact step _ fun _ request => useContext request fun _ => ih
  | free _ ih => exact step _ fun _ request => useContext request fun _ => ih

end Left

/-- What is left of a request of this kind, whatever its parameters. -/
def Chain.Leaves (chain : Chain S σ κ K V ρ) (At : S → κ → σ → Prop) (Bound : S → Nat → Prop)
    (request : Request σ κ K V ρ) (completion : Completion (Session σ κ K V ρ) K V) : Prop :=
  ∃ parameters, request.Clean (Bound parameters) ∧
    request.Left chain (At parameters) (Bound parameters) completion

section Kind
variable {chain : Chain S σ κ K V ρ} {At : S → κ → σ → Prop} {Bound : S → Nat → Prop}

/-- A chain whose callbacks ask each question once can be run statement by statement: every step
of the finer system is one that the whole callback has already decided or still can decide. -/
theorem Chain.AsksOnce.atomic (once : chain.AsksOnce At Bound) :
    chain.machine.Atomic chain.client (chain.Leaves At Bound) where
  start parameters := by
    refine ⟨parameters, ⟨rfl, fun _ member => (by cases member), Nat.zero_le _, rfl, rfl⟩, ?_⟩
    refine .running 0 (chain.entry parameters) [] { ctx := chain.zero }
      ⟨rfl, rfl, (once.disciplined parameters).entry, once.entry parameters,
        ⟨fun _ live => (by cases live), fun _ => rfl⟩, rfl, rfl, ?_, fun answers => ?_⟩
    · intro j frame apart found
      rw [Chain.machine, List.getElem?_singleton, if_neg apart] at found
      cases found
    · refine Prod.ext rfl ?_
      exact (once.unset parameters answers).symm
  fire related outstanding fired := by
    obtain ⟨parameters, clean, left⟩ := related
    obtain ⟨clean', _⟩ := Request.Custody.fire (once.disciplined parameters) clean left.custody fired
    obtain ⟨rest, finished, pending, goesOn⟩ :=
      left.fire (once.disciplined parameters) once.body outstanding fired
    exact ⟨rest, finished, pending, parameters, clean', goesOn⟩
  run related ran := by
    obtain ⟨parameters, clean, left⟩ := related
    obtain ⟨next, moved, same⟩ := Option.map_eq_some_iff.mp ran
    cases same
    obtain ⟨clean', _⟩ := Request.Custody.run clean left.custody moved
    obtain ⟨completion', goesOn, continues⟩ := left.run clean moved
    exact ⟨completion', ⟨parameters, clean', goesOn⟩, continues⟩

/-- A request that waits for a future stands where its session does, and whatever the session
waits for can be settled here too. -/
theorem Request.Waiting.stands {parameters : S} {request : Request σ κ K V ρ}
    {completion : Completion (Session σ κ K V ρ) K V} {operation : Operation K} {callback : κ}
    (clean : request.Clean (Bound parameters))
    (waits : request.Waiting chain (At parameters) (Bound parameters) completion operation callback
      session) :
    chain.machine.Stands chain.client (chain.Leaves At Bound) Request.sent Session.reply request
      session where
  left := ⟨parameters, clean, .waiting operation callback session { waits with completes := fun _ => rfl }⟩
  sent := by rw [waits.sent, waits.unsent, Option.toList_none]
  waits other pending := by
    obtain rfl : operation = other := by simpa [Chain.client, waits.pending] using pending
    refine ⟨0, by simp [Chain.machine, waits.outstanding], fun future => ?_⟩
    simp [Chain.machine, Request.move, waits.outstanding]

/-- A request whose responsible callback has come to its end stands where that callback leaves
the session. -/
theorem Request.Running.stands {parameters : S} {request : Request σ κ K V ρ}
    {completion : Completion (Session σ κ K V ρ) K V} {i : Nat}
    (clean : request.Clean (Bound parameters))
    (runs : request.Running chain (At parameters) (Bound parameters) completion i (.pure ()) asked
      session) :
    chain.machine.Stands chain.client (chain.Leaves At Bound) Request.sent Session.reply request
      session where
  left := by
    refine ⟨parameters, clean, .running i _ asked session { runs with completes := fun _ => ?_ }⟩
    simp [Prog.run]
  sent := by
    have once := clean.sent_once
    rw [runs.reply]
    cases listed : request.sent with
    | nil => rfl
    | cons first rest =>
      obtain rfl : rest = [] := by simpa [listed] using once
      rfl
  waits other pending := by simp [Chain.client, runs.unasked] at pending

/-- The responsible callback can go on to its end, with these answers. -/
theorem Request.Running.ends {parameters : S} (answers : Answers) (active : Prog σ κ K V ρ Unit)
    {request : Request σ κ K V ρ}
    {completion : Completion (Session σ κ K V ρ) K V} (clean : request.Clean (Bound parameters))
    (runs : request.Running chain (At parameters) (Bound parameters) completion i active asked session) :
    ∃ turns request', chain.machine.runs request turns = some (request', (completion answers).2) ∧
      chain.machine.Stands chain.client (chain.Leaves At Bound) Request.sent Session.reply request'
        (completion answers).1 := by
  induction active using Prog.exec_induction chain.zero generalizing request completion asked session with
  | ended result =>
    refine ⟨[], request, ?_, ?_⟩
    · simp [StepClient.runs, runs.completes, Prog.run]
    · rw [runs.completes]
      exact runs.stands clean
  | step active ih =>
    obtain ⟨completion', outcome, _, continues⟩ := runs.exec clean answers
    have went : request.move chain (.run i answers) = some (request.after chain i active answers) := by
      rw [Request.move, runs.found]
      rfl
    have moved : chain.machine.run request i answers =
        some (request.after chain i active answers, active.buffered) := by
      simp [Chain.machine, went, runs.found]
    obtain ⟨clean', _⟩ :=
      Request.Custody.run clean (Request.Left.running i active asked session runs).custody went
    rw [continues]
    rcases outcome with ⟨asked', session', runs'⟩ | ⟨operation, callback, session', waits⟩
    · obtain ⟨turns, request', ran, stands⟩ := ih answers request clean' runs'
      exact ⟨(i, answers) :: turns, request', by simp [StepClient.runs, moved, ran], stands⟩
    · refine ⟨[(i, answers)], request.after chain i active answers, ?_, ?_⟩
      · simp [StepClient.runs, moved, waits.completes]
      · rw [waits.completes]
        exact waits.stands clean'

/-- A callback in progress can always come to its end, with any answers, and it shows no other
answer than its whole callback would. -/
theorem Chain.ends (chain : Chain S σ κ K V ρ) :
    chain.machine.Ends chain.client (chain.Leaves At Bound) Request.sent Session.reply where
  shown related sent answers := by
    obtain ⟨parameters, clean, left⟩ := related
    exact left.sent clean sent answers
  ends {request} {completion} related answers := by
    obtain ⟨parameters, clean, left⟩ := related
    cases left with
    | running i active asked session runs => exact runs.ends answers active clean
    | waiting operation callback session waits =>
      refine ⟨[], request, by simp [StepClient.runs, waits.completes], ?_⟩
      rw [waits.completes]
      exact waits.stands clean

end Kind

end Asks

end H2oTpcc

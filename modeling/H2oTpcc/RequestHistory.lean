import H2oTpcc.QuietRuns

/-! What the connections of a run were asked for. A run is read a second time, without its
store: what each connection got from outside is noted along it, so that an invariant of one
connection can speak of its own parameters, of the clock it saw and of its random seeds, and a
result about the store can speak of these instead of what a handler made of them. -/
namespace H2oTpcc
variable {S T L M K V : Type}

/-- The requests in the order of their connections. -/
def Event.note (requests : List (S × Answers)) : Event S → List (S × Answers)
  | .start parameters answers => requests ++ [(parameters, answers)]
  | .settle i _ answers => requests.modify i fun request => (request.1, answers)

def requests (events : List (Event S)) : List (S × Answers) := events.foldl Event.note []

/-- The parameters of the `i`-th request. -/
def asked (events : List (Event S)) (i : Nat) : Option S := (requests events)[i]?.map Prod.fst

@[simp] theorem requests_append (events : List (Event S)) (event : Event S) :
    requests (events ++ [event]) = event.note (requests events) := by
  simp [requests]

/-- Parameters never change. -/
private theorem asked_append {events : List (Event S)} (event : Event S)
    (found : asked events i = some parameters) :
    asked (events ++ [event]) i = some parameters := by
  obtain ⟨request, noted, rfl⟩ := Option.map_eq_some_iff.mp found
  obtain ⟨inside, _⟩ := List.getElem?_eq_some_iff.mp noted
  cases event with
  | start => simp [asked, Event.note, List.getElem?_append_left inside, noted]
  | settle j => by_cases own : j = i <;> simp [asked, Event.note, noted, own]

theorem asked_extend {events : List (Event S)} (later : List (Event S))
    (found : asked events i = some parameters) : asked (events ++ later) i = some parameters := by
  induction later using List.reverseRecOn with
  | nil => rwa [List.append_nil]
  | append_singleton later event ih =>
    rw [← List.append_assoc]
    exact asked_append event ih

/-- A run with one request in which every callback gets the same answers. -/
theorem requests_single {parameters : S} {answers : Answers} {first second : List (Event S)}
    (noted : requests first = [(parameters, answers)])
    (settled : ∀ event ∈ second, ∃ verdict, event = .settle 0 verdict answers) :
    requests (first ++ second) = [(parameters, answers)] := by
  induction second using List.reverseRecOn with
  | nil => rw [List.append_nil, noted]
  | append_singleton second event ih =>
    obtain ⟨verdict, rfl⟩ := settled event (by simp)
    rw [← List.append_assoc, requests_append, ih fun event member => settled event (by simp [member])]
    rfl

/-! ## The inputs of a request -/

/-- What a connection got from outside: its parameters, and what the environment answered its
entry point and then each of its callbacks. -/
structure Inputs (S : Type) where
  parameters : S
  answers : List Answers

namespace Inputs

/-- What the latest callback was answered. -/
def latest (inputs : Inputs S) : Answers := inputs.answers.getLast?.getD {}

/-- One more callback has run. -/
def hear (inputs : Inputs S) (answers : Answers) : Inputs S :=
  { inputs with answers := inputs.answers ++ [answers] }

@[simp] theorem latest_single (parameters : S) (answers : Answers) :
    latest ⟨parameters, [answers]⟩ = answers := rfl

@[simp] theorem latest_hear (inputs : Inputs S) (answers : Answers) :
    (inputs.hear answers).latest = answers := by
  simp [latest, hear]

/-- Asked for in this way, and answered in this way all along. -/
structure Uniform (parameters : S) (answers : Answers) (inputs : Inputs S) : Prop where
  parameters : inputs.parameters = parameters
  answers : ∀ answer ∈ inputs.answers, answer = answers

theorem Uniform.hear {parameters : S} {answers : Answers} {inputs : Inputs S}
    (uniform : inputs.Uniform parameters answers) : (inputs.hear answers).Uniform parameters answers := by
  refine ⟨uniform.parameters, fun answer member => ?_⟩
  rcases List.mem_append.mp member with old | new
  · exact uniform.answers answer old
  · exact List.mem_singleton.mp new

@[simp] theorem parameters_hear (inputs : Inputs S) (answers : Answers) :
    (inputs.hear answers).parameters = inputs.parameters := rfl

end Inputs

/-- The inputs of every connection and, for every commit in the order of the log, those its
connection had when it asked for it. -/
structure History (S : Type) where
  inputs : List (Inputs S) := []
  committed : List (Inputs S) := []

/-- The database applies the commit, whether or not it says so. -/
def Verdict.applies : Verdict → Bool
  | .committed | .unknown true => true
  | _ => false

def Event.record (history : History S) : Event S → History S
  | .start parameters answers => { history with inputs := history.inputs ++ [⟨parameters, [answers]⟩] }
  | .settle i verdict answers =>
    { inputs := history.inputs.modify i (·.hear answers)
      committed := history.committed ++ if verdict.applies then history.inputs[i]?.toList else [] }

def history (events : List (Event S)) : History S := events.foldl Event.record {}

@[simp] theorem history_append (events : List (Event S)) (event : Event S) :
    history (events ++ [event]) = event.record (history events) := by
  simp [history]

/-- The requests are the inputs with all but the latest answers forgotten. -/
theorem requests_eq (events : List (Event S)) :
    requests events = (history events).inputs.map fun inputs => (inputs.parameters, inputs.latest) := by
  induction events using List.reverseRecOn with
  | nil => rfl
  | append_singleton events event ih =>
    rw [requests_append, history_append, ih]
    cases event with
    | start => simp [Event.note, Event.record]
    | settle i =>
      simp only [Event.note, Event.record]
      apply List.ext_getElem?
      intro j
      by_cases own : i = j
      · simp [own, Function.comp_def]
      · simp [own]

/-- In a run where everything was asked and answered in one way, so was every request. -/
theorem history_uniform {parameters : S} {answers : Answers} {events : List (Event S)}
    (uniform : ∀ event ∈ events,
      event = .start parameters answers ∨ ∃ i verdict, event = .settle i verdict answers) :
    (∀ inputs ∈ (history events).inputs, inputs.Uniform parameters answers) ∧
      ∀ inputs ∈ (history events).committed, inputs.Uniform parameters answers := by
  induction events using List.reverseRecOn with
  | nil => simp [history]
  | append_singleton events event ih =>
    obtain ⟨heard, committed⟩ := ih fun event member => uniform event (by simp [member])
    rw [history_append]
    rcases uniform event (by simp) with rfl | ⟨i, verdict, rfl⟩
    · refine ⟨fun inputs member => ?_, committed⟩
      rcases List.mem_append.mp member with old | new
      · exact heard inputs old
      · cases List.mem_singleton.mp new
        exact ⟨rfl, by simp⟩
    · constructor
      · intro inputs member
        obtain ⟨j, found⟩ := List.getElem?_of_mem member
        rw [Event.record, List.getElem?_modify] at found
        obtain ⟨earlier, here, rfl⟩ := Option.map_eq_some_iff.mp found
        have before := heard earlier (List.mem_of_getElem? here)
        split
        · exact before.hear
        · exact before
      · intro inputs member
        rcases List.mem_append.mp member with old | new
        · exact committed inputs old
        · split at new
          · exact heard inputs (List.mem_of_getElem? (Option.mem_toList.mp new))
          · cases new

/-- What was asked on a connection is the first part of its recorded inputs. -/
theorem asked_eq (events : List (Event S)) (i : Nat) :
    asked events i = (history events).inputs[i]?.map Inputs.parameters := by
  rw [asked, requests_eq, List.getElem?_map, Option.map_map]
  rfl

variable [DecidableEq K]

/-- An invariant of a client, its attempt and its inputs. -/
structure RequestInvariant (client : Client S L K V) (Inv : Inputs S → L → Attempt K V → Prop) :
    Prop where
  start : ∀ parameters answers, Inv ⟨parameters, [answers]⟩ (client.start parameters answers) {}
  resume : ∀ inputs answers {state attempt attempt' operation future},
    Inv inputs state attempt → client.pending state = some operation →
    Delivers operation attempt attempt' future →
    Inv (inputs.hear answers) (client.resume answers state future).1
      { attempt' with writes := attempt'.writes ++ (client.resume answers state future).2 }

theorem LocalInvariant.nothing (client : Client S L K V) : LocalInvariant client fun _ _ => True where
  start _ _ := trivial
  resume _ {_} {_} {_} {_} {_} _ _ _ := trivial

theorem RequestInvariant.nothing (client : Client S L K V) :
    RequestInvariant client fun _ _ _ => True where
  start _ _ := trivial
  resume _ _ {_} {_} {_} {_} {_} _ _ _ := trivial

/-- Two kinds of clients, each with the invariant of its kind. -/
def Inputs.Either (Inv : Inputs S → L → Attempt K V → Prop) (Inv' : Inputs T → M → Attempt K V → Prop)
    (inputs : Inputs (S ⊕ T)) (state : L ⊕ M) (attempt : Attempt K V) : Prop :=
  match inputs.parameters, state with
  | .inl parameters, .inl state => Inv ⟨parameters, inputs.answers⟩ state attempt
  | .inr parameters, .inr state => Inv' ⟨parameters, inputs.answers⟩ state attempt
  | _, _ => False

omit [DecidableEq K] in
/-- A connection in a state of the left client was opened with a request of the left kind. -/
theorem Inputs.Either.of_inl {Inv : Inputs S → L → Attempt K V → Prop}
    {Inv' : Inputs T → M → Attempt K V → Prop} {inputs : Inputs (S ⊕ T)} {state : L}
    {attempt : Attempt K V} (holds : inputs.Either Inv Inv' (.inl state) attempt) :
    ∃ parameters, inputs.parameters = .inl parameters ∧ Inv ⟨parameters, inputs.answers⟩ state attempt := by
  obtain ⟨parameters | parameters, answers⟩ := inputs
  · exact ⟨parameters, rfl, holds⟩
  · exact holds.elim

omit [DecidableEq K] in
/-- And one in a state of the right client with a request of the right kind. -/
theorem Inputs.Either.of_inr {Inv : Inputs S → L → Attempt K V → Prop}
    {Inv' : Inputs T → M → Attempt K V → Prop} {inputs : Inputs (S ⊕ T)} {state : M}
    {attempt : Attempt K V} (holds : inputs.Either Inv Inv' (.inr state) attempt) :
    ∃ parameters, inputs.parameters = .inr parameters ∧
      Inv' ⟨parameters, inputs.answers⟩ state attempt := by
  obtain ⟨parameters | parameters, answers⟩ := inputs
  · exact holds.elim
  · exact ⟨parameters, rfl, holds⟩

/-- Clients of two kinds on one store keep to their requests as each of them does. -/
theorem RequestInvariant.sum {left : Client S L K V} {right : Client T M K V}
    {Inv : Inputs S → L → Attempt K V → Prop} {Inv' : Inputs T → M → Attempt K V → Prop}
    (first : RequestInvariant left Inv) (second : RequestInvariant right Inv') :
    RequestInvariant (left.sum right) (Inputs.Either Inv Inv') where
  start
    | .inl parameters, answers => first.start parameters answers
    | .inr parameters, answers => second.start parameters answers
  resume inputs answers {state} {_} {_} {_} {_} holds pending delivers := by
    obtain ⟨_, heard⟩ := inputs
    cases state with
    | inl state =>
      obtain ⟨parameters, rfl, here⟩ := holds.of_inl
      exact first.resume ⟨parameters, heard⟩ answers here pending delivers
    | inr state =>
      obtain ⟨parameters, rfl, here⟩ := holds.of_inr
      exact second.resume ⟨parameters, heard⟩ answers here pending delivers

/-- For a chain it is enough to show what its start and each of its callbacks hand on, given the
inputs up to there. -/
theorem Chain.requestInvariant (chain : Chain S σ κ K V ρ)
    {At : Inputs S → κ → Operation K → σ → Attempt K V → Prop}
    (start : ∀ parameters answers,
      SessionInv (At ⟨parameters, [answers]⟩) (chain.start parameters answers) {})
    (body : ∀ inputs answers callback operation attempt attempt' future
      (session : Session σ κ K V ρ), At inputs callback operation session.ctx attempt →
      Delivers operation attempt attempt' future → session.pending = none → session.sets = [] →
      (chain.body callback future).HandsOn (At (inputs.hear answers)) answers attempt' session) :
    RequestInvariant chain.client (fun inputs => SessionInv (At inputs)) where
  start := start
  resume inputs answers {_} {_} {_} {_} {_} holds pending delivers :=
    holds.resume chain answers pending fun callback here =>
      body inputs answers callback _ _ _ _ _ here delivers rfl rfl

/-- Left alone, a client keeps its invariant, with reads that the view agrees with. -/
theorem Client.Quiet.invariant {client : Client S L K V} {Inv : L → Attempt K V → Prop}
    (invariant : LocalInvariant client Inv) {attempt : Attempt K V}
    (quiet : client.Quiet answers view state sets state' sets') (holds : Inv state attempt)
    (buffered : attempt.writes = sets) (agrees : ∀ read ∈ attempt.reads, view read.1 = read.2) :
    ∃ attempt', Inv state' attempt' ∧ attempt'.writes = sets' ∧
      ∀ read ∈ attempt'.reads, view read.1 = read.2 := by
  induction quiet generalizing attempt with
  | refl => exact ⟨attempt, holds, buffered, agrees⟩
  | @read state key state' sets' asks rest ih =>
    have delivers : Delivers (.get key) attempt
        { attempt with version := some 0, reads := attempt.reads ++ [(key, view key)] }
        (.value (view key)) := .read 0 (view key) (by simp [buffered])
    refine ih (invariant.resume answers holds asks delivers) (by simp [buffered]) ?_
    intro read member
    rcases List.mem_append.mp member with earlier | last
    · exact agrees read earlier
    · cases List.mem_singleton.mp last
      rfl

omit [DecidableEq K] in
/-- What an attempt can know only from reading something holds in its version. -/
theorem Known.version [Ord K] [Std.TransOrd K] {db : Database K V A} {attempt : Attempt K V}
    {fact : (K → Option V) → Prop} (known : Known attempt.reads fact) (faithful : attempt.Faithful db)
    (something : ¬ fact fun _ => none) :
    ∃ version, attempt.version = some version ∧ fact fun key => (db.asOf version)[key]? := by
  cases chosen : attempt.version with
  | none =>
    refine absurd (known _ fun read member => ?_) something
    obtain ⟨version, chosen', _⟩ := faithful.reads_from read member
    rw [chosen] at chosen'
    cases chosen'
  | some version =>
    refine ⟨version, rfl, known _ fun read member => ?_⟩
    obtain ⟨version', chosen', value⟩ := faithful.reads_from read member
    rw [chosen] at chosen'
    cases chosen'
    exact value

/-- The log grows just by the commits that a verdict applies. -/
private theorem Settles.log_applies [Ord K] [Std.TransOrd K] {db db' : Database K V (Nat × L)}
    (settles : Settles db author attempt operation verdict db' attempt' future) :
    verdict.applies = false ∧ db' = db ∨
      verdict.applies = true ∧ operation = .commit ∧ ¬ attempt.Conflicts db ∧
        db' = db.append ⟨author, attempt.writes⟩ := by
  cases settles with
  | committed clear | applied clear => exact .inr ⟨rfl, rfl, clear, rfl⟩
  | _ => exact .inl ⟨rfl, rfl⟩

namespace World
variable [Ord K] [Std.TransOrd K] {client : Client S L K V} {base : Store K V}
  {Inv : Inputs S → L → Attempt K V → Prop} {world world' : World L K V} {events : List (Event S)}

/-- A commit was asked for by a connection that kept the invariant with these inputs, and that
had read what stood in the store just before its commit. -/
structure Authored (client : Client S L K V) (Inv : Inputs S → L → Attempt K V → Prop)
    (events : List (Event S)) (before : Store K V) (commit : Commit K V (Nat × L))
    (inputs : Inputs S) (attempt : Attempt K V) : Prop where
  asked : asked events commit.author.1 = some inputs.parameters
  writes : attempt.writes = commit.writes
  pending : client.pending commit.author.2 = some .commit
  reads : ∀ read ∈ attempt.reads, before[read.1]? = read.2
  holds : Inv inputs commit.author.2 attempt

/-- Every connection keeps the invariant with its own inputs, and so did the connection that
made a commit when it asked for it. -/
structure Kept (client : Client S L K V) (Inv : Inputs S → L → Attempt K V → Prop)
    (events : List (Event S)) (world : World L K V) : Prop where
  size : world.connections.length = (history events).inputs.length
  connection : ∀ (i : Nat) (connection : Connection L K V) (inputs : Inputs S),
    world.connections[i]? = some connection → (history events).inputs[i]? = some inputs →
    Inv inputs connection.client connection.attempt
  commits : world.db.log.length = (history events).committed.length
  author : ∀ version commit, world.db.log[version]? = some commit →
    ∃ inputs attempt, (history events).committed[version]? = some inputs ∧
      Authored client Inv events (world.db.asOf version) commit inputs attempt

omit [DecidableEq K] in
/-- Behind every connection there is a request. -/
theorem Kept.asked {connection : Connection L K V} (kept : world.Kept client Inv events)
    (found : world.connections[i]? = some connection) : ∃ parameters, asked events i = some parameters := by
  obtain ⟨inside, _⟩ := List.getElem?_eq_some_iff.mp found
  rw [asked_eq, List.getElem?_eq_getElem (kept.size ▸ inside)]
  exact ⟨_, rfl⟩

/-- A new connection is recorded with its request and the answers that its first callback got. -/
theorem Kept.start (kept : world.Kept client Inv events) (invariant : RequestInvariant client Inv)
    (parameters : S) (answers : Answers) :
    Kept client Inv (events ++ [.start parameters answers]) { world with
      connections := world.connections ++ [{ client := client.start parameters answers }] } where
  size := by simp [Event.record, kept.size]
  connection := by
    intro i connection inputs found noted
    rw [history_append, Event.record] at noted
    rcases Nat.lt_trichotomy i world.connections.length with old | rfl | beyond
    · rw [List.getElem?_append_left old] at found
      rw [List.getElem?_append_left (kept.size ▸ old)] at noted
      exact kept.connection i connection inputs found noted
    · rw [List.getElem?_append_right (Nat.le_refl _), Nat.sub_self] at found
      rw [kept.size, List.getElem?_append_right (Nat.le_refl _), Nat.sub_self] at noted
      cases found
      cases noted
      exact invariant.start parameters answers
    · rw [List.getElem?_eq_none (by simp; omega)] at found
      cases found
  commits := by simp [Event.record, kept.commits]
  author := by
    intro version commit logged
    obtain ⟨inputs, attempt, noted, authored⟩ := kept.author version commit logged
    exact ⟨inputs, attempt, by simpa [Event.record] using noted,
      { authored with asked := asked_append _ authored.asked }⟩

omit [DecidableEq K] in
/-- What was known of a commit stays known when the log grows. -/
private theorem Kept.author_append (kept : world.Kept client Inv events) (i : Nat) (verdict : Verdict)
    (answers : Answers)
    (same : ∀ version ≤ world.db.log.length, world'.db.asOf version = world.db.asOf version)
    (logged : world.db.log[version]? = some commit) :
    ∃ inputs attempt,
      (history (events ++ [.settle i verdict answers])).committed[version]? = some inputs ∧
      Authored client Inv (events ++ [.settle i verdict answers]) (world'.db.asOf version) commit inputs
        attempt := by
  obtain ⟨inputs, attempt, noted, authored⟩ := kept.author version commit logged
  obtain ⟨inside, _⟩ := List.getElem?_eq_some_iff.mp logged
  refine ⟨inputs, attempt, ?_, ?_⟩
  · rw [history_append, Event.record, List.getElem?_append_left (kept.commits ▸ inside)]
    exact noted
  · rw [same version (Nat.le_of_lt inside)]
    exact { authored with asked := asked_append _ authored.asked }

/-- A settlement adds the answers of one callback to its own connection, and a commit is
recorded with the inputs of the connection that made it. -/
theorem Kept.settle [Std.LawfulEqOrd K] {connection : Connection L K V} {attempt : Attempt K V}
    {future : Future K V}
    (kept : world.Kept client Inv events) (invariant : RequestInvariant client Inv) (answers : Answers)
    (found : world.connections[i]? = some connection) (faithful : connection.attempt.Faithful world.db)
    (pending : client.pending connection.client = some operation)
    (settles : Settles world.db (i, connection.client) connection.attempt operation verdict world'.db
      attempt future)
    (after : world'.connections = world.connections.set i
      { client := (client.resume answers connection.client future).1
        attempt := { attempt with
          writes := attempt.writes ++ (client.resume answers connection.client future).2 } }) :
    Kept client Inv (events ++ [.settle i verdict answers]) world' := by
  obtain ⟨inside, _⟩ := List.getElem?_eq_some_iff.mp found
  obtain ⟨inputs, noted⟩ : ∃ inputs, (history events).inputs[i]? = some inputs :=
    ⟨_, List.getElem?_eq_getElem (kept.size ▸ inside)⟩
  have holds := kept.connection i connection inputs found noted
  refine ⟨by simp [Event.record, after, kept.size], ?_, ?_, ?_⟩
  · intro j other inputs' found' noted'
    rw [after, List.getElem?_set] at found'
    rw [history_append, Event.record, List.getElem?_modify] at noted'
    obtain ⟨earlier, here, rfl⟩ := Option.map_eq_some_iff.mp noted'
    split at found'
    · rename_i own
      subst own
      cases noted.symm.trans here
      cases found'
      rw [if_pos rfl]
      exact invariant.resume inputs answers holds pending settles.delivers
    · rename_i apart
      rw [if_neg apart]
      exact kept.connection j other earlier found' here
  · rcases settles.log_applies with ⟨lost, same⟩ | ⟨applied, _, _, grown⟩
    · simp [Event.record, lost, same, kept.commits]
    · simp [Event.record, applied, noted, grown, Database.append_log, kept.commits]
  · intro version commit logged
    rcases settles.log_applies with ⟨lost, same⟩ | ⟨applied, rfl, clear, grown⟩
    · exact kept.author_append i verdict answers (fun _ _ => by rw [same]) (same ▸ logged)
    rw [grown, Database.append_log] at logged
    have earlier : ∀ version ≤ world.db.log.length, world'.db.asOf version = world.db.asOf version :=
      fun _ old => by rw [grown, Database.asOf_append _ _ old]
    rcases Nat.lt_trichotomy version world.db.log.length with old | rfl | beyond
    · rw [List.getElem?_append_left old] at logged
      exact kept.author_append i verdict answers earlier logged
    · -- The new commit: no conflict, so its reads are those of the store it is applied to.
      rw [List.getElem?_concat_length] at logged
      cases logged
      refine ⟨inputs, connection.attempt, ?_, ?_, rfl, pending, ?_, holds⟩
      · simp [Event.record, applied, noted, kept.commits]
      · exact asked_append _ (by rw [asked_eq, noted]; rfl)
      · rw [earlier _ (Nat.le_refl _)]
        exact Attempt.reads_current faithful clear
    · rw [List.getElem?_eq_none (by simp; omega)] at logged
      cases logged

/-- Every run keeps a request's invariant, for each connection and, at the moment of its commit,
for each commit of the log. -/
theorem run_kept [Std.LawfulEqOrd K] (invariant : RequestInvariant client Inv)
    (ran : (initial base).run client events = some world) : world.Kept client Inv events := by
  refine run_invariant (P := fun events world => world.Kept client Inv events)
    ⟨rfl, fun _ _ _ found => (by cases found), rfl, fun _ _ logged => (by cases logged)⟩ ?_ ran
  intro events world event world' reached kept stepped
  rcases step_cases stepped with ⟨parameters, answers, rfl, rfl⟩ |
    ⟨i, verdict, answers, connection, operation, attempt, future, rfl, found, pending, settles, after⟩
  · exact kept.start invariant parameters answers
  · have faithful := (reachable_connections (.nothing client) reached connection
      (List.mem_of_getElem? found)).2
    exact kept.settle invariant answers found faithful pending settles after

end World

end H2oTpcc

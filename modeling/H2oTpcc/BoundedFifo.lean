import Mathlib.Data.List.Basic

/-! A bounded first-in first-out queue, and what it means for a machine that works in
smaller steps to implement it. Most steps of the machine show nothing to its callers;
those that complete an operation must match a step of the queue. -/
namespace H2oTpcc

/-- A machine with steps that are chosen from outside and may show an action. -/
structure Machine (σ γ A : Type) where
  step : γ → σ → Option (σ × Option A)

namespace Machine
variable {σ γ A Q : Type}

/-- The run that these choices make: the actions it shows and the state it ends in. -/
def run (machine : Machine σ γ A) : List γ → σ → Option (List A × σ)
  | [], state => some ([], state)
  | choice :: rest, state => do
    let (state', action) ← machine.step choice state
    let (actions, final) ← machine.run rest state'
    return (action.toList ++ actions, final)

/-- Every step that these choices make is as required. -/
def Along (machine : Machine σ γ A) (ok : γ → σ → σ → Prop) : List γ → σ → Prop
  | [], _ => True
  | choice :: rest, state => ∀ state' action, machine.step choice state = some (state', action) →
    ok choice state state' ∧ machine.Along ok rest state'

/-- A run of at least one choice is its first step and a run of the rest from where that step
leads. -/
theorem run_cons {machine : Machine σ γ A}
    (ran : machine.run (choice :: rest) state = some (actions, final)) :
    ∃ state' action later, machine.step choice state = some (state', action) ∧
      machine.run rest state' = some (later, final) ∧ actions = action.toList ++ later := by
  simp only [run, Option.bind_eq_bind, Option.bind_eq_some_iff] at ran
  obtain ⟨⟨state', action⟩, stepped, ⟨later, final'⟩, continued, same⟩ := ran
  cases same
  exact ⟨state', action, later, stepped, continued, rfl⟩

/-- What every such step keeps, of the actions shown so far and the state, a run of such
steps keeps. -/
theorem run_along {machine : Machine σ γ A} {I : List A → σ → Prop} {ok : γ → σ → σ → Prop}
    (step : ∀ {choice actions state state' action}, I actions state →
      machine.step choice state = some (state', action) → ok choice state state' →
      I (actions ++ action.toList) state')
    (holds : I earlier start) (ran : machine.run choices start = some (actions, state))
    (along : machine.Along ok choices start) : I (earlier ++ actions) state := by
  induction choices generalizing earlier start actions with
  | nil =>
    cases ran
    rwa [List.append_nil]
  | cons choice rest ih =>
    obtain ⟨middle, action, later, stepped, continued, rfl⟩ := run_cons ran
    obtain ⟨fine, further⟩ := along middle action stepped
    rw [← List.append_assoc]
    exact ih (step holds stepped fine) continued further

/-- A condition that holds for the choices whatever the states are holds along every run of
them. -/
theorem along_of_choices {machine : Machine σ γ A} {ok : γ → σ → σ → Prop}
    (fine : ∀ choice ∈ choices, ∀ state state', ok choice state state') (start : σ) :
    machine.Along ok choices start := by
  induction choices generalizing start with
  | nil => trivial
  | cons choice rest ih =>
    intro state' action stepped
    exact ⟨fine choice List.mem_cons_self start state',
      ih (fun later member => fine later (List.mem_cons_of_mem choice member)) state'⟩

/-- What every step keeps, of the actions shown so far and the state, a run keeps. -/
theorem run_invariant {machine : Machine σ γ A} {I : List A → σ → Prop}
    (step : ∀ {choice actions state state' action}, I actions state →
      machine.step choice state = some (state', action) → I (actions ++ action.toList) state')
    (holds : I earlier start) (ran : machine.run choices start = some (actions, state)) :
    I (earlier ++ actions) state :=
  run_along (fun holds stepped _ => step holds stepped) holds ran
    (along_of_choices (fun _ _ _ _ => trivial) start)

/-- The runs of an abstract transition relation, by their actions. -/
inductive Trace (next : Q → A → Q → Prop) : Q → List A → Q → Prop where
  | refl : Trace next q [] q
  | cons (stepped : next q action middle) (rest : Trace next middle actions q') :
      Trace next q (action :: actions) q'

theorem Trace.append {next : Q → A → Q → Prop} (first : Trace next q actions middle)
    (second : Trace next middle actions' q') : Trace next q (actions ++ actions') q' := by
  induction first with
  | refl => exact second
  | cons stepped _ ih => exact .cons stepped (ih second)

/-- A trace of two lists of actions passes through a state after the first of them. -/
theorem Trace.split {next : Q → A → Q → Prop} {first : List A}
    (trace : Trace next q (first ++ second) q') :
    ∃ middle, Trace next q first middle ∧ Trace next middle second q' := by
  induction first generalizing q with
  | nil => exact ⟨q, .refl, trace⟩
  | cons action rest ih =>
    cases trace with
    | cons stepped continued =>
      obtain ⟨middle, before, after⟩ := ih continued
      exact ⟨middle, .cons stepped before, after⟩

/-- The last step of a run, which is where an induction over runs goes on. -/
theorem Trace.last {next : Q → A → Q → Prop} {actions : List A} {action : A}
    (trace : Trace next q (actions ++ [action]) q') :
    ∃ middle, Trace next q actions middle ∧ next middle action q' := by
  obtain ⟨middle, before, after⟩ := trace.split
  cases after with
  | cons stepped rest =>
    cases rest
    exact ⟨middle, before, stepped⟩

/-- The states of the two are kept related, and every action shown is a step of the
abstract one. -/
structure Simulates (machine : Machine σ γ A) (next : Q → A → Q → Prop) (Rel : σ → Q → Prop) :
    Prop where
  silent : ∀ {choice state state' q}, Rel state q →
    machine.step choice state = some (state', none) → Rel state' q
  visible : ∀ {choice state state' action q}, Rel state q →
    machine.step choice state = some (state', some action) → ∃ q', next q action q' ∧ Rel state' q'

/-- What a simulating machine shows, the abstract one can do: every run has a trace with the
same actions, and ends in related states. -/
theorem Simulates.trace {machine : Machine σ γ A} {next : Q → A → Q → Prop} {Rel : σ → Q → Prop}
    (simulates : machine.Simulates next Rel) {choices : List γ} (related : Rel start q)
    (ran : machine.run choices start = some (actions, state)) :
    ∃ q', Trace next q actions q' ∧ Rel state q' := by
  induction choices generalizing start q actions with
  | nil =>
    cases ran
    exact ⟨q, .refl, related⟩
  | cons choice rest ih =>
    obtain ⟨middle, action, later, stepped, continued, rfl⟩ := run_cons ran
    cases action with
    | none => exact ih (simulates.silent related stepped) continued
    | some action =>
      obtain ⟨q', next, holds⟩ := simulates.visible related stepped
      obtain ⟨q'', trace, holds'⟩ := ih holds continued
      exact ⟨q'', .cons next trace, holds'⟩

theorem run_nil (machine : Machine σ γ A) (state : σ) : machine.run [] state = some ([], state) := rfl

/-- A step before a run makes a longer run, whose actions start with what the step shows. -/
theorem run_of_step {machine : Machine σ γ A}
    (stepped : machine.step choice start = some (middle, action))
    (continued : machine.run rest middle = some (later, final)) :
    machine.run (choice :: rest) start = some (action.toList ++ later, final) := by
  simp [run, stepped, continued]

/-- Two runs with a common state in the middle are one, with their actions in order. -/
theorem run_trans {machine : Machine σ γ A} {choices later : List γ}
    (first : machine.run choices start = some (actions, middle))
    (second : machine.run later middle = some (actions', final)) :
    machine.run (choices ++ later) start = some (actions ++ actions', final) := by
  induction choices generalizing start actions with
  | nil =>
    cases first
    exact second
  | cons choice rest ih =>
    obtain ⟨state', action, shown, stepped, continued, rfl⟩ := run_cons first
    rw [List.append_assoc]
    exact run_of_step stepped (ih continued)

/-- A machine that can do every step of the abstract one shows all that it can do. -/
theorem Trace.realised {machine : Machine σ γ A} {next : Q → A → Q → Prop} {Rel : σ → Q → Prop}
    (trace : Trace next q actions q') (related : Rel start q)
    (realises : ∀ {state q action q'}, Rel state q → next q action q' →
      ∃ choices state', machine.run choices state = some ([action], state') ∧ Rel state' q') :
    ∃ choices state, machine.run choices start = some (actions, state) ∧ Rel state q' := by
  induction trace generalizing start with
  | refl => exact ⟨[], start, rfl, related⟩
  | cons stepped _ ih =>
    obtain ⟨choices, middle, first, related'⟩ := realises related stepped
    obtain ⟨later, state, second, holds⟩ := ih related'
    exact ⟨choices ++ later, state, run_trans first second, holds⟩

end Machine

/-! ## The queue -/

namespace Fifo
variable {α : Type}

/-- A finished operation: a push with whether it was accepted, or a pop with what
it returned. -/
inductive Action (α : Type) where
  | push (item : α) (accepted : Bool)
  | pop (returned : Option α)

/-- The queue of at most `capacity` items. -/
inductive Next (capacity : Nat) : List α → Action α → List α → Prop where
  | push (room : queue.length < capacity) : Next capacity queue (.push item true) (queue ++ [item])
  | full (full : queue.length = capacity) : Next capacity queue (.push item false) queue
  | pop : Next capacity (item :: queue) (.pop (some item)) queue
  | empty : Next capacity [] (.pop none) []

theorem Next.refused (next : Next capacity queue (.push item false) queue') :
    queue.length = capacity := by
  cases next
  assumption

theorem Next.null (next : Next capacity queue (.pop none) queue') : queue = ([] : List α) := by
  cases next
  rfl

/-- The items whose push was accepted. -/
def accepted (actions : List (Action α)) : List α :=
  actions.filterMap fun
    | .push item true => some item
    | _ => none

/-- The items returned by pops. -/
def returned (actions : List (Action α)) : List α :=
  actions.filterMap fun
    | .pop item => item
    | _ => none

/-- The items accepted and not yet returned. -/
def unread (actions : List (Action α)) : List α :=
  (accepted actions).drop (returned actions).length

/-- What was queued or is accepted is returned, in order, or is queued at the end. -/
theorem accepted_eq {actions : List (Action α)}
    (trace : Machine.Trace (Next capacity) queue actions queue') :
    queue ++ accepted actions = returned actions ++ queue' ∧
      (queue.length ≤ capacity → queue'.length ≤ capacity) := by
  induction trace with
  | refl => simp [accepted, returned]
  | cons stepped _ ih =>
    obtain ⟨items, bounded⟩ := ih
    unfold accepted returned at items ⊢
    cases stepped with
    | push room => exact ⟨by simpa using items, fun _ => bounded (by simpa using Nat.succ_le_of_lt room)⟩
    | full full => exact ⟨by simpa using items, bounded⟩
    | pop => exact ⟨by simpa using items, fun fits => bounded (Nat.le_of_lt fits)⟩
    | empty => exact ⟨by simpa using items, bounded⟩

/-- What the actions say is still to be popped is what the queue holds: accepted items less
popped ones, in order. -/
theorem unread_eq {actions : List (Action α)} (trace : Machine.Trace (Next capacity) [] actions queue) :
    unread actions = queue := by
  rw [unread, ← List.nil_append (accepted actions), (accepted_eq trace).1, List.drop_left]

end Fifo

end H2oTpcc

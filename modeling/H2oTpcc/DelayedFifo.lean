import Mathlib.Data.List.Induction
import H2oTpcc.BoundedFifo

/-! A bounded queue between two threads of which each hears late of what the other has
done. A push may be refused although there is room by now, and a pop may return nothing
although there is an item. -/
namespace H2oTpcc
namespace Fifo
variable {α : Type}

@[simp] theorem accepted_append (actions later : List (Action α)) :
    accepted (actions ++ later) = accepted actions ++ accepted later :=
  List.filterMap_append ..

@[simp] theorem returned_append (actions later : List (Action α)) :
    returned (actions ++ later) = returned actions ++ returned later :=
  List.filterMap_append ..

@[simp] theorem accepted_push (item : α) : accepted [.push item true] = [item] := rfl
@[simp] theorem accepted_full (item : α) : accepted [.push item false] = [] := rfl
@[simp] theorem accepted_pop (item : Option α) : accepted [.pop item] = [] := rfl
@[simp] theorem returned_push (item : α) (ok : Bool) : returned [.push item ok] = [] := rfl
@[simp] theorem returned_pop (item : α) : returned [.pop (some item)] = [item] := rfl
@[simp] theorem returned_empty : returned [.pop (none : Option α)] = [] := rfl

structure Delayed (α : Type) where
  /-- All that was ever accepted, whether returned since or not. -/
  items : List α := []
  taken : Nat := 0
  /-- How many pops the pushing thread has heard of. -/
  heardTaken : Nat := 0
  /-- How many accepted pushes the popping thread has heard of. -/
  heardItems : Nat := 0

namespace Delayed

/-- An operation first hears of some more of what has happened. -/
inductive Next (capacity : Nat) : Delayed α → Action α → Delayed α → Prop where
  | push (heard : q.heardTaken ≤ p) (done : p ≤ q.taken) (room : q.items.length < p + capacity) :
      Next capacity q (.push item true) { q with items := q.items ++ [item], heardTaken := p }
  | full (heard : q.heardTaken ≤ p) (done : p ≤ q.taken) (full : q.items.length = p + capacity) :
      Next capacity q (.push item false) { q with heardTaken := p }
  | pop (heard : q.heardItems ≤ c) (done : c ≤ q.items.length) (unread : q.taken < c)
      (oldest : q.items[q.taken]? = some item) :
      Next capacity q (.pop (some item)) { q with taken := q.taken + 1, heardItems := c }
  | empty (heard : q.heardItems ≤ q.taken) :
      Next capacity q (.pop none) { q with heardItems := q.taken }

/-- What the counts are after these actions. -/
structure After (capacity : Nat) (actions : List (Action α)) (q : Delayed α) : Prop where
  items : q.items = accepted actions
  taken : q.taken = (returned actions).length
  in_order : returned actions = q.items.take q.taken
  bounded : q.items.length ≤ q.heardTaken + capacity
  heardTaken : q.heardTaken ≤ q.taken
  ahead : q.taken ≤ q.heardItems
  heardItems : q.heardItems ≤ q.items.length

/-- Before anything has happened nothing is in the queue, and nobody has heard of anything. -/
theorem After.start (capacity : Nat) : After capacity [] ({} : Delayed α) := by
  constructor <;> simp [accepted, returned]

/-- One action more, and the queue is still the one that the actions describe. -/
theorem After.next (after : After capacity actions q) (next : Next capacity q action q') :
    After capacity (actions ++ [action]) q' := by
  obtain ⟨items, taken, in_order, bounded, heardTaken, ahead, heardItems⟩ := after
  cases next with
  | push heard done room =>
    refine ⟨by simp [items], by simp [taken], ?_, ?_, done, ahead, ?_⟩
    · rw [List.take_append_of_le_length (Nat.le_trans ahead heardItems)]
      simpa using in_order
    · simpa using Nat.succ_le_of_lt room
    · simpa using Nat.le_succ_of_le heardItems
  | full heard done full =>
    exact ⟨by simp [items], by simp [taken], by simpa using in_order, Nat.le_of_eq full, done, ahead,
      heardItems⟩
  | pop heard done unread oldest =>
    refine ⟨by simp [items], by simp [taken], ?_, bounded, Nat.le_succ_of_le heardTaken, unread, done⟩
    rw [List.take_add_one, oldest]
    simpa using in_order
  | empty heard =>
    exact ⟨by simp [items], by simp [taken], by simpa using in_order, bounded, heardTaken,
      Nat.le_refl _, Nat.le_trans ahead heardItems⟩

theorem After.trace (after : After capacity earlier q)
    (trace : Machine.Trace (Next capacity) q actions q') : After capacity (earlier ++ actions) q' := by
  induction trace generalizing earlier with
  | refl => simpa using after
  | cons stepped _ ih => simpa using ih (after.next stepped)

/-- Items may pass one by one, each thread hearing of all the other does. -/
theorem passes (capacity : Nat) (room : 0 < capacity) (item : α) (n : Nat) :
    ∃ actions q, Machine.Trace (Next capacity) ({} : Delayed α) actions q ∧
      (accepted actions).length = n ∧ (returned actions).length = n := by
  induction n with
  | zero => exact ⟨[], {}, .refl, rfl, rfl⟩
  | succ n ih =>
    obtain ⟨actions, q, trace, pushed, popped⟩ := ih
    have after := (After.start capacity).trace trace
    rw [List.nil_append] at after
    have items : q.items.length = q.taken := by rw [after.items, after.taken, pushed, popped]
    let pushed' : Delayed α := { q with items := q.items ++ [item], heardTaken := q.taken }
    let popped' : Delayed α := { pushed' with taken := q.taken + 1, heardItems := q.taken + 1 }
    have push : Next capacity q (.push item true) pushed' :=
      .push after.heardTaken (Nat.le_refl _) (by omega)
    have pop : Next capacity pushed' (.pop (some item)) popped' := by
      refine .pop ?_ ?_ (Nat.lt_succ_self _) ?_
      · exact Nat.le_succ_of_le (items ▸ after.heardItems)
      · simp [pushed', items]
      · simp only [pushed', ← items, List.getElem?_concat_length]
    refine ⟨actions ++ [.push item true, .pop (some item)], _,
      trace.append (.cons push (.cons pop .refl)), ?_, ?_⟩
    · rw [accepted_append, List.length_append, pushed]
      rfl
    · rw [returned_append, List.length_append, popped]
      rfl

/-- A queue that is not delayed is one whose threads hear of all at once. -/
theorem of_fifo (after : After capacity earlier q) (queue : q.items.drop q.taken = queue₁)
    (trace : Machine.Trace (Fifo.Next capacity) queue₁ actions queue₂) :
    ∃ q', Machine.Trace (Next capacity) q actions q' := by
  induction trace generalizing q earlier with
  | refl => exact ⟨q, .refl⟩
  | cons stepped _ ih =>
    have length : q.items.length = q.taken + (q.items.drop q.taken).length := by
      rw [List.length_drop]
      have := after.ahead
      have := after.heardItems
      omega
    rw [queue] at length
    suffices ∃ q₁, Next capacity q _ q₁ ∧ q₁.items.drop q₁.taken = _ by
      obtain ⟨q₁, next, same⟩ := this
      obtain ⟨q', rest⟩ := ih (after.next next) same
      exact ⟨q', .cons next rest⟩
    cases stepped with
    | push room =>
      refine ⟨_, .push after.heardTaken (Nat.le_refl _) (by omega), ?_⟩
      rw [List.drop_append_of_le_length (show q.taken ≤ q.items.length by omega), queue]
    | full full => exact ⟨_, .full after.heardTaken (Nat.le_refl _) (by omega), queue⟩
    | pop =>
      rw [List.length_cons] at length
      refine ⟨_, .pop after.heardItems (Nat.le_refl _) (by omega) ?_, ?_⟩
      · rw [← List.head?_drop, queue, List.head?_cons]
      · rw [← List.drop_drop, queue]
        rfl
    | empty =>
      rw [List.length_nil] at length
      exact ⟨_, .empty (Nat.le_trans after.heardItems (Nat.le_of_eq length)), queue⟩

end Delayed

/-! ## One order of all calls -/

def Action.isPush : Action α → Bool
  | push _ _ => true
  | pop _ => false

def pushes (actions : List (Action α)) : List (Action α) := actions.filter (·.isPush)

def pops (actions : List (Action α)) : List (Action α) := actions.filter (!·.isPush)

/-- The calls of each thread are those of some run of the queue that is not delayed. -/
def Sequential (capacity : Nat) (actions : List (Action α)) : Prop :=
  ∃ actions' queue, Machine.Trace (Next capacity) [] actions' queue ∧
    pushes actions' = pushes actions ∧ pops actions' = pops actions

@[simp] theorem pushes_append (actions later : List (Action α)) :
    pushes (actions ++ later) = pushes actions ++ pushes later :=
  List.filter_append ..

@[simp] theorem pops_append (actions later : List (Action α)) :
    pops (actions ++ later) = pops actions ++ pops later :=
  List.filter_append ..

section Calls
variable (item : α) (returned : Option α) (ok : Bool) (rest : List (Action α))

@[simp] theorem pushes_push : pushes (.push item ok :: rest) = .push item ok :: pushes rest := rfl
@[simp] theorem pushes_pop : pushes (.pop returned :: rest) = pushes rest := rfl
@[simp] theorem pops_push : pops (.push item ok :: rest) = pops rest := rfl
@[simp] theorem pops_pop : pops (.pop returned :: rest) = .pop returned :: pops rest := rfl
@[simp] theorem pushes_nil : pushes ([] : List (Action α)) = [] := rfl
@[simp] theorem pops_nil : pops ([] : List (Action α)) = [] := rfl

end Calls

@[simp] theorem accepted_pushes (actions : List (Action α)) :
    accepted (pushes actions) = accepted actions := by
  rw [accepted, pushes, List.filterMap_filter]
  refine congrArg (actions.filterMap ·) (funext fun action => ?_)
  cases action <;> rfl

@[simp] theorem returned_pops (actions : List (Action α)) : returned (pops actions) = returned actions := by
  rw [returned, pops, List.filterMap_filter]
  refine congrArg (actions.filterMap ·) (funext fun action => ?_)
  cases action <;> rfl

private theorem filter_split {p : α → Bool} {l : List α} (split : l.filter p = first ++ a :: second) :
    ∃ before after, l = before ++ a :: after ∧ before.filter p = first := by
  obtain ⟨l₁, l₂, rfl, filtered, rest⟩ := List.filter_eq_append_iff.mp split
  obtain ⟨skipped, after, rfl, none, _, _⟩ := List.filter_eq_cons_iff.mp rest
  refine ⟨l₁ ++ skipped, after, by simp, ?_⟩
  rw [List.filter_append, filtered, List.filter_eq_nil_iff.mpr none, List.append_nil]

/-- Where a queue that is not delayed returns nothing, all that was accepted is returned. -/
theorem accepted_of_null {before after : List (Action α)}
    (trace : Machine.Trace (Next capacity) [] (before ++ .pop none :: after) queue) :
    accepted before = returned before := by
  obtain ⟨middle, first, rest⟩ := trace.split
  cases rest with
  | cons stepped _ =>
    obtain rfl := stepped.null
    simpa using (accepted_eq first).1

/-- Where a bounded queue refuses an item it is full: the accepted items exceed the popped ones
by its capacity. -/
theorem accepted_of_refused {before after : List (Action α)}
    (trace : Machine.Trace (Next capacity) [] (before ++ .push item false :: after) queue) :
    (accepted before).length = (returned before).length + capacity := by
  obtain ⟨middle, first, rest⟩ := trace.split
  cases rest with
  | cons stepped _ =>
    have items := congrArg List.length (accepted_eq first).1
    rwa [List.nil_append, List.length_append, stepped.refused] at items

/-- A queue can be filled up to its capacity without a single pop. -/
theorem Delayed.fills (item : α) (fits : n ≤ capacity) :
    Machine.Trace (Delayed.Next capacity) ({} : Delayed α) (List.replicate n (.push item true))
      { items := List.replicate n item } := by
  induction n with
  | zero => exact .refl
  | succ n ih =>
    have push : Delayed.Next capacity { items := List.replicate n item } (.push item true)
        { items := List.replicate n item ++ [item] } :=
      .push (Nat.le_refl 0) (Nat.le_refl 0) (by simp; omega)
    rw [List.replicate_succ', List.replicate_succ']
    exact (ih (by omega)).append (.cons push .refl)

/-- With two slots or more, both threads can be late: the producer finds no room although
an item was popped, and the consumer finds nothing although more were pushed. -/
theorem not_sequential (many : 2 ≤ capacity) (item : α) :
    ∃ actions q, Machine.Trace (Delayed.Next capacity) ({} : Delayed α) actions q ∧
      ¬Sequential capacity actions := by
  have oldest : (List.replicate capacity item)[0]? = some item := by
    rw [List.getElem?_replicate, if_pos (by omega)]
  have fills := Delayed.fills item (Nat.le_refl capacity)
  refine ⟨List.replicate capacity (.push item true) ++ [.push item false, .pop (some item), .pop none], _,
    fills.append (.cons (.full (Nat.le_refl 0) (Nat.le_refl 0) (by simp))
      (.cons (.pop (c := 1) (Nat.zero_le 1) (by simp; omega) Nat.one_pos oldest)
        (.cons (.empty (Nat.le_refl 1)) .refl))), ?_⟩
  rintro ⟨actions, queue, trace, pushed, popped⟩
  have allPushes : pushes (List.replicate capacity (Action.push item true)) =
      List.replicate capacity (.push item true) := List.filter_replicate_of_pos rfl
  have noPops : pops (List.replicate capacity (Action.push item true)) = [] :=
    List.filter_replicate_of_neg Bool.false_ne_true
  rw [pushes_append, allPushes] at pushed
  rw [pops_append, noPops] at popped
  obtain ⟨first, later, there, filled⟩ := filter_split pushed
  have popped' : actions.filter (!·.isPush) = [.pop (some item)] ++ .pop none :: [] := popped
  obtain ⟨before, after, here, drained⟩ := filter_split popped'
  -- by the time of the refusal all pushes are done and no pop is
  have full : (accepted first).length = capacity := by
    rw [← accepted_pushes, pushes, filled, accepted]
    simp
  have none_returned : returned first = [] := by
    have := accepted_of_refused (there ▸ trace)
    exact List.length_eq_zero_iff.mp (by omega)
  -- by the time of the last pop one is, and so only one push
  have one : returned before = [item] := by
    rw [← returned_pops, pops, drained]
    rfl
  have alone := accepted_of_null (here ▸ trace)
  rw [here] at there
  rcases List.append_eq_append_iff.mp there with ⟨between, rfl, _⟩ | ⟨between, rfl, _⟩
  · simp [one] at none_returned
  · have lengths := congrArg List.length (alone.trans one)
    rw [accepted_append, List.length_append, List.length_singleton] at lengths
    omega

/-- In a queue of one slot that is now empty, the last item came out just before. -/
theorem last_pop {actions : List (Action α)} (trace : Machine.Trace (Next 1) [] actions [])
    (used : accepted actions ≠ []) :
    ∃ before item after, actions = before ++ .pop (some item) :: after ∧
      Machine.Trace (Next 1) [] before [item] ∧ Machine.Trace (Next 1) [] after [] ∧ pushes after = [] := by
  induction actions using List.reverseRecOn with
  | nil => exact absurd rfl used
  | append_singleton earlier action ih =>
    obtain ⟨queue, first, stepped⟩ := trace.last
    generalize now : ([] : List α) = queue' at stepped
    cases stepped with
    | push room => simp at now
    | full full => simp [← now] at full
    | pop =>
      subst now
      exact ⟨earlier, _, [], rfl, first, .refl, rfl⟩
    | empty =>
      obtain ⟨before, item, after, rfl, holding, rest, quiet⟩ := ih first (by simpa using used)
      refine ⟨before, item, after ++ [.pop none], by simp, holding, rest.append (.cons .empty .refl), ?_⟩
      simp [quiet]

/-- In a queue of one slot that is now full, its item went in just before. -/
theorem last_push {actions : List (Action α)} (trace : Machine.Trace (Next 1) [] actions [item]) :
    ∃ before after, actions = before ++ .push item true :: after ∧
      Machine.Trace (Next 1) [] before [] ∧ Machine.Trace (Next 1) [item] after [item] ∧
        pops after = [] := by
  induction actions using List.reverseRecOn with
  | nil => cases trace
  | append_singleton earlier action ih =>
    obtain ⟨queue, first, stepped⟩ := trace.last
    generalize now : [item] = queue' at stepped
    cases stepped with
    | push room =>
      obtain ⟨rfl, rfl⟩ : queue = [] ∧ item = _ := by
        cases queue with
        | nil => exact ⟨rfl, by simpa using now⟩
        | cons _ _ => simp at room
      exact ⟨earlier, [], rfl, first, .refl, rfl⟩
    | full full =>
      rename_i refused
      subst now
      obtain ⟨before, after, rfl, empty, rest, quiet⟩ := ih first
      refine ⟨before, after ++ [.push refused false], by simp, empty,
        rest.append (.cons (.full full) .refl), ?_⟩
      simp [quiet]
    | pop =>
      subst now
      have := (accepted_eq first).2 (Nat.zero_le _)
      simp at this
    | empty => simp at now

/-- With one slot, the items pass in turn, and a call that came late fits in before the
last of them. -/
theorem sequential_of_one {actions : List (Action α)}
    (trace : Machine.Trace (Delayed.Next 1) ({} : Delayed α) actions q) : Sequential 1 actions := by
  induction actions using List.reverseRecOn generalizing q with
  | nil => exact ⟨[], [], .refl, rfl, rfl⟩
  | append_singleton earlier action ih =>
    obtain ⟨q₁, first, stepped⟩ := trace.last
    obtain ⟨actions', queue, strict, pushed, popped⟩ := ih first
    have after := (Delayed.After.start 1).trace first
    rw [List.nil_append] at after
    have items : accepted actions' = accepted earlier := by rw [← accepted_pushes, pushed, accepted_pushes]
    have taken : returned actions' = returned earlier := by rw [← returned_pops, popped, returned_pops]
    have length := congrArg List.length (accepted_eq strict).1
    rw [List.nil_append, List.length_append, items, taken, ← after.items, ← after.taken] at length
    have heardTaken := after.heardTaken
    have ahead := after.ahead
    have heardItems := after.heardItems
    have bounded := after.bounded
    cases stepped with
    | push heard done room =>
      rename_i p item
      obtain rfl : queue = [] := List.length_eq_zero_iff.mp (by omega)
      exact ⟨actions' ++ [.push item true], _, strict.append (.cons (.push Nat.one_pos) .refl),
        by simp [pushed], by simp [popped]⟩
    | pop heard done unread oldest =>
      rename_i c item
      obtain ⟨last, rfl⟩ : ∃ last, queue = [last] := List.length_eq_one_iff.mp (by omega)
      obtain rfl : last = item := by
        have unread := (accepted_eq strict).1
        rw [List.nil_append, items, ← after.items] at unread
        rw [unread, taken, after.taken, List.getElem?_concat_length] at oldest
        exact Option.some.inj oldest
      exact ⟨actions' ++ [.pop (some last)], _, strict.append (.cons .pop .refl), by simp [pushed],
        by simp [popped]⟩
    | full heard done full =>
      rename_i p item
      by_cases late : q₁.taken = p
      · exact ⟨actions' ++ [.push item false], _, strict.append (.cons (.full (by omega)) .refl),
          by simp [pushed], by simp [popped]⟩
      · obtain rfl : queue = [] := List.length_eq_zero_iff.mp (by omega)
        have used : accepted actions' ≠ [] := by
          intro none
          rw [items, ← after.items] at none
          simp [none] at full
        obtain ⟨before, last, later, rfl, holding, rest, quiet⟩ := last_pop strict used
        refine ⟨before ++ .push item false :: .pop (some last) :: later, [],
          holding.append (.cons (.full rfl) (.cons .pop rest)), ?_, ?_⟩
        · simpa [quiet] using pushed
        · simpa using popped
    | empty heard =>
      by_cases late : q₁.items.length = q₁.taken
      · obtain rfl : queue = [] := List.length_eq_zero_iff.mp (by omega)
        exact ⟨actions' ++ [.pop none], _, strict.append (.cons .empty .refl), by simp [pushed],
          by simp [popped]⟩
      · obtain ⟨last, rfl⟩ : ∃ last, queue = [last] := List.length_eq_one_iff.mp (by omega)
        obtain ⟨before, later, rfl, empty, rest, quiet⟩ := last_push strict
        refine ⟨before ++ .pop none :: .push last true :: later, [last],
          empty.append (.cons .empty (.cons (.push Nat.one_pos) rest)), ?_, ?_⟩
        · simpa using pushed
        · simpa [quiet] using popped

end Fifo
end H2oTpcc

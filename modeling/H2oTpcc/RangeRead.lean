import Mathlib.Data.List.Nodup
import H2oTpcc.OptimisticStore

/-! Range reads of an ordered store. The ends of a read are key selectors: a
selector names the last key below a given one and a number of keys to go on
from there, and the read returns the rows from one resolved position to the
other. -/
namespace H2oTpcc

/-- The half-open interval of keys from `start` to before `stop`. -/
def Within [Ord K] (start stop key : K) : Prop :=
  compare start key ≠ .gt ∧ compare key stop = .lt

instance [Ord K] (start stop key : K) : Decidable (Within start stop key) :=
  inferInstanceAs (Decidable (_ ∧ _))

structure KeySelector (K : Type) where
  key : K
  orEqual : Bool
  offset : Int

namespace KeySelector
variable {K V : Type} [Ord K]

/-- The keys of which the selector takes the last. -/
def below (selector : KeySelector K) (key : K) : Bool :=
  if selector.orEqual then compare key selector.key != .gt else compare key selector.key == .lt

/-- The position among rows in key order: `offset` rows after the last key below,
clamped to the first row on one side and to behind the last on the other. -/
def resolve (selector : KeySelector K) (rows : List (K × V)) : Nat :=
  let last : Int := rows.countP (fun row => selector.below row.1) - 1
  min (last + selector.offset).toNat rows.length

end KeySelector

/-- The rows from the resolved `start` to before the resolved `stop`. -/
def rangeRead {K V : Type} [Ord K] [Std.TransOrd K] (store : Store K V) (start stop : KeySelector K) :
    List (K × V) :=
  (store.toList.take (stop.resolve store.toList)).drop (start.resolve store.toList)

/-! ## Intervals of a sorted list -/

section Initial
variable {α : Type} {p : α → Bool} {rows : List α}

/-- A property that holds of everything before whatever it holds of selects the
rows up to some position. -/
theorem initial_partition (initial : rows.Pairwise fun a b => p b = true → p a = true) :
    rows.filter p ++ rows.filter (fun row => !p row) = rows := by
  induction rows with
  | nil => rfl
  | cons row rest ih =>
    obtain ⟨before, tail⟩ := List.pairwise_cons.mp initial
    cases here : p row with
    | true => simpa [here] using ih tail
    | false =>
      have none : ∀ other ∈ rest, ¬ p other = true := by
        intro other member holds
        rw [before other member holds] at here
        cases here
      have kept : (rest.filter fun row => !p row) = rest :=
        List.filter_eq_self.mpr fun other member => by simpa using none other member
      simp [here, List.filter_eq_nil_iff.mpr none, kept]

private theorem filter_initial (initial : rows.Pairwise fun a b => p b = true → p a = true) :
    rows.filter p = rows.take (rows.countP p) := by
  calc rows.filter p = (rows.filter p ++ rows.filter fun row => !p row).take (rows.filter p).length :=
        List.take_left.symm
    _ = rows.take (rows.countP p) := by rw [initial_partition initial, List.countP_eq_length_filter]

private theorem filter_not_initial (initial : rows.Pairwise fun a b => p b = true → p a = true) :
    (rows.filter fun row => !p row) = rows.drop (rows.countP p) := by
  calc (rows.filter fun row => !p row) =
        (rows.filter p ++ rows.filter fun row => !p row).drop (rows.filter p).length :=
        List.drop_left.symm
    _ = rows.drop (rows.countP p) := by rw [initial_partition initial, List.countP_eq_length_filter]

/-- Two windows of one width, one row apart, show the same only if they are empty. -/
theorem shifted_window (distinct : rows.Nodup) {first last : Nat} (order : first ≤ last)
    (inside : last ≤ rows.length) :
    (rows.take (last - 1)).drop (first - 1) = (rows.take last).drop first ↔ first = last := by
  constructor
  · intro same
    by_contra different
    have lengths := congrArg List.length same
    simp only [List.length_drop, List.length_take] at lengths
    -- without a row before the window the widths differ already
    have pushed : 0 < first := by omega
    have heads := congrArg (fun window => window[0]?) same
    simp only [List.getElem?_drop, Nat.add_zero] at heads
    rw [List.getElem?_take_of_lt (by omega), List.getElem?_take_of_lt (by omega),
      List.getElem?_eq_getElem (by omega), List.getElem?_eq_getElem (by omega)] at heads
    have positions := (List.Nodup.getElem_inj_iff distinct).mp (Option.some_inj.mp heads)
    omega
  · rintro rfl
    rw [List.drop_of_length_le (by rw [List.length_take]; omega),
      List.drop_of_length_le (by rw [List.length_take]; omega)]

end Initial

section Interval
variable {K V : Type} [Ord K] [Std.TransOrd K] (store : Store K V)

private theorem initial_lt (key : K) : store.toList.Pairwise fun a b =>
    (compare b.1 key == .lt) = true → (compare a.1 key == .lt) = true := by
  apply Std.ExtTreeMap.ordered_keys_toList.imp
  intro a b ordered less
  rw [beq_iff_eq] at less ⊢
  exact Std.TransCmp.lt_trans ordered less

/-- The rows of an interval stand between the numbers of rows before its ends. -/
theorem interval_eq {first last : K} (order : compare first last ≠ .gt) :
    (store.toList.filter fun row => decide (Within first last row.1)) =
      (store.toList.take (store.toList.countP fun row => compare row.1 last == .lt)).drop
        (store.toList.countP fun row => compare row.1 first == .lt) := by
  have split : (store.toList.filter fun row => decide (Within first last row.1)) =
      (store.toList.filter fun row => compare row.1 last == .lt).filter
        fun row => !(compare row.1 first == .lt) := by
    rw [List.filter_filter]
    congr 1
    funext row
    have swapped : compare row.1 first = (compare first row.1).swap := Std.OrientedCmp.eq_swap
    rw [swapped, Bool.eq_iff_iff]
    cases low : compare first row.1 <;> simp [Within, low]
  have inner := (initial_lt store first).sublist
    (List.filter_sublist (l := store.toList) (p := fun row => compare row.1 last == .lt))
  have counted : ((store.toList.filter fun row => compare row.1 last == .lt).countP
      fun row => compare row.1 first == .lt) =
      store.toList.countP fun row => compare row.1 first == .lt := by
    rw [List.countP_filter]
    congr 1
    funext row
    cases below : compare row.1 first with
    | lt => simp [Std.TransCmp.lt_of_lt_of_isLE below (Ordering.isLE_iff_ne_gt.mpr order)]
    | eq => rfl
    | gt => rfl
  rw [split, filter_not_initial inner, counted, filter_initial (initial_lt store last)]

end Interval

end H2oTpcc

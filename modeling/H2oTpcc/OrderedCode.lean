import Std.Data.ExtTreeMap
import Mathlib.Data.List.Forall2
import H2oTpcc.PackedLayout
import H2oTpcc.SelfDelimiting

/-! Codes that keep the order. Strings compare letter by letter, a proper
prefix first. Where two codewords already settle the comparison, whatever is
written behind them does not matter, so concatenated codewords compare as the
tuples of their values do. -/
namespace H2oTpcc

/-- Behind fronts of one length, the rests are compared only if the fronts are equal. -/
theorem compare_append_of_length [Ord β] {front front' : List β}
    (lengths : front.length = front'.length) (rest rest' : List β) :
    compare (front ++ rest) (front' ++ rest') =
      (compare front front').then (compare rest rest') := by
  induction front generalizing front' with
  | nil =>
    cases front' with
    | nil => rfl
    | cons letter front' => simp at lengths
  | cons letter front ih =>
    cases front' with
    | nil => simp at lengths
    | cons letter' front' =>
      have tails := @ih front' (by simpa using lengths)
      simp only [List.cons_append, List.compare_cons_cons, tails, Ordering.then_assoc]

/-- Between two tuples that agree up to their last component stand the tuples
that agree with them and end between those two. -/
theorem last_between [Ord α] [Std.OrientedOrd α] [Std.LawfulEqOrd α] {front other : List α}
    (lengths : front.length = other.length) (low last high : α) :
    (compare (front ++ [low]) (other ++ [last]) ≠ .gt ∧
      compare (other ++ [last]) (front ++ [high]) = .lt) ↔
    front = other ∧ compare low last ≠ .gt ∧ compare last high = .lt := by
  rw [compare_append_of_length lengths, compare_append_of_length lengths.symm]
  by_cases same : front = other
  · simp [same, Std.ReflOrd.compare_self]
  · have swapped : compare other front = (compare front other).swap := Std.OrientedCmp.eq_swap
    cases fronts : compare front other with
    | lt => simp [swapped, fronts, same]
    | gt => simp [same]
    | eq => exact absurd (Std.LawfulEqOrd.eq_of_compare fronts) same

/-- Strings of which neither begins the other compare alike whatever follows. -/
theorem compare_append_of_no_prefix [Ord β] [Std.LawfulEqOrd β] (front front' : List β)
    (left : ¬ front <+: front') (right : ¬ front' <+: front) (rest rest' : List β) :
    compare (front ++ rest) (front' ++ rest') = compare front front' := by
  induction front generalizing front' with
  | nil => exact absurd List.nil_prefix left
  | cons letter front ih =>
    cases front' with
    | nil => exact absurd List.nil_prefix right
    | cons letter' front' =>
      simp only [List.cons_append, List.compare_cons_cons]
      cases first : compare letter letter' with
      | lt => rfl
      | gt => rfl
      | eq =>
        obtain rfl := Std.LawfulEqOrd.eq_of_compare first
        simp only [List.cons_prefix_cons, true_and] at left right
        simpa using ih front' left right

/-- What follows the encodings of different values does not matter for their order. -/
theorem SelfDelimiting.compare_append [Ord β] [Std.LawfulEqOrd β] {encode : α → List β}
    (code : SelfDelimiting encode) (different : a ≠ b) (rest rest' : List β) :
    compare (encode a ++ rest) (encode b ++ rest') = compare (encode a) (encode b) :=
  compare_append_of_no_prefix _ _ (fun inside => different (code.eq_of_isPrefix inside))
    (fun inside => different (code.eq_of_isPrefix inside).symm) _ _

/-- The codewords of the two values compare as the values do, and what stands
behind them is compared only when they are equal. -/
def KeepsOrder [Ord α] [Ord β] (encode : α → List β) (a b : α) : Prop :=
  ∀ rest rest', compare (encode a ++ rest) (encode b ++ rest') =
    (compare a b).then (compare rest rest')

/-- Encodings of one length keep the order, whatever follows them, if they do so alone. -/
theorem KeepsOrder.of_length [Ord α] [Ord β] {encode : α → List β}
    (lengths : (encode a).length = (encode b).length)
    (codes : compare (encode a) (encode b) = compare a b) : KeepsOrder encode a b := by
  intro rest rest'
  rw [compare_append_of_length lengths, codes]

/-- Concatenated codewords compare as the tuples of their values, component by component from
the left. -/
theorem KeepsOrder.flatMap [Ord α] [Ord β] {encode : α → List β} {values values' : List α}
    (each : List.Forall₂ (KeepsOrder encode) values values') :
    compare (values.flatMap encode) (values'.flatMap encode) = compare values values' := by
  induction each with
  | nil => rfl
  | cons first _ ih =>
    simp only [List.flatMap_cons, List.compare_cons_cons]
    rw [first, ih]

/-! ## Terminated strings -/

instance [Ord β] (stop : β) : Ord (Unstopped stop) := ⟨fun a b => compare a.1 b.1⟩

private theorem terminated_compare [Ord β] [Std.OrientedOrd β] {stop : β}
    (least : ∀ letter, letter ≠ stop → compare stop letter = .lt) (front back : List β)
    (frontFree : stop ∉ front) (backFree : stop ∉ back) (rest rest' : List β) :
    compare (front ++ stop :: rest) (back ++ stop :: rest') =
      (compare front back).then (compare rest rest') := by
  induction front generalizing back with
  | nil =>
    cases back with
    | nil => simp [Std.ReflOrd.compare_self]
    | cons letter back =>
      have smaller := least letter (fun same => backFree (same ▸ List.mem_cons_self))
      simp [smaller]
  | cons letter front ih =>
    cases back with
    | nil =>
      have smaller := least letter (fun same => frontFree (same ▸ List.mem_cons_self))
      have greater : compare letter stop = .gt := Std.OrientedCmp.gt_of_lt smaller
      simp [greater]
    | cons letter' back =>
      have tails := ih back (fun member => frontFree (List.mem_cons_of_mem _ member))
        (fun member => backFree (List.mem_cons_of_mem _ member))
      simp only [List.cons_append, List.compare_cons_cons, tails, Ordering.then_assoc]

/-- A terminator below every other letter puts a string before its
continuations, so terminated strings keep the order of the strings. -/
theorem terminated_keepsOrder [Ord β] [Std.OrientedOrd β] {stop : β}
    (least : ∀ letter, letter ≠ stop → compare stop letter = .lt) (a b : Unstopped stop) :
    KeepsOrder (terminated stop) a b := by
  intro rest rest'
  simp only [terminated, List.append_assoc, List.singleton_append]
  exact terminated_compare least a.1 b.1 a.2 b.2 rest rest'

/-! ## Big-endian numbers -/

private theorem compare_digits (a b : Nat) :
    (compare (a / 256) (b / 256)).then (compare (a % 256) (b % 256)) = compare a b := by
  rcases Nat.lt_trichotomy (a / 256) (b / 256) with less | same | more
  · have whole : a < b := by omega
    rw [Nat.compare_eq_lt.mpr less, Nat.compare_eq_lt.mpr whole, Ordering.lt_then]
  · rw [Nat.compare_eq_eq.mpr same, Ordering.eq_then]
    rcases Nat.lt_trichotomy (a % 256) (b % 256) with low | low | low
    · rw [Nat.compare_eq_lt.mpr low, Nat.compare_eq_lt.mpr (by omega)]
    · rw [Nat.compare_eq_eq.mpr low, Nat.compare_eq_eq.mpr (by omega)]
    · rw [Nat.compare_eq_gt.mpr low, Nat.compare_eq_gt.mpr (by omega)]
  · have whole : b < a := by omega
    rw [Nat.compare_eq_gt.mpr more, Nat.compare_eq_gt.mpr whole, Ordering.gt_then]

theorem compare_uint8 (a b : UInt8) : compare a b = compare a.toNat b.toNat := by
  change compareOfLessAndEq a b = compareOfLessAndEq a.toNat b.toNat
  simp only [compareOfLessAndEq, UInt8.lt_iff_toNat_lt, ← UInt8.toNat_inj]

theorem compare_uint32 (a b : UInt32) : compare a b = compare a.toNat b.toNat := by
  change compareOfLessAndEq a b = compareOfLessAndEq a.toNat b.toNat
  simp only [compareOfLessAndEq, UInt32.lt_iff_toNat_lt, ← UInt32.toNat_inj]

/-- Numbers that fit the width compare as their bytes do, most significant first. -/
theorem compare_bigEndian {a b : Nat} (fitsA : a < 256 ^ width) (fitsB : b < 256 ^ width) :
    compare (Endian.big.bytes width a) (Endian.big.bytes width b) = compare a b := by
  induction width generalizing a b with
  | zero =>
    have zeroA : a = 0 := by simpa using fitsA
    have zeroB : b = 0 := by simpa using fitsB
    subst zeroA zeroB
    rfl
  | succ width ih =>
    -- the last byte decides only between numbers that agree above it
    have highA : a / 256 < 256 ^ width := by rw [Nat.pow_succ] at fitsA; omega
    have highB : b / 256 < 256 ^ width := by rw [Nat.pow_succ] at fitsB; omega
    have digits := ih highA highB
    simp only [Endian.bytes] at digits
    simp only [Endian.bytes, leBytes, List.reverse_cons]
    rw [compare_append_of_length (by simp), digits, List.compare_cons_cons, compare_uint8]
    simp only [UInt8.toNat_ofNat', List.compare_nil_nil, Ordering.then_eq]
    exact compare_digits a b

end H2oTpcc

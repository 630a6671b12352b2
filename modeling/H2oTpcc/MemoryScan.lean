import Mathlib.Data.List.Basic

/-! Computations that look at the cells of a memory, together with the addresses they look
at, and the searches of `string.h` over them. -/
namespace H2oTpcc

/-- A computation on a memory: its result, and the addresses it has read. -/
def Scan (cell α : Type) := (Nat → cell) → α × List Nat

namespace Scan

instance : Monad (Scan cell) where
  pure a := fun _ => (a, [])
  bind scan next := fun memory =>
    let first := scan memory
    let second := next first.1 memory
    (second.1, first.2 ++ second.2)

/-- The cell at an address. -/
def load (p : Nat) : Scan cell cell := fun memory => (memory p, [p])

theorem pure_apply (a : α) (memory : Nat → cell) : (pure a : Scan cell α) memory = (a, []) := rfl

theorem bind_apply (scan : Scan cell α) (next : α → Scan cell β) (memory : Nat → cell) :
    (scan >>= next) memory =
      ((next (scan memory).1 memory).1, (scan memory).2 ++ (next (scan memory).1 memory).2) := rfl

/-- The result on this memory is as required, and the addresses read are from `first` up
to but not including `past`. -/
structure StaysIn (memory : Nat → cell) (first past : Nat) (scan : Scan cell α) (required : α → Prop) :
    Prop where
  result : required (scan memory).1
  reads : ∀ q ∈ (scan memory).2, first ≤ q ∧ q < past

section Rules
variable {memory : Nat → cell} {first past : Nat} {required : α → Prop} {scan : Scan cell α}

theorem StaysIn.pure {a : α} (holds : required a) : StaysIn memory first past (pure a) required :=
  ⟨holds, fun _ none => absurd none List.not_mem_nil⟩

/-- Two scans in a row stay inside if both do, the second for every result of the first that
meets its condition. -/
theorem StaysIn.bind {next : α → Scan cell β} {after : β → Prop}
    (here : StaysIn memory first past scan required)
    (there : ∀ a, required a → StaysIn memory first past (next a) after) :
    StaysIn memory first past (scan >>= next) after := by
  obtain ⟨result, reads⟩ := there _ here.result
  refine ⟨result, fun q read => ?_⟩
  rcases List.mem_append.mp read with earlier | later
  · exact here.reads q earlier
  · exact reads q later

theorem StaysIn.mono {first' past' : Nat} {weaker : α → Prop}
    (here : StaysIn memory first past scan required)
    (lower : first' ≤ first) (upper : past ≤ past') (weaken : ∀ a, required a → weaker a) :
    StaysIn memory first' past' scan weaker := by
  refine ⟨weaken _ here.result, fun q read => ?_⟩
  obtain ⟨from_first, to_past⟩ := here.reads q read
  exact ⟨Nat.le_trans lower from_first, Nat.lt_of_lt_of_le to_past upper⟩

theorem load_staysIn {p : Nat} (lower : first ≤ p) (upper : p < past) :
    StaysIn memory first past (load p) fun c => c = memory p := by
  refine ⟨rfl, fun q read => ?_⟩
  rw [List.mem_singleton.mp read]
  exact ⟨lower, upper⟩

end Rules

/-! ## The bytes of a range -/

/-- The `n` cells from `p` on. -/
def slice (memory : Nat → cell) (p n : Nat) : List cell := (List.range' p n).map memory

section Slices
variable (memory : Nat → cell) (p n : Nat)

@[simp] theorem slice_length : (slice memory p n).length = n := by
  rw [slice, List.length_map, List.length_range']

theorem slice_succ : slice memory p (n + 1) = memory p :: slice memory (p + 1) n := by
  rw [slice, List.range'_succ, List.map_cons]
  rfl

theorem slice_add (m : Nat) : slice memory p (n + m) = slice memory p n ++ slice memory (p + n) m := by
  rw [slice, ← List.range'_append_1, List.map_append]
  rfl

end Slices

/-! ## `memcmp` and `memchr` -/

section Search
variable [DecidableEq cell]

/-- `memcmp` of the cells from `p` on with those of a constant, told apart only by its
being zero. All the cells may be read. -/
def memcmp (p : Nat) : List cell → Scan cell Bool
  | [] => return true
  | c :: rest => do
    let here ← load p
    let same ← memcmp (p + 1) rest
    return here = c && same

/-- `memchr`: the first of the `n` cells from `p` on that is `c`. -/
def memchr (p : Nat) (c : cell) : Nat → Scan cell (Option { next // p ≤ next })
  | 0 => return none
  | n + 1 => do
    if (← load p) = c then return some ⟨p, Nat.le_refl p⟩
    let found ← memchr (p + 1) c n
    return found.map fun next => ⟨next.val, Nat.le_of_succ_le next.property⟩

variable (memory : Nat → cell)

/-- `memcmp` with a constant compares the slice of that length, and reads nothing after it. -/
theorem memcmp_staysIn (p : Nat) (name : List cell) :
    StaysIn memory p (p + name.length) (memcmp p name) fun same =>
      same = decide (slice memory p name.length = name) := by
  induction name generalizing p with
  | nil => exact .pure rfl
  | cons c rest ih =>
    refine (load_staysIn (Nat.le_refl p) (Nat.lt_add_of_pos_right (Nat.succ_pos _))).bind ?_
    rintro _ rfl
    refine ((ih (p + 1)).mono (Nat.le_succ p) (by omega) fun _ same => same).bind ?_
    rintro _ rfl
    refine .pure ?_
    rw [List.length_cons, slice_succ]
    simp only [List.cons.injEq, Bool.decide_and]

/-- A cell that is found ends the part of the range in which it does not occur. -/
theorem memchr_staysIn (p : Nat) (c : cell) (n : Nat) :
    StaysIn memory p (p + n) (memchr p c n) fun found =>
      match found with
      | none => c ∉ slice memory p n
      | some next => ∃ k, next.val = p + k ∧ k < n ∧ memory (p + k) = c ∧ c ∉ slice memory p k := by
  induction n generalizing p with
  | zero => exact .pure List.not_mem_nil
  | succ n ih =>
    refine (load_staysIn (Nat.le_refl p) (Nat.lt_add_of_pos_right (Nat.succ_pos _))).bind ?_
    rintro _ rfl
    split
    · rename_i here
      exact .pure ⟨0, rfl, Nat.succ_pos n, here, List.not_mem_nil⟩
    · rename_i other
      have skip {k : Nat} (absent : c ∉ slice memory (p + 1) k) : c ∉ slice memory p (k + 1) := by
        rw [slice_succ, List.mem_cons, not_or]
        exact ⟨fun same => other same.symm, absent⟩
      refine ((ih (p + 1)).mono (Nat.le_succ p) (by omega) fun _ found => found).bind fun found => ?_
      cases found with
      | none => exact fun absent => .pure (skip absent)
      | some next =>
        rintro ⟨k, place, inside, here, absent⟩
        refine .pure ⟨k + 1, ?_, Nat.succ_lt_succ inside, ?_, skip absent⟩
        · change next.val = _
          omega
        · rwa [Nat.add_right_comm] at here

end Search
end Scan
end H2oTpcc

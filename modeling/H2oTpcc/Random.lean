import H2oTpcc.PackedLayout

/-! The machine the server runs on and the numbers it draws: `rand_r`,
`get_random_number` of `utility.c` and `nurand` of `tpcc_procedures.c`. -/
namespace H2oTpcc

/-- What the C program leaves to its machine and library. -/
structure Platform where
  host : Endian
  /-- `rand_r`: the number drawn and the next seed. -/
  randR : UInt32 → UInt32 × UInt32
  /-- `RAND_MAX` is `2^31 - 1`. -/
  randR_lt : ∀ seed, (randR seed).1 < 2147483648
  /-- What `r % 0` leaves, which C does not define. -/
  remByZero : UInt32 → UInt32

/-- The seed of a sequence of draws. -/
structure Generator where
  seed : UInt32
  /-- An operation without a defined result was performed. -/
  undefined : Bool := false
  deriving DecidableEq

abbrev Draw := StateM Generator

section Draws
variable (P : Platform)

def randR : Draw UInt32 := fun generator =>
  ((P.randR generator.seed).1, { generator with seed := (P.randR generator.seed).2 })

/-- The number of the `k`-th call of `rand_r` on a seed, the first one being call 0. -/
def rawDraw (seed : UInt32) : Nat → UInt32
  | 0 => (P.randR seed).1
  | k + 1 => rawDraw (P.randR seed).2 k

/-- `r % m` in `uint32_t`. -/
def rem (r m : UInt32) : Draw UInt32 := fun generator =>
  if m = 0 then (P.remByZero r, { generator with undefined := true }) else (r % m, generator)

/-- `get_random_number`. -/
def getRandomNumber (max : UInt32) : Draw UInt32 := do
  let r ← rem P (← randR P) max
  return r + 1

/-- `nurand`. -/
def nurand (A x y C : UInt32) : Draw UInt32 := do
  let r1 ← rem P (← randR P) (A + 1)
  let r2 ← rem P (← randR P) (y - x + 1)
  let r ← rem P ((r1 ||| (x + r2)) + C) (y - x + 1)
  return r + x

/-- The number drawn from a generator. -/
def Draw.value (draw : Draw α) (generator : Generator) : α := (draw generator).1

@[simp] theorem Draw.value_pure (a : α) (generator : Generator) :
    Draw.value (pure a : Draw α) generator = a := rfl

@[simp] theorem Draw.value_bind (draw : Draw α) (next : α → Draw β) (generator : Generator) :
    Draw.value (draw >>= next) generator = Draw.value (next (draw.value generator)) (draw generator).2 :=
  rfl

@[simp] theorem value_randR (generator : Generator) :
    (randR P).value generator = (P.randR generator.seed).1 := rfl

theorem value_rem (r : UInt32) (nonzero : m ≠ 0) (generator : Generator) :
    (rem P r m).value generator = r % m := by
  simp [Draw.value, rem, nonzero]

end Draws

/-! ## Rules for draws -/

/-- Every number drawn is as required, and no operation without a result is performed. -/
def Draw.Meets (draw : Draw α) (required : α → Prop) : Prop :=
  ∀ generator, required (draw.value generator) ∧ (draw generator).2.undefined = generator.undefined

namespace Draw
variable {draw : Draw α} {required : α → Prop}

theorem Meets.pure {a : α} (holds : required a) : Meets (pure a : Draw α) required :=
  fun _ => ⟨holds, rfl⟩

/-- Two draws in a row meet a condition if the second does for every result that the first may
have. -/
theorem Meets.bind {next : α → Draw β} {after : β → Prop} (first : draw.Meets required)
    (rest : ∀ a, required a → (next a).Meets after) : (draw >>= next).Meets after := by
  intro generator
  obtain ⟨here, kept⟩ := first generator
  obtain ⟨there, kept'⟩ := rest _ here (draw generator).2
  exact ⟨there, kept'.trans kept⟩

theorem Meets.map {f : α → β} {after : β → Prop} (meets : draw.Meets required)
    (maps : ∀ a, required a → after (f a)) : (f <$> draw).Meets after :=
  fun generator => ⟨maps _ (meets generator).1, (meets generator).2⟩

end Draw

section Helpers
variable (P : Platform)

/-- `rand_r` gives numbers below 2^31. -/
theorem randR_meets : (randR P).Meets fun r => r.toNat < 2 ^ 31 :=
  fun generator => ⟨UInt32.lt_iff_toNat_lt.mp (P.randR_lt generator.seed), rfl⟩

theorem rem_meets (r : UInt32) {m : UInt32} (nonzero : m ≠ 0) :
    (rem P r m).Meets fun n => n = r % m := by
  intro generator
  simp [Draw.value, rem, nonzero]

/-- What is drawn from a positive maximum: one more than a remainder, so that 0 is never among
it. -/
theorem getRandomNumber_meets {max : UInt32} (nonzero : max ≠ 0) :
    (getRandomNumber P max).Meets fun r => 1 ≤ r.toNat ∧ r.toNat ≤ max.toNat := by
  refine (randR_meets P).bind fun r _ => (rem_meets P r nonzero).bind ?_
  rintro _ rfl
  apply Draw.Meets.pure
  have small : (r % max).toNat < max.toNat :=
    UInt32.lt_iff_toNat_lt.mp (UInt32.mod_lt _ (UInt32.pos_iff_ne_zero.mpr nonzero))
  have fits := max.toNat_lt
  have one : (1 : UInt32).toNat = 1 := rfl
  rw [UInt32.toNat_add]
  omega

/-- `get_random_number` does not exceed its bound, unless that is zero. -/
theorem getRandomNumber_le {max : UInt32} (nonzero : max ≠ 0) (generator : Generator) :
    ((getRandomNumber P max).value generator).toNat ≤ max.toNat :=
  (getRandomNumber_meets P nonzero generator).1.2

end Helpers

/-! ## The constants of `tpcc_procedures.h` -/

def nurandCLastA : UInt32 := 255
def nurandCIdA : UInt32 := 1023
def nurandOlIIdA : UInt32 := 8191
def districtsPerWarehouse : UInt32 := 10
def customersPerDistrict : UInt32 := 3000
def itemCount : UInt32 := 100000

end H2oTpcc

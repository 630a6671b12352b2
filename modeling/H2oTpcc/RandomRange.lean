import H2oTpcc.Random

/-! What the random helpers can draw: `get_random_number` of `utility.c` from 1 to its
argument, `nurand` of `tpcc_procedures.c` from `x` to `y`. A draw is described by what
holds of every number it can give, from every state of the generator, and by its not
dividing by zero. -/
namespace H2oTpcc

/-- One more than a number that is far from the largest does not wrap. -/
theorem toNat_one_add {n : UInt32} {most : Nat} (small : n.toNat ≤ most) (room : most < 2 ^ 32 - 1) :
    (1 + n).toNat = 1 + n.toNat := by
  have one : (1 : UInt32).toNat = 1 := rfl
  rw [UInt32.toNat_add, one]
  omega

section Helpers
variable (P : Platform)

/-- With the bound 0 the source divides by zero. -/
theorem getRandomNumber_zero (generator : Generator) :
    (getRandomNumber P 0 generator).2.undefined = true := rfl

/-- The sum of the draw and the constant may wrap; the last remainder is below the
width, and adding `x` to it stays below `y`. -/
theorem nurand_meets {A x y : UInt32} (C : UInt32) (room : A.toNat < 2 ^ 32 - 1) (ordered : x ≤ y)
    (width : y.toNat - x.toNat < 2 ^ 32 - 1) :
    (nurand P A x y C).Meets fun r => x.toNat ≤ r.toNat ∧ r.toNat ≤ y.toNat := by
  have one : (1 : UInt32).toNat = 1 := rfl
  have below : x.toNat ≤ y.toNat := UInt32.le_iff_toNat_le.mp ordered
  have span : (y - x + 1).toNat = y.toNat - x.toNat + 1 := by
    rw [UInt32.toNat_add, UInt32.toNat_sub_of_le _ _ ordered, one]
    omega
  have first : A + 1 ≠ 0 := by
    intro zero
    have wrapped := congrArg UInt32.toNat zero
    rw [UInt32.toNat_add, one] at wrapped
    change _ = 0 at wrapped
    omega
  have second : y - x + 1 ≠ 0 := by
    intro zero
    rw [zero] at span
    change 0 = _ at span
    omega
  refine (randR_meets P).bind fun _ _ => (rem_meets P _ first).bind fun r1 _ =>
    (randR_meets P).bind fun _ _ => (rem_meets P _ second).bind fun r2 _ =>
    (rem_meets P ((r1 ||| (x + r2)) + C) second).bind ?_
  rintro _ rfl
  apply Draw.Meets.pure
  have small := UInt32.lt_iff_toNat_lt.mp
    (UInt32.mod_lt ((r1 ||| (x + r2)) + C) (UInt32.pos_iff_ne_zero.mpr second))
  rw [span] at small
  have fits := y.toNat_lt
  rw [UInt32.toNat_add]
  omega

end Helpers

/-! ## `nurand` -/

/-- **NURand stays in range.** For every constant, every `A` but the largest `uint32_t` and
every interval narrower than all of `uint32_t`, `nurand` gives a number of the interval and
never divides by zero, also where its sum wraps. -/
theorem nurand_in_range (P : Platform) (A x y C : UInt32) (room : A.toNat < 2 ^ 32 - 1) (ordered : x ≤ y)
    (width : y.toNat - x.toNat < 2 ^ 32 - 1) (generator : Generator) :
    x ≤ (nurand P A x y C).value generator ∧ (nurand P A x y C).value generator ≤ y ∧
      (nurand P A x y C generator).2.undefined = generator.undefined := by
  obtain ⟨⟨least, most⟩, kept⟩ := nurand_meets P C room ordered width generator
  exact ⟨UInt32.le_iff_toNat_le.mpr least, UInt32.le_iff_toNat_le.mpr most, kept⟩

/-- A generator whose `rand_r` gives one number. -/
def steadyPlatform (output : UInt32) (below : output < 2147483648) : Platform where
  host := .little
  randR seed := (output, seed)
  randR_lt _ := below
  remByZero _ := 0

/-- The widest range, with the largest outputs and a constant that makes the sum wrap. -/
theorem nurand_in_range_widest :
    let draw := nurand (steadyPlatform 2147483647 (by decide)) 8191 0 4294967294 4294967295
    (0 : UInt32) ≤ draw.value { seed := 0 } ∧ draw.value { seed := 0 } ≤ 4294967294 ∧
      (draw { seed := 0 }).2.undefined = false :=
  nurand_in_range _ 8191 0 4294967294 4294967295 (by decide) (by decide) (by decide) _

/-! ## `get_random_number` -/

/-- `r` is what `get_random_number(max)` gives for some output of `rand_r`, without a
division by zero. -/
def Draws (max r : UInt32) : Prop :=
  ∃ P generator, (getRandomNumber P max).value generator = r ∧
    (getRandomNumber P max generator).2.undefined = generator.undefined ∧ generator.undefined = false

private theorem draws_iff {max : UInt32} (small : max.toNat < 2 ^ 31) (r : UInt32) :
    Draws max r ↔ r ≤ max ∧ r ≠ 0 := by
  constructor
  · rintro ⟨P, generator, rfl, kept, defined⟩
    have nonzero : max ≠ 0 := by
      rintro rfl
      rw [getRandomNumber_zero, defined] at kept
      cases kept
    obtain ⟨⟨least, most⟩, _⟩ := getRandomNumber_meets P nonzero generator
    refine ⟨UInt32.le_iff_toNat_le.mpr most, fun zero => ?_⟩
    rw [zero] at least
    exact absurd least (by decide)
  · rintro ⟨most, positive⟩
    -- `rand_r` gives `r - 1`, which is its own remainder.
    have one : (1 : UInt32).toNat = 1 := rfl
    have most' : r.toNat ≤ max.toNat := UInt32.le_iff_toNat_le.mp most
    have least : (1 : UInt32) ≤ r := by
      rw [UInt32.le_iff_toNat_le, one]
      exact UInt32.lt_iff_toNat_lt.mp (UInt32.pos_iff_ne_zero.mpr positive)
    have before : (r - 1).toNat = r.toNat - 1 := UInt32.toNat_sub_of_le _ _ least
    have least' : 1 ≤ r.toNat := UInt32.le_iff_toNat_le.mp least
    have below : r - 1 < 2147483648 := by
      rw [UInt32.lt_iff_toNat_lt, before]
      change _ < 2 ^ 31
      omega
    have nonzero : max ≠ 0 := by
      rintro rfl
      change r.toNat ≤ 0 at most'
      omega
    refine ⟨steadyPlatform (r - 1) below, { seed := 0 }, ?_, (getRandomNumber_meets _ nonzero _).2, rfl⟩
    have own : (r - 1) % max = r - 1 := by
      apply UInt32.toNat_inj.mp
      rw [UInt32.toNat_mod, before, Nat.mod_eq_of_lt (by omega)]
    simp only [getRandomNumber, Draw.value_bind, Draw.value_pure, value_randR, value_rem _ _ nonzero]
    change (r - 1) % max + 1 = r
    rw [own, UInt32.sub_add_cancel]

/-- **The random helper draws from the whole range its callers assume** but for the
least number: 0 is never drawn, and from the maximum 0 nothing is. -/
theorem random_number_covers_iff (max : UInt32) (small : max.toNat < 2 ^ 31) :
    ((∀ P generator, (getRandomNumber P max generator).2.undefined = generator.undefined) ↔ max ≠ 0) ∧
    (∀ r, Draws max r ↔ r ≤ max ∧ r ≠ 0) ∧
    (∀ n, (∃ r, Draws max r ∧ 1 + r = n) ↔ (1 ≤ n ∧ n ≤ 1 + max) ∧ n ≠ 1) := by
  refine ⟨⟨?_, fun nonzero P generator => (getRandomNumber_meets P nonzero generator).2⟩,
    draws_iff small, fun n => ?_⟩
  · rintro defined rfl
    have kept := defined (steadyPlatform 0 (by decide)) { seed := 0 }
    rw [getRandomNumber_zero] at kept
    cases kept
  · simp only [draws_iff small]
    have one : (1 : UInt32).toNat = 1 := rfl
    have next := toNat_one_add (Nat.le_of_lt small) (by decide)
    constructor
    · rintro ⟨r, ⟨most, positive⟩, rfl⟩
      have most' : r.toNat ≤ max.toNat := UInt32.le_iff_toNat_le.mp most
      have sum := toNat_one_add most' (Nat.lt_trans small (by decide))
      refine ⟨⟨?_, ?_⟩, fun same => ?_⟩
      · rw [UInt32.le_iff_toNat_le, sum, one]
        omega
      · rw [UInt32.le_iff_toNat_le, sum, next]
        omega
      · have alone := congrArg UInt32.toNat same
        rw [sum, one] at alone
        exact positive (UInt32.toNat_inj.mp (by change r.toNat = 0; omega))
    · rintro ⟨⟨least, most⟩, other⟩
      have sub : (n - 1).toNat = n.toNat - 1 := UInt32.toNat_sub_of_le _ _ least
      refine ⟨n - 1, ⟨?_, fun zero => ?_⟩, ?_⟩
      · rw [UInt32.le_iff_toNat_le, sub]
        rw [UInt32.le_iff_toNat_le, next] at most
        omega
      · exact other (by rw [← UInt32.sub_add_cancel n 1, zero]; rfl)
      · rw [UInt32.add_comm, UInt32.sub_add_cancel]

/-- A percentage is drawn from 1 to 99, and never 0. -/
theorem random_number_covers_iff_percent :
    (∃ r, Draws 99 r ∧ 1 + r = 100) ∧ Draws 99 99 ∧ Draws 99 1 := by
  obtain ⟨_, drawn, shifted⟩ := random_number_covers_iff 99 (by decide)
  exact ⟨(shifted 100).mpr (by decide), (drawn 99).mpr (by decide), (drawn 1).mpr (by decide)⟩

/-- With the maximum 0 the source divides by zero, and for a percentage 0 is never drawn. -/
theorem random_number_misses_zero :
    (∀ P generator, (getRandomNumber P 0 generator).2.undefined = true) ∧
      ∀ P generator, (getRandomNumber P 99).value generator ≠ 0 := by
  refine ⟨getRandomNumber_zero, fun P generator zero => ?_⟩
  have least := (getRandomNumber_meets P (show (99 : UInt32) ≠ 0 by decide) generator).1.1
  rw [zero] at least
  exact absurd least (by decide)

end H2oTpcc

import Mathlib.Data.Int.Log
import Mathlib.Data.Rat.Floor

/-!
# Floats

A float of double precision, here by its value: a rational number with at most 53 significant bits.
Sums are rounded to the nearest float, and an integer that is added to a float is converted first, which
fails where the nearest float would be infinite.
-/

namespace AgoraEtl.Double

/-- The nearest integer, of two that are equally near the even one. -/
def roundEven (q : ℚ) : ℤ :=
  if q - ⌊q⌋ < 1 / 2 then ⌊q⌋
  else if 1 / 2 < q - ⌊q⌋ then ⌊q⌋ + 1
  else if ⌊q⌋ % 2 = 0 then ⌊q⌋
  else ⌊q⌋ + 1

/-- The distance of two neighbouring floats around a number. -/
def spacing (q : ℚ) : ℚ := 2 ^ max (Int.log 2 |q| - 52) (-1074)

/-- The nearest float to a number. -/
def round (q : ℚ) : ℚ := roundEven (q / spacing q) * spacing q

/-- The first integer that is not converted to a float: half-way from the largest float, which is
`2 ^ 1024 - 2 ^ 971`, to the next number of its spacing. -/
def intLimit : ℤ := 2 ^ 1024 - 2 ^ 970

/-- A power of two is converted if it is less than `2 ^ 1024`. -/
theorem two_pow_lt_intLimit {k : ℕ} : (2 : ℤ) ^ k < intLimit ↔ k < 1024 := by
  constructor
  · intro h
    have hlimit : intLimit < 2 ^ 1024 := sub_lt_self _ (pow_pos (by decide) 970)
    exact (pow_lt_pow_iff_right₀ (by decide)).mp (h.trans hlimit)
  · intro h
    have hsmall : (2 : ℤ) ^ 970 < 2 ^ 1023 := pow_lt_pow_right₀ (by decide) (by decide)
    calc (2 : ℤ) ^ k ≤ 2 ^ 1023 := pow_le_pow_right₀ (by decide) (by omega)
      _ < 2 ^ 1023 + (2 ^ 1023 - 2 ^ 970) := lt_add_of_pos_right _ (sub_pos.mpr hsmall)
      _ = intLimit := by rw [intLimit, ← add_sub_assoc, ← mul_two, ← pow_succ]

/-- The conversion of an integer to a float; `none` is an `OverflowError`. -/
def ofInt (n : ℤ) : Option ℚ := if |n| < intLimit then some (round n) else none

/-- `q + n` for a float and an integer. -/
def addInt (q : ℚ) (n : ℤ) : Option ℚ := (ofInt n).map fun r => round (q + r)

theorem ofInt_isSome {n : ℤ} : (ofInt n).isSome ↔ |n| < intLimit := by
  unfold ofInt
  by_cases h : |n| < intLimit
  · rw [if_pos h]
    exact iff_of_true rfl h
  · rw [if_neg h]
    exact iff_of_false nofun h

/-- The sum with an integer fails exactly where the integer is too large for a float. -/
theorem addInt_isSome {q : ℚ} {n : ℤ} : (addInt q n).isSome ↔ |n| < intLimit := by
  rw [addInt, Option.isSome_map, ofInt_isSome]

example : addInt (1 / 2) (2 ^ 53 + 1) = some (2 ^ 53) := by decide +kernel

end AgoraEtl.Double

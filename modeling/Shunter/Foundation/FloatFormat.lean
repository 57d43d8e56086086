import Mathlib

/-!
# Binary floating-point formats

Without its sign, a number of a binary format is a bit pattern: the exponent
above `f` fraction bits.  Its magnitude is counted in units of the smallest
positive number.  A magnitude in units that are `2 ^ s` times smaller is rounded
to the nearest pattern, ties to even.
-/

namespace Foundation

/-- The magnitude of a finite pattern with `f` fraction bits. -/
def magnitude (f pattern : Nat) : Nat :=
  if pattern < 2 ^ f then pattern
  else (2 ^ f + pattern % 2 ^ f) * 2 ^ (pattern / 2 ^ f - 1)

/-- Division by a power of two, rounded to the nearest number, ties to even. -/
def roundShift (m s : Nat) : Nat :=
  let q := m / 2 ^ s
  let r := m % 2 ^ s
  if 2 ^ s < 2 * r ∨ (2 * r = 2 ^ s ∧ q % 2 = 1) then q + 1 else q

/-- The nearest pattern of a magnitude; rounding up may carry into the exponent. -/
def nearestPattern (f s m : Nat) : Nat :=
  let k := Nat.log2 (m / 2 ^ s) - f
  k * 2 ^ f + roundShift m (s + k)

theorem roundShift_mul (m s : Nat) : roundShift (m * 2 ^ s) s = m := by
  have hpos := Nat.two_pow_pos s
  rw [roundShift]
  simp only [Nat.mul_div_cancel m hpos, Nat.mul_mod_left]
  rw [if_neg (by omega)]

theorem log2_normal {f r : Nat} (hr : r < 2 ^ f) (k : Nat) :
    Nat.log2 ((2 ^ f + r) * 2 ^ k) = f + k := by
  have hpos := Nat.two_pow_pos k
  have hf := Nat.two_pow_pos f
  rw [Nat.log2_eq_iff (by positivity), Nat.pow_succ, Nat.pow_add]
  constructor
  · apply Nat.mul_le_mul_right
    omega
  · calc (2 ^ f + r) * 2 ^ k < (2 ^ f * 2) * 2 ^ k :=
          Nat.mul_lt_mul_of_pos_right (by omega) hpos
      _ = 2 ^ f * 2 ^ k * 2 := by ring

theorem nearestPattern_magnitude (f s pattern : Nat) :
    nearestPattern f s (magnitude f pattern * 2 ^ s) = pattern := by
  rw [nearestPattern, Nat.mul_div_cancel _ (Nat.two_pow_pos s)]
  by_cases hsub : pattern < 2 ^ f
  · -- subnormal: the binade index is cut off at zero
    have hk : Nat.log2 pattern - f = 0 := by
      by_cases hzero : pattern = 0
      · simp [hzero]
      · have hlog := (Nat.log2_lt hzero).mpr hsub
        omega
    rw [magnitude, if_pos hsub, hk]
    simp [roundShift_mul]
  · have hr := Nat.mod_lt pattern (Nat.two_pow_pos f)
    have he : 0 < pattern / 2 ^ f := Nat.div_pos (by omega) (Nat.two_pow_pos f)
    rw [magnitude, if_neg hsub, log2_normal hr, Nat.add_sub_cancel_left, Nat.mul_assoc,
      ← Nat.pow_add, Nat.add_comm (pattern / 2 ^ f - 1) s, roundShift_mul]
    calc (pattern / 2 ^ f - 1) * 2 ^ f + (2 ^ f + pattern % 2 ^ f)
        = (pattern / 2 ^ f - 1 + 1) * 2 ^ f + pattern % 2 ^ f := by ring
      _ = 2 ^ f * (pattern / 2 ^ f) + pattern % 2 ^ f := by
          rw [Nat.sub_add_cancel he, Nat.mul_comm]
      _ = pattern := Nat.div_add_mod pattern (2 ^ f)

end Foundation

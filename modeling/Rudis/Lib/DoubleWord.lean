import Mathlib.Data.Nat.Bitwise
import Mathlib.Tactic.Ring

/-!
# `Rudis.Lib.DoubleWord`: arithmetic on numbers of two words

The steps of a division of a double word by an exact factor: the lowest set bit of a number is the
bitwise product with its negation (`land_neg`), a double word is shifted down by joining its two
words (`shift_join`), and an inverse modulo a power of two is found by Newton's rounds, each of
which squares what is missing from one (`one_sub_mul_newton`).
-/

namespace DoubleWord

variable {w k : Nat}

/-- The largest power of two that divides a number. -/
theorem land_neg {m : Nat} (h : 2 ^ k * (2 * m + 1) < 2 ^ w) :
    2 ^ k * (2 * m + 1) &&& (2 ^ w - 2 ^ k * (2 * m + 1)) = 2 ^ k := by
  have hpos := Nat.two_pow_pos k
  have hlow : 2 ^ k - 1 < 2 ^ k := by omega
  have hpred : 2 ^ k * (2 * m + 1) = 2 ^ k * (2 * m) + (2 ^ k - 1) + 1 := by
    rw [mul_add]
    omega
  have hk : k < w := by
    refine (Nat.pow_lt_pow_iff_right one_lt_two).mp (lt_of_le_of_lt ?_ h)
    exact Nat.le_mul_of_pos_right _ (by omega)
  refine Nat.eq_of_testBit_eq fun i => ?_
  -- The negation is the complement of the predecessor, which differs from the number up to bit `k`.
  rw [Nat.testBit_and, Nat.testBit_two_pow_mul, hpred, Nat.testBit_two_pow_sub_succ (by omega),
    Nat.testBit_two_pow_mul_add _ hlow, Nat.testBit_two_pow]
  rcases Nat.lt_trichotomy i k with hi | rfl | hi
  · simp [not_le.mpr hi, ne_of_gt hi]
  · simp [hk]
  · obtain ⟨j, rfl⟩ := Nat.exists_eq_add_of_lt hi
    have hsame : (2 * m + 1).testBit (k + j + 1 - k) = (2 * m).testBit (k + j + 1 - k) := by
      rw [show k + j + 1 - k = j + 1 by omega, Nat.testBit_succ, Nat.testBit_succ]
      congr 1
      omega
    rw [if_neg (by omega), hsame]
    cases (2 * m).testBit (k + j + 1 - k) <;> simp [ne_of_lt hi]

/-- The words of a number, shifted down by `k` and joined. -/
theorem shift_join (hk : k ≤ w) (n : Nat) :
    n % 2 ^ w / 2 ^ k ||| n / 2 ^ w * 2 ^ (w - k) % 2 ^ w = n / 2 ^ k % 2 ^ w := by
  have hw : 2 ^ w = 2 ^ k * 2 ^ (w - k) := by rw [← pow_add, Nat.add_sub_cancel' hk]
  have hlow : n / 2 ^ k % 2 ^ (w - k) < 2 ^ (w - k) := Nat.mod_lt _ (Nat.two_pow_pos _)
  rw [hw, Nat.mod_mul_right_div_self, ← Nat.div_div_eq_div_mul, mul_comm (2 ^ k),
    mul_comm _ (2 ^ (w - k)), Nat.mul_mod_mul_left, Nat.mod_mul, Nat.or_comm,
    ← Nat.two_pow_add_eq_or_of_lt hlow, add_comm]

variable {R : Type} [CommRing R]

/-- One of Newton's rounds for the inverse of `d`. -/
def newton (d x : R) : R := x * (2 - d * x)

theorem one_sub_mul_newton (d x : R) (n : Nat) :
    1 - d * (newton d)^[n] x = (1 - d * x) ^ 2 ^ n := by
  induction n with
  | zero => simp
  | succ n ih =>
    rw [Function.iterate_succ_apply', newton, pow_succ, pow_mul, ← ih]
    ring

end DoubleWord

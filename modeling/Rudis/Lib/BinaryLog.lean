import Mathlib.Algebra.Order.Ring.Nat
import Mathlib.Data.Nat.Log

/-!
# `Rudis.Lib.BinaryLog`: a logarithm found bit by bit

A mantissa `y` in fixed point with `s` fractional bits is squared; when the square is at least two,
the next bit of the logarithm is set and the square halved. Every step rounds down. `fraction s k y`
is the first `k` bits found this way. Rounding keeps the order of two mantissas, and a bit that only
one of them sets outweighs all the bits after it, so `fraction` is monotone (`fraction_mono`), and so
is the logarithm with its integer part in front (`value_mono`).
-/

namespace BinaryLog

open Nat (shiftRight_eq_div_pow two_pow_pos)

variable {s k y y' x x' : Nat}

/-- The square of a mantissa, rounded down. -/
def square (s y : Nat) : Nat := (y * y) >>> s

def fraction (s : Nat) : Nat → Nat → Nat
  | 0, _ => 0
  | k + 1, y =>
    if 2 ^ (s + 1) ≤ square s y then 2 ^ k + fraction s k (square s y >>> 1)
    else fraction s k (square s y)

/-- The mantissa after one step. -/
def next (s y : Nat) : Nat := if 2 ^ (s + 1) ≤ square s y then square s y >>> 1 else square s y

theorem square_mono (h : y ≤ y') : square s y ≤ square s y' := by
  rw [square, square, shiftRight_eq_div_pow, shiftRight_eq_div_pow]
  exact Nat.div_le_div_right (Nat.mul_le_mul h h)

theorem fraction_lt (s k y : Nat) : fraction s k y < 2 ^ k := by
  induction k generalizing y with
  | zero => exact Nat.one_pos
  | succ k ih =>
    rw [fraction, pow_succ]
    split
    · have hrest := ih (square s y >>> 1)
      omega
    · have hrest := ih (square s y)
      omega

theorem fraction_mono (h : y ≤ y') : fraction s k y ≤ fraction s k y' := by
  induction k generalizing y y' with
  | zero => exact le_refl 0
  | succ k ih =>
    have hsquare := square_mono (s := s) h
    rw [fraction, fraction]
    split
    · -- the larger mantissa sets every bit the smaller one sets
      rename_i hbit
      rw [if_pos (hbit.trans hsquare)]
      have hhalf : square s y >>> 1 ≤ square s y' >>> 1 := by
        rw [shiftRight_eq_div_pow, shiftRight_eq_div_pow]
        exact Nat.div_le_div_right hsquare
      exact Nat.add_le_add_left (ih hhalf) _
    · split
      · -- a bit outweighs all the bits after it
        have hrest := fraction_lt s k (square s y)
        omega
      · exact ih hsquare

theorem fraction_one (s k : Nat) : fraction s k (2 ^ s) = 0 := by
  have hsquare : square s (2 ^ s) = 2 ^ s := by
    rw [square, shiftRight_eq_div_pow]
    exact Nat.mul_div_cancel _ (two_pow_pos s)
  induction k with
  | zero => rfl
  | succ k ih =>
    have hlt : ¬ 2 ^ (s + 1) ≤ 2 ^ s := by
      rw [pow_succ]
      have := two_pow_pos s
      omega
    rw [fraction, hsquare, if_neg hlt, ih]

/-- A mantissa below two stays below two. -/
theorem next_lt (h : y < 2 ^ (s + 1)) : next s y < 2 ^ (s + 1) := by
  have hsquare : square s y < 2 ^ (s + 2) := by
    rw [square, shiftRight_eq_div_pow]
    refine Nat.div_lt_of_lt_mul ?_
    have hmul : y * y < 2 ^ (s + 1) * 2 ^ (s + 1) := Nat.mul_lt_mul'' h h
    rw [← pow_add] at hmul ⊢
    rwa [show s + (s + 2) = s + 1 + (s + 1) by omega]
  rw [next]
  split
  · rw [shiftRight_eq_div_pow]
    refine Nat.div_lt_of_lt_mul ?_
    rw [← pow_add]
    rwa [show 1 + (s + 1) = s + 2 by omega]
  · omega

/-- The position of the highest bit of the integer part. -/
def integer (s x : Nat) : Nat := Nat.log2 (x >>> s)

/-- The logarithm of `x`, with `s` fractional bits, to `k` fractional bits. -/
def value (s k x : Nat) : Nat := integer s x * 2 ^ k + fraction s k (x >>> integer s x)

theorem integer_mono (h : x ≤ x') : integer s x ≤ integer s x' := by
  rw [integer, integer, Nat.log2_eq_log_two, Nat.log2_eq_log_two, shiftRight_eq_div_pow,
    shiftRight_eq_div_pow]
  exact Nat.log_mono_right (Nat.div_le_div_right h)

theorem value_mono (h : x ≤ x') : value s k x ≤ value s k x' := by
  rw [value, value]
  rcases Nat.lt_or_eq_of_le (integer_mono (s := s) h) with hlt | heq
  · -- the integer part outweighs the fraction
    have hfraction := fraction_lt s k (x >>> integer s x)
    calc integer s x * 2 ^ k + fraction s k (x >>> integer s x)
        ≤ (integer s x + 1) * 2 ^ k := by
          rw [add_mul]
          omega
      _ ≤ integer s x' * 2 ^ k := Nat.mul_le_mul_right _ hlt
      _ ≤ _ := Nat.le_add_right _ _
  · rw [heq]
    refine Nat.add_le_add_left (fraction_mono ?_) _
    rw [shiftRight_eq_div_pow, shiftRight_eq_div_pow]
    exact Nat.div_le_div_right h

/-- The mantissa is at least one and below two. -/
theorem mantissa_bounds (h : 2 ^ s ≤ x) :
    2 ^ s ≤ x >>> integer s x ∧ x >>> integer s x < 2 ^ (s + 1) := by
  have hdiv : x >>> s ≠ 0 := by
    rw [shiftRight_eq_div_pow]
    exact ne_of_gt (Nat.div_pos h (two_pow_pos s))
  have hlow : 2 ^ integer s x ≤ x / 2 ^ s := by
    rw [← shiftRight_eq_div_pow]
    exact Nat.log2_self_le hdiv
  have hhigh : x / 2 ^ s < 2 ^ (integer s x + 1) := by
    rw [← shiftRight_eq_div_pow]
    exact Nat.lt_log2_self
  rw [shiftRight_eq_div_pow]
  constructor
  · rw [Nat.le_div_iff_mul_le (two_pow_pos _)]
    rw [Nat.le_div_iff_mul_le (two_pow_pos _)] at hlow
    rwa [mul_comm]
  · refine Nat.div_lt_of_lt_mul ?_
    have hlt := (Nat.div_lt_iff_lt_mul (two_pow_pos s)).mp hhigh
    rw [← pow_add] at hlt ⊢
    rwa [show integer s x + (s + 1) = integer s x + 1 + s by omega]

end BinaryLog

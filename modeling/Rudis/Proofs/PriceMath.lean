import Mathlib.Data.Nat.Digits.Lemmas
import Mathlib.Data.Nat.Factorization.Basic
import Mathlib.Data.ZMod.Basic
import Rudis.Lib.BinaryLog
import Rudis.Lib.DoubleWord
import Rudis.Spec.PriceMath

/-!
# `Rudis.Proofs.PriceMath`: a higher price is never in a lower bin

`log2` is the bitwise logarithm of `BinaryLog`, applied to the argument or, below 1.0, to its
reciprocal with the sign turned (`log2_eq`). The adapter divides exactly (`coenIsoPrice_eq`), so a
price of at least one unit lands above the special case of `log2`, and every later step keeps the
order.
-/

namespace Rudis.PriceMath

open Nat (two_pow_pos shiftRight_eq_div_pow div_lt_of_lt_mul ofDigits_cons shiftLeft_eq add_mod cast_mul)
open List Nat
open BinaryLog (fraction value square)

/-! ### The highest bit -/

variable {N binStep bits d n offset r word : Nat} {s : Nat × Nat}

theorem msbRound_log (h : s.1 < 2 ^ (bits + bits)) :
    (msbRound s bits).1 < 2 ^ bits ∧
      Nat.log2 (msbRound s bits).1 + (msbRound s bits).2 = Nat.log2 s.1 + s.2 := by
  rw [msbRound]
  have hpos := two_pow_pos bits
  split
  · rename_i hgt
    have hle : bits ≤ Nat.log2 s.1 := (le_log2 (by omega)).mpr (by omega)
    constructor
    · show s.1 >>> bits < 2 ^ bits
      rw [shiftRight_eq_div_pow]
      exact div_lt_of_lt_mul (by rwa [← pow_add])
    · show Nat.log2 (s.1 >>> bits) + (s.2 + bits) = Nat.log2 s.1 + s.2
      rw [shiftRight_eq_div_pow, log2_eq_log_two, log_div_base_pow, ← log2_eq_log_two]
      omega
  · exact ⟨by omega, rfl⟩

theorem lastBit_log (h : s.1 < 2 ^ 2) :
    (if s.1 > 1 then s.2 + 1 else s.2) = Nat.log2 s.1 + s.2 := by
  obtain ⟨word, msb⟩ := s
  have hcases : word = 0 ∨ word = 1 ∨ word = 2 ∨ word = 3 := by
    simp only at h
    omega
  have hlog : Nat.log2 0 = 0 ∧ Nat.log2 1 = 0 ∧ Nat.log2 2 = 1 ∧ Nat.log2 3 = 1 := by decide
  rcases hcases with rfl | rfl | rfl | rfl <;> simp [hlog, add_comm]

/-- The rounds double back from `2 ^ k` bits to two. -/
theorem foldl_msbRound_log (k : Nat) (h : s.1 < 2 ^ 2 ^ (k + 1)) :
    let last := ((range k).reverse.map fun i => 2 ^ (i + 1)).foldl msbRound s
    last.1 < 2 ^ 2 ∧ Nat.log2 last.1 + last.2 = Nat.log2 s.1 + s.2 := by
  induction k generalizing s with
  | zero => exact ⟨h, rfl⟩
  | succ k ih =>
    have hdouble : 2 ^ (k + 1 + 1) = 2 ^ (k + 1) + 2 ^ (k + 1) := by
      rw [pow_succ 2 (k + 1)]
      omega
    rw [hdouble] at h
    obtain ⟨hlt, hlog⟩ := msbRound_log h
    obtain ⟨hlast, hsum⟩ := ih hlt
    rw [range_succ, reverse_append, reverse_singleton, singleton_append, map_cons, foldl_cons]
    exact ⟨hlast, hsum.trans hlog⟩

theorem mostSignificantBit_eq {x : Nat} (h : x < 2 ^ 256) : mostSignificantBit x = Nat.log2 x := by
  have hrounds : [128, 64, 32, 16, 8, 4, 2] = (range 7).reverse.map fun i => 2 ^ (i + 1) := by
    decide
  obtain ⟨hlast, hlog⟩ := foldl_msbRound_log 7 (s := (x, 0)) h
  rw [mostSignificantBit, hrounds]
  exact (lastBit_log hlast).trans hlog

/-! ### The refinement -/

theorem logRound_eq {y : Nat} (h : y < 2 ^ 128) :
    logRound y = (decide (2 ^ 128 ≤ square 127 y), BinaryLog.next 127 y) := by
  have hmul : y * y < 2 ^ 256 := by
    have := Nat.mul_lt_mul'' h h
    rwa [← pow_add] at this
  have hsquare : wrappingMul 256 y y >>> logScaleOffset = square 127 y := by
    rw [wrappingMul_eq hmul]
    rfl
  have hthreshold : 1 <<< (logScaleOffset + 1) = 2 ^ (127 + 1) := by decide
  rw [logRound, hsquare, hthreshold, BinaryLog.next]
  by_cases hbit : 2 ^ (127 + 1) ≤ square 127 y
  · rw [if_pos hbit, if_pos hbit, decide_eq_true hbit]
  · rw [if_neg hbit, if_neg hbit, decide_eq_false hbit]

/-- No square of the refinement wraps. -/
theorem logMantissaAt_lt {x : Nat} (h : logMantissa x < 2 ^ 128) (n : Nat) :
    logMantissaAt x n < 2 ^ 128 := by
  rw [logMantissaAt]
  generalize logMantissa x = y at h
  induction n generalizing y with
  | zero => exact h
  | succ n ih =>
    refine ih (logRound y).2 ?_
    rw [logRound_eq h]
    exact BinaryLog.next_lt h

/-- The loop adds the fraction found bit by bit. -/
theorem logLoop_eq (k fuel y : Nat) (result : Int) (hfuel : k < fuel) (h0 : 0 ≤ result)
    (hmax : result + 2 ^ k ≤ 2 ^ 255) (hy : y < 2 ^ 128) :
    logLoop fuel result (2 ^ k / 2) y = result + fraction 127 k y := by
  induction k generalizing fuel y result with
  | zero =>
    obtain ⟨fuel, rfl⟩ := Nat.exists_eq_add_of_lt hfuel
    rw [show 0 + fuel + 1 = fuel + 1 by omega, logLoop, if_neg (by decide)]
    simp [fraction]
  | succ k ih =>
    obtain ⟨fuel, rfl⟩ : ∃ f, fuel = f + 1 := ⟨fuel - 1, by omega⟩
    have hpos : (0 : Int) < 2 ^ k := by positivity
    have hdelta : (2 : Int) ^ (k + 1) / 2 = 2 ^ k := by
      rw [pow_succ]
      exact Int.mul_ediv_cancel _ (by decide)
    rw [pow_succ] at hmax
    rw [hdelta, logLoop, if_pos hpos, logRound_eq hy, fraction]
    have hnext : BinaryLog.next 127 y < 2 ^ 128 := BinaryLog.next_lt hy
    by_cases hbit : 2 ^ (127 + 1) ≤ square 127 y
    · have hadd : i256SaturatingAdd result (2 ^ k) = result + 2 ^ k := by
        rw [i256SaturatingAdd]
        omega
      have hrest := ih fuel (BinaryLog.next 127 y) (result + 2 ^ k) (by omega) (by omega) (by omega) hnext
      rw [if_pos (decide_eq_true hbit), if_pos hbit, hadd, hrest, BinaryLog.next, if_pos hbit]
      push_cast
      omega
    · have hrest := ih fuel (BinaryLog.next 127 y) result (by omega) h0 (by omega) hnext
      rw [if_neg (by rw [decide_eq_true_iff]; exact hbit), if_neg hbit, hrest, BinaryLog.next,
        if_neg hbit]

/-! ### The logarithm -/

section
variable {x y : Nat}

section

variable (hx : 2 ≤ x)

include hx

theorem logInner_bounds (hlt : x < 2 ^ 256) : 2 ^ 127 ≤ logInner x ∧ logInner x < 2 ^ 255 := by
  rw [logInner, logScale, logScaleSquared, shiftRight_eq_div_pow]
  split
  · rename_i hge
    exact ⟨hge, by omega⟩
  · rename_i hge
    have hhalf : 0 < x / 2 ^ 1 := by omega
    constructor
    · rw [Nat.le_div_iff_mul_le hhalf]
      calc 2 ^ 127 * (x / 2 ^ 1) ≤ 2 ^ 127 * 2 ^ 127 := Nat.mul_le_mul_left _ (by omega)
        _ = 2 ^ 254 := by rw [← pow_add]
    · exact lt_of_le_of_lt (Nat.div_le_self _ _) (by decide)

theorem logInteger_eq (hlt : x < 2 ^ 256) : logInteger x = BinaryLog.integer 127 (logInner x) := by
  have hbound := (logInner_bounds hx hlt).2
  refine mostSignificantBit_eq ?_
  rw [shiftRight_eq_div_pow]
  exact lt_of_le_of_lt (Nat.div_le_self _ _) (by omega)

theorem logMantissa_bounds (hlt : x < 2 ^ 256) :
    2 ^ 127 ≤ logMantissa x ∧ logMantissa x < 2 ^ 128 := by
  rw [logMantissa, logInteger_eq hx hlt]
  exact BinaryLog.mantissa_bounds (logInner_bounds hx hlt).1

theorem integer_inner_le (hlt : x < 2 ^ 256) : BinaryLog.integer 127 (logInner x) < 128 := by
  have hbounds := logInner_bounds hx hlt
  have hdiv : logInner x / 2 ^ 127 < 2 ^ 128 := by
    refine div_lt_of_lt_mul ?_
    rw [← pow_add]
    exact hbounds.2
  rw [BinaryLog.integer, shiftRight_eq_div_pow, log2_lt]
  · exact hdiv
  · exact ne_of_gt (Nat.div_pos hbounds.1 (two_pow_pos _))

theorem logResult_eq (hlt : x < 2 ^ 256) : logResult x = (value 127 127 (logInner x) : Nat) := by
  have hinteger := logInteger_eq hx hlt
  have hmantissa : logInner x >>> BinaryLog.integer 127 (logInner x) = logMantissa x := by
    rw [logMantissa, hinteger]
  have hbound := (logMantissa_bounds hx hlt).2
  have hle := integer_inner_le hx hlt
  rw [logResult, value, hmantissa, ← hinteger]
  rw [← hinteger] at hle
  generalize logInteger x = n at hle ⊢
  generalize logMantissa x = y at hbound ⊢
  have hsum : ((n * 2 ^ 127 + fraction 127 127 y : Nat) : Int) =
      (n : Int) * 2 ^ logScaleOffset + fraction 127 127 y := by
    push_cast
    rfl
  rw [hsum]
  by_cases hone : y = logScale
  · -- an exact power of two is not refined
    rw [if_neg (not_not_intro hone), hone, show logScale = 2 ^ 127 from rfl, BinaryLog.fraction_one]
    exact (Int.add_zero _).symm
  · rw [if_pos hone]
    have hpow : (n : Int) * 2 ^ logScaleOffset + 2 ^ 127 ≤ 2 ^ 255 := by
      have hoffset : logScaleOffset = 127 := rfl
      rw [hoffset]
      omega
    have hnonneg : 0 ≤ (n : Int) * 2 ^ logScaleOffset :=
      Int.mul_nonneg (Int.natCast_nonneg n) (pow_nonneg (by decide) _)
    have hdelta : (2 : Int) ^ (logScaleOffset - 1) = 2 ^ 127 / 2 := by norm_num [logScaleOffset]
    rw [hdelta]
    exact logLoop_eq 127 256 y _ (by decide) hnonneg hpow hbound

theorem log2_eq (hlt : x < 2 ^ 256) :
    log2 x = .ok ((value 127 127 (logInner x) : Nat) * logSign x * 2) := by
  rw [log2, if_neg (by omega), if_neg (by omega), logResult_eq hx hlt]

/-- Across the inversion at 1.0 the sign changes; on either side the order of the arguments decides. -/
theorem signed_value_mono (hxy : x ≤ y) :
    ((value 127 127 (logInner x) : Nat) : Int) * logSign x ≤
      ((value 127 127 (logInner y) : Nat) : Int) * logSign y := by
  have hhalf : x >>> 1 ≤ y >>> 1 := by
    rw [shiftRight_eq_div_pow, shiftRight_eq_div_pow]
    exact Nat.div_le_div_right hxy
  rw [logSign, logSign]
  by_cases hbelow : x >>> 1 ≥ logScale
  · have habove : y >>> 1 ≥ logScale := hbelow.trans hhalf
    have hinner : logInner x ≤ logInner y := by
      rw [logInner, logInner, if_pos hbelow, if_pos habove]
      exact hhalf
    rw [if_pos hbelow, if_pos habove]
    have := BinaryLog.value_mono (s := 127) (k := 127) hinner
    omega
  · rw [if_neg hbelow]
    by_cases habove : y >>> 1 ≥ logScale
    · rw [if_pos habove]
      omega
    · -- both are inverted: the larger has the smaller reciprocal
      have hpos : 0 < x >>> 1 := by
        rw [shiftRight_eq_div_pow]
        omega
      have hinner : logInner y ≤ logInner x := by
        rw [logInner, logInner, if_neg hbelow, if_neg habove]
        exact div_le_div_left hhalf hpos
      rw [if_neg habove]
      have := BinaryLog.value_mono (s := 127) (k := 127) hinner
      omega

theorem log2_mono (hxy : x ≤ y) (hy : y < 2 ^ 256) :
    ∃ u v, log2 x = .ok u ∧ log2 y = .ok v ∧ u ≤ v := by
  refine ⟨_, _, log2_eq hx (hxy.trans_lt hy), log2_eq (hx.trans hxy) hy, ?_⟩
  have := signed_value_mono hx hxy
  omega

end

/-- At 1.0 and above the logarithm is not negative. -/
theorem log2_nonneg {v : Int} (hx : 2 ^ 128 ≤ x) (hlt : x < 2 ^ 256) (h : log2 x = .ok v) :
    0 ≤ v := by
  rw [log2_eq (le_trans (by decide) hx) hlt] at h
  have hge : x >>> 1 ≥ logScale := by
    rw [shiftRight_eq_div_pow, logScale]
    omega
  rw [logSign, if_pos hge] at h
  injection h with h
  omega

end

/-! ### The 512-bit product -/

section

variable {ys product : List Nat} (hys : ∀ y ∈ ys, y < 2 ^ 64) (hproduct : ∀ a ∈ product, a < 2 ^ 64)

include hys hproduct

/-- A row adds a multiple of `ys` to the product. -/
theorem mulRow_spec {x carry : Nat} (hlen : product.length = ys.length) (hx : x < 2 ^ 64)
    (hcarry : carry < 2 ^ 64) :
    (mulRow x ys product carry).length = ys.length + 1 ∧
      (∀ a ∈ mulRow x ys product carry, a < 2 ^ 64) ∧
      fromLimbs (mulRow x ys product carry) = x * fromLimbs ys + fromLimbs product + carry := by
  induction ys generalizing product carry with
  | nil =>
    obtain rfl := length_eq_zero_iff.mp hlen
    rw [mulRow, mod_eq_of_lt hcarry]
    · simpa [fromLimbs] using hcarry
    · simp
  | cons y ys ih =>
    obtain ⟨cur, product, rfl⟩ := exists_cons_of_length_eq_add_one hlen
    rw [forall_mem_cons] at hys hproduct
    -- the largest product of two limbs leaves room for a limb and a carry
    have hp : x * y + cur + carry < 2 ^ 128 := by
      have := Nat.mul_le_mul (le_sub_one_of_lt hx) (le_sub_one_of_lt hys.1)
      omega
    rw [mulRow, mod_eq_of_lt hp]
    obtain ⟨hlength, hlimbs, hvalue⟩ := @ih product hys.2 hproduct.2 ((x * y + cur + carry) / 2 ^ 64)
      (by simpa using hlen) (by omega)
    refine ⟨congrArg (· + 1) hlength, forall_mem_cons.mpr ⟨mod_lt _ (by decide), hlimbs⟩, ?_⟩
    simp only [fromLimbs, ofDigits_cons] at hvalue ⊢
    rw [hvalue, mul_add x, mul_left_comm x]
    omega

/-- The rows add the product of all limbs. -/
theorem mulRows_spec {xs : List Nat} (hlen : product.length = ys.length)
    (hxs : ∀ x ∈ xs, x < 2 ^ 64) :
    (mulRows ys xs product).length = xs.length + ys.length ∧
      (∀ a ∈ mulRows ys xs product, a < 2 ^ 64) ∧
      fromLimbs (mulRows ys xs product) = fromLimbs xs * fromLimbs ys + fromLimbs product := by
  induction xs generalizing product with
  | nil => exact ⟨by simp [mulRows, hlen], hproduct, by simp [mulRows, fromLimbs]⟩
  | cons x xs ih =>
    rw [forall_mem_cons] at hxs
    obtain ⟨hlength, hlimbs, hvalue⟩ := @mulRow_spec _ _ hys hproduct x 0 hlen hxs.1 (by decide)
    rw [mulRows]
    obtain ⟨limb, rest, hrow⟩ := exists_cons_of_length_eq_add_one hlength
    rw [hrow, forall_mem_cons] at hlimbs
    rw [hrow] at hlength hvalue ⊢
    obtain ⟨htotal, hall, hrest⟩ := ih hlimbs.2 (by simpa using hlength) hxs.2
    refine ⟨?_, forall_mem_cons.mpr ⟨hlimbs.1, hall⟩, ?_⟩
    · simp only [length_cons, tail_cons, htotal]
      omega
    simp only [fromLimbs, ofDigits_cons, headD_cons, tail_cons] at hvalue hrest ⊢
    rw [hrest, add_mul, mul_assoc]
    omega

end

theorem fromLimbs_asLimbs {x : Nat} (hx : x < 2 ^ 256) :
    fromLimbs (asLimbs x) = x ∧ ∀ a ∈ asLimbs x, a < 2 ^ 64 := by
  constructor
  · simp [asLimbs, fromLimbs, range_succ, ofDigits_cons]
    omega
  · intro a ha
    obtain ⟨i, -, rfl⟩ := mem_map.mp ha
    exact mod_lt _ (by decide)

section

variable {x y : Nat} (hx : x < 2 ^ 256) (hy : y < 2 ^ 256)

include hx hy

/-- The limbs spell the two words of the product. -/
theorem getMulProds_eq : getMulProds x y = (x * y % 2 ^ 256, x * y / 2 ^ 256) := by
  obtain ⟨hxv, hxs⟩ := fromLimbs_asLimbs hx
  obtain ⟨hyv, hys⟩ := fromLimbs_asLimbs hy
  obtain ⟨hlength, hlimbs, hvalue⟩ :=
    @mulRows_spec _ [0, 0, 0, 0] hys (by simp) _ (by simp [asLimbs]) hxs
  have hzero : fromLimbs [0, 0, 0, 0] = 0 := by simp [fromLimbs, ofDigits_cons]
  rw [hxv, hyv, hzero, add_zero] at hvalue
  rw [getMulProds, ← hvalue]
  generalize mulRows (asLimbs y) (asLimbs x) [0, 0, 0, 0] = product at hlimbs hlength ⊢
  have hsplit : fromLimbs (product.take 4 ++ product.drop 4) = _ := ofDigits_append
  have hlow : fromLimbs (product.take 4) < (2 ^ 64) ^ (product.take 4).length :=
    Nat.ofDigits_lt_base_pow_length' fun a ha => hlimbs a (mem_of_mem_take ha)
  have hfour : (product.take 4).length = 4 := by
    rw [length_take, hlength, asLimbs, length_map, length_range]
    omega
  rw [take_append_drop, hfour] at hsplit
  rw [hfour] at hlow
  rw [fromLimbs] at hlow
  rw [hsplit, fromLimbs, fromLimbs]
  ext <;> simp only <;> omega

end

/-! ### The remainder -/

section

variable {denom : Nat} (hdenom : 0 < denom)

/-- The long division by a denominator whose doubled remainders stay in the register. -/
theorem foldl_remStep (hr : r < denom)
    (hfits : denom ≤ 2 ^ 255 ∨ r * 2 ^ n + word % 2 ^ n < 2 ^ 256) :
    (range n).reverse.foldl (remStep denom word) r = (r * 2 ^ n + word % 2 ^ n) % denom := by
  induction n generalizing r with
  | zero => simp [mod_one, mod_eq_of_lt hr]
  | succ n ih =>
    have hspelt : r * 2 ^ (n + 1) + word % 2 ^ (n + 1) =
        (2 * r + word / 2 ^ n % 2) * 2 ^ n + word % 2 ^ n := by
      rw [mod_pow_succ]
      ring
    rw [hspelt] at hfits ⊢
    have hpow := two_pow_pos n
    have hb := mod_lt (word / 2 ^ n) (show 0 < 2 by decide)
    have hbit : (if word.testBit n then 1 else 0) = word / 2 ^ n % 2 := by
      rw [testBit_eq_decide_div_mod_eq]
      split <;> rename_i hbit <;> simp only [decide_eq_true_eq] at hbit <;> omega
    have hstep : remStep denom word r n = (2 * r + word / 2 ^ n % 2) % denom := by
      rw [remStep, hbit]
      generalize word / 2 ^ n % 2 = b at *
      have hword : 2 * r + b < 2 ^ 256 := by
        rcases hfits with hle | hlt
        · omega
        · exact lt_of_le_of_lt (le_add_right_of_le (Nat.le_mul_of_pos_right _ hpow)) hlt
      have hor : r <<< 1 % 2 ^ 256 ||| b = 2 * r + b := by
        rw [shiftLeft_eq, mod_eq_of_lt (by omega), mul_comm]
        exact (two_pow_add_eq_or_of_lt (i := 1) hb _).symm
      rw [hor]
      split
      · rename_i hge
        rw [wrappingSub_eq hge hword, mod_eq_sub_mod hge]
        exact (mod_eq_of_lt (by omega)).symm
      · exact (mod_eq_of_lt (by omega)).symm
    have hrest := Nat.mul_le_mul_right (2 ^ n) (mod_le (2 * r + word / 2 ^ n % 2) denom)
    rw [range_succ, reverse_append, reverse_singleton, singleton_append,
      foldl_cons, hstep, ih (mod_lt _ (by omega)) (hfits.imp_right (by omega)), add_mod,
      mod_mul_mod, ← add_mod]

include hdenom

theorem mulMod512_eq {x y : Nat} (hx : x < 2 ^ 256) (hy : y < 2 ^ 256) (hle : denom ≤ 2 ^ 255) :
    mulMod512 x y denom = x * y % denom := by
  have hN : x * y < 2 ^ 256 * 2 ^ 256 := Nat.mul_lt_mul'' hx hy
  rw [mulMod512, getMulProds_eq hx hy]
  simp only [foldl_cons, foldl_nil]
  rw [foldl_remStep hdenom (.inl hle), foldl_remStep (mod_lt _ hdenom) (.inl hle), mod_mod,
    zero_mul, zero_add, mod_eq_of_lt (div_lt_of_lt_mul hN), add_mod,
    mod_mul_mod, ← add_mod, Nat.div_add_mod']

/-- Above `2 ^ 255` the last doubling of `2 ^ 256` leaves the register. -/
theorem mulMod512_wraps (hlt : 2 ^ 255 < denom) : mulMod512 (2 ^ 255) (2 ^ 1) denom = 0 := by
  have hwords : getMulProds (2 ^ 255) (2 ^ 1) = (0, 1) := getMulProds_eq (by decide) (by decide)
  have hzero : ∀ r bit, remStep denom 0 r (bit + 1) = remStep denom 0 r bit := by
    intro r bit
    simp only [remStep, zero_testBit]
  rw [mulMod512, hwords]
  simp only [foldl_cons, foldl_nil]
  rw [foldl_remStep hdenom (.inr (by decide)), mod_eq_of_lt (by omega),
    range_succ_eq_map, reverse_cons, foldl_append, ← map_reverse, foldl_map]
  simp only [hzero]
  rw [foldl_remStep (by omega) (.inr (by decide)), mod_eq_of_lt (by omega)]
  exact if_neg (not_le.mpr hdenom)

end

/-! ### The quotient -/

/-- Subtracting a remainder from the two words of a product borrows once at most. -/
theorem words_sub (hN : N / 2 ^ 256 < 2 ^ 256) (hr : r ≤ N) (hword : r < 2 ^ 256) :
    (if r > N % 2 ^ 256 then wrappingSub 256 (N / 2 ^ 256) 1 else N / 2 ^ 256) = (N - r) / 2 ^ 256 ∧
      wrappingSub 256 (N % 2 ^ 256) r = (N - r) % 2 ^ 256 := by
  constructor
  · split
    · rw [wrappingSub_eq (by omega) hN]
      omega
    · omega
  · rw [wrappingSub]
    omega

/-- The seed is right in four bits, and six rounds make them 256. -/
theorem mul_inverseMod (m : Nat) : (2 * m + 1) * inverseMod (2 * m + 1) % 2 ^ 256 = 1 := by
  obtain ⟨N, hN⟩ : ∃ N, N = 2 ^ 256 := ⟨_, rfl⟩
  generalize hd : 2 * m + 1 = d
  have hround : ∀ x : Nat, ((wrappingMul 256 x (wrappingSub 256 2 (wrappingMul 256 d x)) : Nat) :
      ZMod N) = DoubleWord.newton (d : ZMod N) x := by
    intro x
    have hlt := mod_lt (d * x) (two_pow_pos 256)
    rw [← hN] at hlt
    rw [wrappingMul, wrappingSub, wrappingMul, mod_mod, ← hN, ZMod.natCast_mod, cast_mul,
      ZMod.natCast_mod, cast_sub (by omega), ZMod.natCast_mod, DoubleWord.newton]
    simp
  have hseed : d * (wrappingMul 256 3 d ^^^ 2) % 16 = 1 := by
    have hfour : ∀ r < 16, r % 2 = 1 → r * (3 * r % 16 ^^^ 2) % 16 = 1 := by decide
    have hlow : (wrappingMul 256 3 d ^^^ 2) % 16 = 3 * (d % 16) % 16 ^^^ 2 := by
      rw [show 16 = 2 ^ 4 from rfl, xor_mod_two_pow, wrappingMul]
      congr 1
      omega
    rw [mul_mod, hlow]
    exact hfour _ (mod_lt _ (by decide)) (by omega)
  have hrounds : ((inverseMod d : Nat) : ZMod N) =
      (DoubleWord.newton (d : ZMod N))^[6] ((wrappingMul 256 3 d ^^^ 2 : Nat) : ZMod N) := by
    rw [inverseMod, foldl_const, length_range]
    exact Function.Semiconj.iterate_right hround 6 _
  generalize wrappingMul 256 3 d ^^^ 2 = seed at hseed hrounds
  obtain ⟨q, hq⟩ : ∃ q, d * seed = 16 * q + 1 := ⟨d * seed / 16, by omega⟩
  have hmissing : 1 - (d : ZMod N) * seed = -(16 * q) := by
    rw [← cast_mul, hq]
    push_cast
    ring
  have hvanishes : (16 : ZMod N) ^ 64 = 0 := by
    rw [show (16 : ZMod N) ^ 64 = ((2 ^ 256 : Nat) : ZMod N) by norm_num, ← hN, ZMod.natCast_self]
  have hone : ((d * inverseMod d : Nat) : ZMod N) = (1 : Nat) := by
    have hsquares := DoubleWord.one_sub_mul_newton (d : ZMod N) seed 6
    rw [← hrounds, hmissing, show 2 ^ 6 = 64 from rfl, Even.neg_pow (by decide), mul_pow, hvanishes,
      zero_mul, sub_eq_zero] at hsquares
    rw [cast_mul, ← hsquares, cast_one]
  rw [ZMod.natCast_eq_natCast_iff', hN] at hone
  exact hone

section

variable {x y k m : Nat}

/-- What is left of the product is shifted down by the power of two in the denominator, and the
inverse cancels its odd part. -/
theorem getEndOfDivRoundDown_of_rem (hd : 2 ^ k * (2 * m + 1) < 2 ^ 256)
    (hlt : x * y / 2 ^ 256 < 2 ^ k * (2 * m + 1)) (hne : x * y / 2 ^ 256 ≠ 0)
    (hrem : mulMod512 x y (2 ^ k * (2 * m + 1)) = r) (hr : r < 2 ^ 256) :
    getEndOfDivRoundDown x y (2 ^ k * (2 * m + 1)) (x * y % 2 ^ 256) (x * y / 2 ^ 256) =
      .ok ((x * y - r) / 2 ^ k * inverseMod (2 * m + 1) % 2 ^ 256) := by
  obtain ⟨hhigh, hlow⟩ := words_sub (N := x * y) (hlt.trans hd) (by omega) hr
  have hpos := two_pow_pos k
  have hpow : 2 ^ k < 2 ^ 256 := lt_of_le_of_lt (Nat.le_mul_of_pos_right _ (by omega)) hd
  have hk : k < 256 := (Nat.pow_lt_pow_iff_right one_lt_two).mp hpow
  have hneg : ∀ a, 0 < a → a < 2 ^ 256 → wrappingSub 256 0 a = 2 ^ 256 - a := by
    intro a ha hlt
    rw [wrappingSub]
    omega
  have hlpotdod : 2 ^ k * (2 * m + 1) &&& wrappingSub 256 0 (2 ^ k * (2 * m + 1)) = 2 ^ k := by
    rw [hneg _ (by omega) hd]
    exact DoubleWord.land_neg hd
  have hinv : wrappingAdd 256 (wrappingSub 256 0 (2 ^ k) / 2 ^ k) 1 = 2 ^ (256 - k) % 2 ^ 256 := by
    have hfactor : 2 ^ 256 - 2 ^ k = 2 ^ k * (2 ^ (256 - k) - 1) := by
      rw [Nat.mul_sub, ← pow_add, mul_one, Nat.add_sub_cancel' hk.le]
    rw [hneg _ hpos hpow, hfactor, Nat.mul_div_cancel_left _ hpos, wrappingAdd,
      Nat.sub_add_cancel (two_pow_pos _)]
  rw [getEndOfDivRoundDown, if_neg hne]
  simp only [throwIf, if_neg (not_le.mpr hlt), hrem, hhigh, hlow, hlpotdod,
    if_neg (ne_of_gt hpos), hinv, bind, Except.bind, pure, Except.pure, wrappingMul]
  rw [mul_mod_mod, DoubleWord.shift_join hk.le, mod_mul_mod, Nat.mul_div_cancel_left _ hpos]

/-- Whether a quotient is found without the remainder of a denominator above `2 ^ 255`: for such a
denominator the dividend is one word, or the quotient is refused. -/
def InRegister (N d : Nat) : Prop := d ≤ 2 ^ 255 ∨ N < 2 ^ 256 ∨ d * 2 ^ 256 ≤ N

/-- The quotient is returned where it is one and fits a word. -/
theorem getEndOfDivRoundDown_ok {d v : Nat} (hd : InRegister (x * y) d)
    (hxy : x * y / 2 ^ 256 < d → x < 2 ^ 256 ∧ y < 2 ^ 256) :
    getEndOfDivRoundDown x y d (x * y % 2 ^ 256) (x * y / 2 ^ 256) = .ok v ↔
      d ≠ 0 ∧ v = x * y / d ∧ v < 2 ^ 256 := by
  by_cases hlt : x * y / 2 ^ 256 < d
  · obtain ⟨hx, hy⟩ := hxy hlt
    have hpos : 0 < d := zero_lt_of_lt hlt
    have hfits : x * y / d < 2 ^ 256 := by
      rw [Nat.div_lt_iff_lt_mul (by decide)] at hlt
      exact div_lt_of_lt_mul hlt
    have hvalue : getEndOfDivRoundDown x y d (x * y % 2 ^ 256) (x * y / 2 ^ 256) =
        .ok (x * y / d) := by
      by_cases hzero : x * y / 2 ^ 256 = 0
      · rw [getEndOfDivRoundDown, if_pos hzero, throwIf, if_neg (ne_of_gt hpos),
          mod_eq_of_lt (by omega)]
        rfl
      · -- The dividend has two words and the quotient one, so the denominator is small.
        rw [InRegister, ← Nat.le_div_iff_mul_le (by decide)] at hd
        have hrem := mulMod512_eq hpos hx hy (by omega)
        have hword := mod_lt (x * y) hpos
        obtain ⟨k, _, ⟨m, rfl⟩, rfl⟩ := exists_eq_two_pow_mul_odd (ne_of_gt hpos)
        rw [getEndOfDivRoundDown_of_rem (by omega) hlt hzero hrem (by omega)]
        generalize x * y = N at *
        have hexact : N - N % (2 ^ k * (2 * m + 1)) = 2 ^ k * ((2 * m + 1) * (N / (2 ^ k * (2 * m + 1)))) := by
          rw [← mul_assoc]
          exact Nat.sub_eq_of_eq_add (div_add_mod _ _).symm
        rw [hexact, Nat.mul_div_cancel_left _ (two_pow_pos k), mul_comm (2 * m + 1),
          mul_assoc, ← mul_mod_mod, mul_inverseMod, mul_one, mod_eq_of_lt hfits]
    rw [hvalue, Except.ok.injEq]
    exact ⟨fun h => h ▸ ⟨ne_of_gt hpos, rfl, hfits⟩, fun h => h.2.1.symm⟩
  · -- no quotient, or one of more than a word
    constructor
    · intro h
      simp only [getEndOfDivRoundDown, throwIf] at h
      split at h
      · rw [if_pos (by omega)] at h
        cases h
      · rw [if_pos (by omega)] at h
        cases h
    · rintro ⟨hne, rfl, hfits⟩
      refine absurd ?_ hlt
      rw [Nat.div_lt_iff_lt_mul (by omega)] at hfits
      exact div_lt_of_lt_mul hfits

theorem shiftDivRoundDown_eq (hx : offset = 0 → x < 2 ^ 256) (ho : offset < 256)
    (d : Nat) : shiftDivRoundDown x offset d =
      getEndOfDivRoundDown x (2 ^ offset) d (x * 2 ^ offset % 2 ^ 256) (x * 2 ^ offset / 2 ^ 256) := by
  have hhigh : (if offset = 0 then 0 else x >>> (256 - offset)) = x * 2 ^ offset / 2 ^ 256 := by
    split
    · rename_i hzero
      rw [hzero, pow_zero, mul_one, div_eq_of_lt (hx hzero)]
    · rw [shiftRight_eq_div_pow, show 2 ^ 256 = 2 ^ (256 - offset) * 2 ^ offset by
        rw [← pow_add, Nat.sub_add_cancel ho.le], Nat.mul_div_mul_right _ _ (two_pow_pos _)]
  rw [shiftDivRoundDown, hhigh, if_neg (not_le.mpr ho), one_shiftLeft, shiftLeft_eq]

/-- The double word shifted down, refused where its quotient leaves a word. -/
theorem mulShiftRoundDown_ok {offset v : Nat} (hx : x < 2 ^ 256) (hy : y < 2 ^ 256)
    (ho : offset < 256) :
    mulShiftRoundDown x y offset = .ok v ↔ v = x * y / 2 ^ offset ∧ v < 2 ^ 256 := by
  have hpow : 2 ^ offset < 2 ^ 256 := Nat.pow_lt_pow_right one_lt_two ho
  have hpos := two_pow_pos offset
  have hfits : x * y / 2 ^ 256 < 2 ^ offset ↔ x * y / 2 ^ offset < 2 ^ 256 := by
    rw [Nat.div_lt_iff_lt_mul (by decide), Nat.div_lt_iff_lt_mul hpos, mul_comm (2 ^ 256)]
  have hjoin := add_mul_div_left (x * y % 2 ^ 256) (x * y / 2 ^ 256 * 2 ^ (256 - offset)) hpos
  rw [mul_left_comm, ← pow_add, Nat.add_sub_cancel' ho.le, Nat.mod_add_div'] at hjoin
  have hlow : (if x * y % 2 ^ 256 = 0 then 0 else (x * y % 2 ^ 256) >>> offset) =
      x * y % 2 ^ 256 / 2 ^ offset := by
    rw [← shiftRight_eq_div_pow]
    split
    · rename_i hzero
      rw [hzero, zero_shiftRight]
    · rfl
  rw [mulShiftRoundDown, getMulProds_eq hx hy]
  simp only [hlow, shiftLeft_eq, one_mul, mod_eq_of_lt hpow, throwIf, bind,
    Except.bind, pure, Except.pure]
  split
  · rename_i hzero
    rw [hzero, zero_mul, add_zero] at hjoin
    rw [← hjoin, Except.ok.injEq]
    omega
  · rename_i hne
    by_cases hlt : x * y / 2 ^ 256 < 2 ^ offset
    · have hoffset : offset > 0 := by
        refine Nat.pos_of_ne_zero fun hzero => ?_
        rw [hzero] at hlt
        omega
      simp only [if_neg (not_le.mpr hlt), if_pos hoffset, wrappingAdd, add_mod_mod, ← hjoin,
        Except.ok.injEq]
      omega
    · rw [if_pos (Nat.le_of_not_lt hlt)]
      exact iff_of_false (by simp) fun h => hlt (hfits.mpr (h.1 ▸ h.2))

end

/-- Whether a shifted division returns the quotient where it is one and fits a word, and refuses
otherwise. -/
def DivisionExact (x offset denom : Nat) : Prop :=
  ∀ v, shiftDivRoundDown x offset denom = .ok v ↔
    denom ≠ 0 ∧ v = x * 2 ^ offset / denom ∧ v < 2 ^ 256

theorem not_divisionExact (hlt : 2 ^ 255 < d) (hd : d < 2 ^ 256) :
    ¬ DivisionExact (2 ^ 255) 1 d := by
  intro h
  have hquotient : 1 = 2 ^ 255 * 2 ^ 1 / d :=
    (Nat.div_eq_of_lt_le (by omega) (by omega)).symm
  have hone := (h 1).mpr ⟨by omega, hquotient, by decide⟩
  have hrem := mulMod512_wraps (by omega) hlt
  obtain ⟨k, _, ⟨m, rfl⟩, rfl⟩ := exists_eq_two_pow_mul_odd (show d ≠ 0 by omega)
  have hk : k < 256 := by
    refine (Nat.pow_lt_pow_iff_right one_lt_two).mp (lt_of_le_of_lt ?_ hd)
    exact Nat.le_mul_of_pos_right _ (by omega)
  have hproduct : 2 ^ 255 * 2 ^ 1 - 0 = 2 ^ k * (2 * 2 ^ (255 - k)) := by
    rw [mul_left_comm, ← pow_add 2 k, Nat.add_sub_cancel' (by omega)]
    rfl
  rw [shiftDivRoundDown_eq (by decide) (by decide),
    getEndOfDivRoundDown_of_rem hd (by omega) (by decide) hrem (by decide), Except.ok.injEq, hproduct,
    Nat.mul_div_cancel_left _ (two_pow_pos k), mul_assoc] at hone
  -- the wrapped remainder leaves an even number
  omega

/-- The shifted division is right up to the denominator `2 ^ 255`, and above it for the dividends
that need no remainder; above it some other dividend is always divided wrongly. The shifted product
is right throughout. -/
theorem division_exact_of_inRegister {denom : Nat} (hdenom : denom < 2 ^ 256) :
    (∀ x offset, x < 2 ^ 256 → offset < 256 → InRegister (x * 2 ^ offset) denom →
      DivisionExact x offset denom) ∧
    (2 ^ 255 < denom → ¬ DivisionExact (2 ^ 255) 1 denom) ∧
    ∀ x y offset v : Nat, x < 2 ^ 256 → y < 2 ^ 256 → offset < 256 →
      (mulShiftRoundDown x y offset = .ok v ↔ v = x * y / 2 ^ offset ∧ v < 2 ^ 256) := by
  refine ⟨?_, fun hlt => not_divisionExact hlt hdenom,
    fun x y offset v hx hy ho => mulShiftRoundDown_ok hx hy ho⟩
  intro x offset hx ho hfits v
  rw [shiftDivRoundDown_eq (fun _ => hx) ho]
  exact getEndOfDivRoundDown_ok hfits fun _ => ⟨hx, Nat.pow_lt_pow_right Nat.one_lt_two ho⟩

/-- A dividend of one word by a denominator above `2 ^ 255`, and the largest product. -/
theorem division_exact_above :
    DivisionExact 5 0 (2 ^ 255 + 1) ∧
      mulShiftRoundDown (2 ^ 256 - 1) (2 ^ 256 - 1) 255 ≠ .ok 0 := by
  have h := division_exact_of_inRegister (show 2 ^ 255 + 1 < 2 ^ 256 by decide)
  refine ⟨h.1 5 0 (by decide) (by decide) (.inr (.inl (by decide))), fun hzero => ?_⟩
  exact absurd ((h.2.2 _ _ 255 0 (by decide) (by decide) (by decide)).mp hzero).1 (by decide)

/-- The quotient of `2 ^ 256` and `2 ^ 255 + 1` is one, and zero is returned. -/
theorem division_wraps :
    shiftDivRoundDown (2 ^ 255) 1 (2 ^ 255 + 1) = .ok 0 ∧
      2 ^ 255 * 2 ^ 1 / (2 ^ 255 + 1) = 1 ∧ ¬ DivisionExact (2 ^ 255) 1 (2 ^ 255 + 1) :=
  ⟨by decide +kernel, by decide, not_divisionExact (by decide) (by decide)⟩

/-! ### The six-decimal adapter -/

theorem coenIsoPrice_eq {p v : Nat} (h : coenIsoPriceTo128x128 p = .ok v) :
    v = p * 2 ^ 128 / 1000000 ∧ v < 2 ^ 256 := by
  rw [coenIsoPriceTo128x128, shiftDivRoundDown_eq (by omega) (by decide),
    getEndOfDivRoundDown_ok (.inl (by decide))] at h
  · exact h.2
  · -- a price of more than a word has a high word above the scale
    intro hlt
    rw [scale1e6] at hlt
    omega

/-! ### Bins -/

theorem clampId_mono {a b : Int} (h : a ≤ b) : clampId a ≤ clampId b := by
  rw [clampId, clampId]
  split
  · exact Nat.zero_le _
  · rw [if_neg (by omega)]
    omega

theorem i256SaturatingAdd_mono {a b : Int} (h : a ≤ b) (c : Int) :
    i256SaturatingAdd a c ≤ i256SaturatingAdd b c := by
  rw [i256SaturatingAdd, i256SaturatingAdd]
  omega

theorem getBase_bounds (h : binStep < 2 ^ 16) :
    2 ^ 128 ≤ getBase binStep ∧ getBase binStep < 2 ^ 256 := by
  rw [getBase, basisPointMax, shiftLeft_eq]
  omega

theorem getIdFromPrice_mono {x y binStep a b : Nat} (hx : 2 ≤ x) (hxy : x ≤ y) (hy : y < 2 ^ 256)
    (hstep : binStep < 2 ^ 16) (ha : getIdFromPrice x binStep = .ok a)
    (hb : getIdFromPrice y binStep = .ok b) : a ≤ b := by
  obtain ⟨u, v, hu, hv, huv⟩ := log2_mono hx hxy hy
  have hbase := getBase_bounds hstep
  simp only [getIdFromPrice, hu, hv, laws, Except.ok.injEq, ↓existsAndEq, true_and] at ha hb
  obtain ⟨base, hlog, _, hne, rfl⟩ := ha
  obtain ⟨base', hlog', _, -, rfl⟩ := hb
  obtain rfl : base = base' := Except.ok.inj (hlog.symm.trans hlog')
  have hnonneg := log2_nonneg hbase.1 hbase.2 hlog
  exact clampId_mono (i256SaturatingAdd_mono (Int.tdiv_le_tdiv (by omega) huv) _)

theorem binId_mono {binStep p q a b : Nat} (hstep : binStep < 2 ^ 16) (hp : 1 ≤ p) (hpq : p ≤ q)
    (ha : coenIsoPriceToBinId p binStep = .ok a) (hb : coenIsoPriceToBinId q binStep = .ok b) :
    a ≤ b := by
  simp only [coenIsoPriceToBinId, bind_eq_ok] at ha hb
  obtain ⟨x, hx, ha⟩ := ha
  obtain ⟨y, hy, hb⟩ := hb
  obtain ⟨rfl, -⟩ := coenIsoPrice_eq hx
  obtain ⟨rfl, hlt⟩ := coenIsoPrice_eq hy
  -- one unit of the six decimals is far above the special case of the logarithm
  have hunit : 2 ≤ p * 2 ^ 128 / 1000000 := by omega
  have hle : p * 2 ^ 128 / 1000000 ≤ q * 2 ^ 128 / 1000000 :=
    Nat.div_le_div_right (Nat.mul_le_mul_right _ hpq)
  exact getIdFromPrice_mono hunit hle hlt hstep ha hb

theorem binId_le {binStep p a : Nat} (h : coenIsoPriceToBinId p binStep = .ok a) :
    a ≤ BinTree.maxBinId := by
  simp only [coenIsoPriceToBinId, getIdFromPrice, laws] at h
  obtain ⟨_, -, _, -, _, -, _, -, rfl⟩ := h
  rw [clampId]
  split
  · exact Nat.zero_le _
  · exact min_le_right _ _

/-- A higher price is never in a lower bin, the logarithm never decreases from 2 up, and none of
its squares wraps. -/
theorem coenIsoPriceToBinId_mono :
    (∀ binStep p q a b : Nat, 1 ≤ binStep → binStep < 2 ^ 16 → 1 ≤ p → p ≤ q → q < 2 ^ 256 →
      coenIsoPriceToBinId p binStep = .ok a → coenIsoPriceToBinId q binStep = .ok b → a ≤ b) ∧
    (∀ x y : Nat, 2 ≤ x → x ≤ y → y < 2 ^ 256 → ∃ u v, log2 x = .ok u ∧ log2 y = .ok v ∧ u ≤ v) ∧
    (∀ x round : Nat, 2 ≤ x → x < 2 ^ 256 →
      logMantissaAt x round * logMantissaAt x round < 2 ^ 256) := by
  refine ⟨?_, fun x y hx hxy hy => log2_mono hx hxy hy, ?_⟩
  · intro binStep p q a b _ hstep hp hpq _ ha hb
    exact binId_mono hstep hp hpq ha hb
  · intro x round hx hlt
    have hbound := logMantissaAt_lt (logMantissa_bounds hx hlt).2 round
    calc logMantissaAt x round * logMantissaAt x round
        < 2 ^ 128 * 2 ^ 128 := Nat.mul_lt_mul'' hbound hbound
      _ = 2 ^ 256 := by rw [← pow_add]

/-- One COEN is in the centre bin of the quarter-percent ladder and two are above it; 1.0 is the
boundary of the inversion. -/
theorem coenIsoPriceToBinId_mono_one_two :
    8388608 ≤ 8388885 ∧ (∃ u v, log2 (2 ^ 128 - 2) = .ok u ∧ log2 (2 ^ 128) = .ok v ∧ u ≤ v) ∧
      logMantissaAt 3 0 * logMantissaAt 3 0 < 2 ^ 256 :=
  ⟨coenIsoPriceToBinId_mono.1 25 1000000 2000000 8388608 8388885 (by decide) (by decide)
      (by decide) (by decide) (by decide) (by decide +kernel) (by decide +kernel),
    coenIsoPriceToBinId_mono.2.1 (2 ^ 128 - 2) (2 ^ 128) (by decide) (by decide) (by decide),
    coenIsoPriceToBinId_mono.2.2 3 0 (by decide) (by decide)⟩

end Rudis.PriceMath

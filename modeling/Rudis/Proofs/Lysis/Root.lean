import Rudis.Spec.Lysis.Algorithm

/-!
# `Rudis.Proofs.Lysis.Root`: the fixed-point root is exact

The test of a round is exact although it may stop at a partial power (`midTooBig_iff`), so the
search keeps its two ends around the greatest root (`isGreatest_rootSearch`), and neither the first
upper end nor the 1024 bits cut anything off (`fpRoot_isGreatest`).
-/

namespace Rudis.Lysis

variable {q target limit mid lo hi : Nat}

/-- A power that is left early is above the limit, as all its later ones are. -/
theorem partialPower_cases (hmid : 1 ≤ mid) (hlimit : limit < 2 ^ 1024) (rounds power : Nat) :
    partialPower mid limit rounds power = some (power * mid ^ rounds) ∨
      partialPower mid limit rounds power = none ∧ limit < power * mid ^ rounds := by
  induction rounds generalizing power with
  | zero => simp [partialPower]
  | succ rounds ih =>
    rw [partialPower, pow_succ' mid, ← mul_assoc]
    split
    · have hle := Nat.le_mul_of_pos_right (power * mid) (Nat.pow_pos hmid : 0 < mid ^ rounds)
      exact .inr ⟨rfl, by omega⟩
    · exact ih _

theorem midTooBig_iff (hq : q ≠ 0) (hmid : 1 ≤ mid) (hle : target ≤ limit)
    (hlimit : limit < 2 ^ 1024) : midTooBig q target limit mid = true ↔ target < mid ^ q := by
  have hpow : mid * mid ^ (q - 1) = mid ^ q := mul_pow_sub_one hq mid
  unfold midTooBig
  rcases partialPower_cases hmid hlimit (q - 1) mid with h | ⟨h, hlt⟩
  · simp [h, hpow]
  · rw [h]
    simpa using hle.trans_lt (hpow ▸ hlt)

/-- The search ends at the greatest root when its interval starts around it. -/
theorem isGreatest_rootSearch (hq : q ≠ 0) (hle : target ≤ limit) (hlimit : limit < 2 ^ 1024)
    {fuel : Nat} (hfuel : hi - lo < 2 ^ fuel) (hpos : 1 ≤ lo) (hlo : lo ^ q ≤ target)
    (hhi : ∀ y, y ^ q ≤ target → y ≤ hi) :
    IsGreatest {y | y ^ q ≤ target} (rootSearch q target limit fuel lo hi) := by
  induction fuel generalizing lo hi with
  | zero =>
    show IsGreatest _ lo
    exact ⟨hlo, fun y hy => (hhi y hy).trans (by omega)⟩
  | succ fuel ih =>
    rw [pow_succ] at hfuel
    rw [rootSearch]
    split
    · have hmid : midTooBig q target limit (lo + (hi - lo + 1) / 2) = true ↔ _ :=
        midTooBig_iff hq (by omega) hle hlimit
      dsimp only
      split
      · rename_i hbig
        refine ih (by omega) hpos hlo fun y hy => ?_
        have hlt : ¬ lo + (hi - lo + 1) / 2 ≤ y := fun h =>
          absurd (Nat.pow_le_pow_left h q) (not_le.mpr (hy.trans_lt (hmid.mp hbig)))
        omega
      · rename_i hsmall
        exact ih (by omega) (by omega) (not_lt.mp fun h => hsmall (hmid.mpr h)) hhi
    · exact ⟨hlo, fun y hy => (hhi y hy).trans (by omega)⟩

theorem target_eq {e : PrecompileError} {l : List Nat} {x : Nat}
    (h : x * scale ^ l.length < 2 ^ 1024) :
    l.foldlM (fun target _ => okOr (checkedMul 1024 target scale) e) x =
      .ok (x * scale ^ l.length) := by
  induction l generalizing x with
  | nil => simp [pure, Except.pure]
  | cons a l ih =>
    rw [List.length_cons, pow_succ', ← mul_assoc] at h ⊢
    have hstep : x * scale < 2 ^ 1024 :=
      (Nat.le_mul_of_pos_right _ (Nat.pow_pos (by decide))).trans_lt h
    rw [List.foldlM_cons, checkedMul, if_pos hstep]
    exact ih h

theorem isGreatest_pow (hq : q ≠ 0) (r : Nat) : IsGreatest {y | y ^ q ≤ r ^ q} r :=
  ⟨le_refl (r ^ q), fun _ hy => (Nat.pow_le_pow_iff_left hq).mp hy⟩

/-- The root of every 256-bit number is returned, and it is the greatest integer whose power is
not above the scaled number. -/
theorem fpRoot_isGreatest (x q : Nat) (hx : x < 2 ^ 256) (hq : q = 5 ∨ q = 10) :
    ∃ y, fpRoot x q = .ok y ∧ IsGreatest {y | y ^ q ≤ x * scale ^ (q - 1)} y := by
  have hq0 : q ≠ 0 := by omega
  rw [fpRoot]
  by_cases hzero : x = 0
  · refine ⟨0, if_pos hzero, ?_⟩
    simpa only [hzero, zero_mul, zero_pow hq0] using isGreatest_pow hq0 0
  by_cases hone : x = scale
  · refine ⟨scale, (if_neg hzero).trans (if_pos hone), ?_⟩
    rw [hone, mul_pow_sub_one hq0]
    exact isGreatest_pow hq0 scale
  have hscale : scale ^ (q - 1) ≤ 2 ^ 200 := by rcases hq with rfl | rfl <;> decide
  have hfits : x * scale ^ (q - 1) ≤ 2 ^ 256 * 2 ^ 200 := Nat.mul_le_mul hx.le hscale
  have hhi : ∀ y, y ^ q ≤ x * scale ^ (q - 1) → y ≤ max x scale := by
    intro y hy
    refine (isGreatest_pow hq0 (max x scale)).2 (hy.trans ?_)
    rw [← mul_pow_sub_one hq0]
    exact Nat.mul_le_mul (le_max_left _ _) (Nat.pow_le_pow_left (le_max_right _ _) _)
  have hmax : max x scale < 2 ^ 256 := max_lt hx (by decide)
  have hroot : IsGreatest {y | y ^ q ≤ x * scale ^ (q - 1)} (rootSearch q (x * scale ^ (q - 1))
      (min (x * scale ^ (q - 1) * 2) (2 ^ 1024 - 1)) 256 1 (max x scale)) :=
    isGreatest_rootSearch hq0 (by omega) (by omega) (by omega) le_rfl
      (by rw [one_pow]; exact Nat.mul_pos (by omega) (Nat.pow_pos (by decide))) hhi
  refine ⟨_, ?_, hroot⟩
  rw [if_neg hzero, if_neg hone, target_eq (by rw [List.length_range]; omega), List.length_range]
  have hlt := (hhi _ hroot.1).trans_lt hmax
  show (throwIf (_ ≥ 2 ^ 256) _ >>= fun _ => _) = _
  rw [throwIf, if_neg (not_le.mpr hlt)]
  rfl

theorem fpRoot_isGreatest_two :
    ∃ y, fpRoot 2 5 = .ok y ∧ IsGreatest {y | y ^ 5 ≤ 2 * scale ^ 4} y :=
  fpRoot_isGreatest 2 5 (by decide) (.inl rfl)

end Rudis.Lysis

import Mathlib.Order.Iterate
import Rudis.Spec.Oracle.Scurve

/-!
# `Rudis.Proofs.Oracle.Scurve`: the S-curve decays and joins its segments

Up to a factor of one the product is exact (`mulScale1e6_eq`), so the anchor of a segment is an
iterate of `decay` and the value of a day is its anchor scaled once more (`computeScurveValue_eq`).
The last factor of a segment is the one that carries the anchor on: two segments join there
(`computeScurveValue_join`), and inside one the factors fall.
-/

namespace Rudis.Oracle

open Function (iterate_fixed iterate_le_id_of_le_id iterate_succ_apply iterate_succ_apply')

/-- The exact product with a factor. -/
def scaled (factor value : Nat) : Nat := value * factor / scale1e6

variable {anchor f f' factor v v' value : Nat}

theorem scaled_le (hf : factor ≤ scale1e6) (value : Nat) : scaled factor value ≤ value := by
  refine Nat.div_le_of_le_mul ?_
  rw [Nat.mul_comm]
  exact Nat.mul_le_mul_right value hf

theorem scaled_mono (hf : f ≤ f') (hv : v ≤ v') : scaled f v ≤ scaled f' v' :=
  Nat.div_le_div_right (Nat.mul_le_mul hv hf)

/-- The partial products add up to the whole one. -/
theorem parts_eq_scaled (value factor : Nat) :
    value / scale1e6 * factor + value % scale1e6 * factor / scale1e6 = scaled factor value := by
  have hsplit : value * factor =
      value % scale1e6 * factor + scale1e6 * (value / scale1e6 * factor) := by
    rw [← Nat.mul_assoc, ← Nat.add_mul, Nat.mod_add_div]
  rw [scaled, hsplit, Nat.add_mul_div_left _ _ (by decide), Nat.add_comm]

/-- Up to a factor of one nothing wraps. -/
theorem mulScale1e6_eq (hv : value < 2 ^ 256) (hf : factor ≤ scale1e6) :
    value % scale1e6 * factor < 2 ^ 256 ∧ mulScale1e6 value factor = scaled factor value := by
  have hparts := parts_eq_scaled value factor
  have hsum := hparts.le.trans (scaled_le hf _)
  have hrest : value % scale1e6 * factor < 2 ^ 256 := by
    have := Nat.mul_le_mul (mod_lt value (show scale1e6 > 0 by decide)).le hf
    exact this.trans_lt (by decide)
  refine ⟨hrest, ?_⟩
  simp only [mulScale1e6]
  rw [wrappingMul_eq hrest, wrappingMul_eq ((Nat.le_add_right _ _).trans_lt (hsum.trans_lt hv)),
    wrappingAdd_eq (hsum.trans_lt hv), hparts]

/-- The factor of a day of a segment. -/
def coefficient (offset : Nat) : Nat := coefficients.getD offset 0

theorem coefficient_succ_le : ∀ offset < period, coefficient (offset + 1) ≤ coefficient offset := by
  decide

theorem coefficient_le : ∀ offset < period, coefficient offset ≤ scale1e6 := by
  decide

/-- From the anchor of a segment to that of the next. -/
def decay : Nat → Nat := scaled (coefficient (period - 1))

theorem decay_le (anchor : Nat) : decay anchor ≤ anchor := scaled_le (by decide) anchor

theorem anchorAfter_eq (periods : Nat) (h : anchor < 2 ^ 256) :
    anchorAfter periods anchor = decay^[periods] anchor := by
  induction periods generalizing anchor with
  | zero => rfl
  | succ periods ih =>
    have hstep : mulScale1e6 anchor (coefficients.getD (period - 1) 0) = decay anchor :=
      (mulScale1e6_eq h (by decide)).2
    rw [anchorAfter, hstep, iterate_succ_apply]
    split
    · rename_i hzero
      -- nothing is left to decay
      rw [hzero, iterate_fixed (show decay 0 = 0 by decide)]
    · exact ih ((decay_le anchor).trans_lt h)

section

variable {peak : Nat} (hpeak : peak < 2 ^ 256)

include hpeak

theorem computeScurveValue_eq (day : Nat) : computeScurveValue peak day =
    scaled (coefficient (day % period)) (decay^[day / period] peak) := by
  rw [computeScurveValue, anchorAfter_eq _ hpeak]
  refine (mulScale1e6_eq ?_ (coefficient_le _ (mod_lt day (by decide)))).2
  exact (iterate_le_id_of_le_id decay_le _ _).trans_lt hpeak

theorem computeScurveValue_zero : computeScurveValue peak 0 = peak := by
  rw [computeScurveValue_eq hpeak]
  exact Nat.mul_div_cancel peak (by decide)

/-- The last day of a segment has the value of the first day of the next. -/
theorem computeScurveValue_join (k : Nat) :
    computeScurveValue peak (period * k + 127) = computeScurveValue peak (period * (k + 1)) := by
  have hlast : (period * k + 127) / period = k ∧ (period * k + 127) % period = period - 1 := by
    simp only [period]
    omega
  rw [computeScurveValue_eq hpeak, computeScurveValue_eq hpeak, hlast.1, hlast.2,
    Nat.mul_div_cancel_left _ (by decide), Nat.mul_mod_right, iterate_succ_apply']
  exact (Nat.mul_div_cancel _ (by decide)).symm

theorem computeScurveValue_antitone : Antitone (computeScurveValue peak) := by
  refine antitone_nat_of_succ_le fun day => ?_
  by_cases hlast : day % period = period - 1
  · obtain ⟨hday, hnext⟩ : day = period * (day / period) + 127 ∧
        day + 1 = period * (day / period + 1) := by
      simp only [period] at *
      omega
    rw [hnext, ← computeScurveValue_join hpeak, ← hday]
  · have hsame : (day + 1) / period = day / period ∧ (day + 1) % period = day % period + 1 := by
      simp only [period] at *
      omega
    rw [computeScurveValue_eq hpeak, computeScurveValue_eq hpeak, hsame.1, hsame.2]
    exact scaled_mono (coefficient_succ_le _ (mod_lt day (by decide))) le_rfl

/-- The value starts at the peak, never rises, grows with the peak and has no jump between
segments; the product it is made of is the exact floor. -/
theorem scurve_decays :
    (∀ d e, d ≤ e → computeScurveValue peak e ≤ computeScurveValue peak d ∧
      computeScurveValue peak d ≤ peak) ∧
    computeScurveValue peak 0 = peak ∧
    (∀ lower d, lower ≤ peak → computeScurveValue lower d ≤ computeScurveValue peak d) ∧
    (∀ factor ≤ scale1e6, mulScale1e6 peak factor = peak * factor / scale1e6 ∧
      peak % scale1e6 * factor < 2 ^ 256 ∧
      peak / scale1e6 * factor + peak % scale1e6 * factor / scale1e6 < 2 ^ 256) ∧
    ∀ k ≥ 1, computeScurveValue peak (128 * k) = computeScurveValue peak (128 * k - 1) := by
  have hanti := computeScurveValue_antitone hpeak
  have hzero := computeScurveValue_zero hpeak
  refine ⟨fun d e hde => ⟨hanti hde, (hanti (Nat.zero_le d)).trans_eq hzero⟩, hzero, ?_, ?_, ?_⟩
  · intro lower d hle
    rw [computeScurveValue_eq hpeak, computeScurveValue_eq (hle.trans_lt hpeak)]
    have hmono : Monotone decay := fun _ _ h => scaled_mono le_rfl h
    exact scaled_mono le_rfl (hmono.iterate _ hle)
  · intro factor hf
    obtain ⟨hrest, heq⟩ := mulScale1e6_eq hpeak hf
    refine ⟨heq, hrest, ?_⟩
    rw [parts_eq_scaled]
    exact (scaled_le hf peak).trans_lt hpeak
  · intro k hk
    obtain ⟨k, rfl⟩ := Nat.exists_eq_add_of_le' hk
    exact (computeScurveValue_join hpeak k).symm

end

/-- The largest price, over the first two segments. -/
theorem scurve_decays_largest :
    computeScurveValue (2 ^ 256 - 1) 129 ≤ computeScurveValue (2 ^ 256 - 1) 127 :=
  ((scurve_decays (show 2 ^ 256 - 1 < 2 ^ 256 by decide)).1 127 129 (by decide)).1

end Rudis.Oracle

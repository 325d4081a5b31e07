import Mathlib.Algebra.BigOperators.Ring.List
import Rudis.Proofs.Lysis.Sequential

/-!
# `Rudis.Proofs.Lysis.Budget`: when the fractions overspend the allocation

The code compares sums of floors with its budgets. The curve of fractions scales down when the sum of
the leagues' floors passes the target; what the floors drop is spent on top, less than one unit a
league (`curve_spends`). The fraction map scales down once more, by allocation over projection, when
the projection of the leagues' totals passes the allocation; the scaled fractions are floored again
and their loads are not projected a second time.

Both budgets hold where one league has all the interest, and where the target rounds down to zero:
then nothing is dropped and nothing is scaled (`projected_le`), and the program never reports an
overspend (`execute_avoids`). `overspendingInput` has two leagues; it passes both budgets by one
unit, and the whole program fails on it.
-/

namespace Rudis.Lysis

open List Nat
open SortedMap
open Except (Avoids)

/-! ### The budget of the curve -/

/-- What each league spends of the scale, `f1[i] * y_fp[i]`. -/
def weighted (f1 yFp : List Nat) : List Nat := (f1.zip yFp).map fun p => p.1 * p.2

variable (l : List Nat)

/-- What the floors of the leagues drop. -/
def dropped : Nat := (l.map (· % scale)).sum

theorem sum_eq_floors : l.sum = scale * (l.map (· / scale)).sum + dropped l := by
  induction l with
  | nil => rfl
  | cons x l ih =>
    have hx := div_add_mod x scale
    simp only [dropped, map_cons, sum_cons, mul_add] at ih ⊢
    omega

theorem dropped_eq_zero (h : ∀ x ∈ l, scale ∣ x) : dropped l = 0 := by
  refine sum_eq_zero_iff.mpr (forall_mem_map.mpr fun x hx => ?_)
  exact Nat.mod_eq_zero_of_dvd (h x hx)

theorem dropped_le : dropped l + l.length ≤ scale * l.length := by
  induction l with
  | nil => simp [dropped]
  | cons x l ih =>
    have hx := mod_lt x (show 0 < scale by decide)
    simp only [dropped, map_cons, sum_cons, length_cons, mul_succ] at ih ⊢
    omega

theorem weighted_sum_le {bound : Nat} {f1 yFp : List Nat} (hlen : f1.length = yFp.length)
    (h : ∀ f ∈ f1, f ≤ bound) : (weighted f1 yFp).sum ≤ bound * yFp.sum := by
  have hle : (weighted f1 yFp).sum ≤ ((f1.zip yFp).map fun p => bound * p.2).sum :=
    sum_le_sum fun p hp => Nat.mul_le_mul_right p.2 (h p.1 (of_mem_zip hp).1)
  rwa [sum_map_mul_left, map_snd_zip hlen.ge] at hle

/-- Scaling down by `f / total` scales what is spent. -/
theorem weighted_rescaled_le (f total : Nat) {f1 yFp : List Nat} :
    (weighted (f1.map fun g => g * f / total) yFp).sum * total ≤ (weighted f1 yFp).sum * f := by
  unfold weighted
  rw [zip_map_left, map_map, ← sum_map_mul_right, ← sum_map_mul_right]
  refine sum_le_sum fun p _ => ?_
  show p.1 * f / total * p.2 * total ≤ p.1 * p.2 * f
  rw [Nat.mul_right_comm, Nat.mul_right_comm p.1 p.2]
  exact Nat.mul_le_mul_right p.2 (div_mul_le_self _ total)

/-- The last division by the scale keeps a raw fraction far from its word. -/
theorem rawFraction_le {moments : MomentsFp} {eyI betaNum betaDen fmaxI : Int} {i r : Nat}
    (h : rawFraction moments eyI betaNum betaDen fmaxI i = .ok r) : r ≤ 2 ^ 255 / scale := by
  simp only [rawFraction, laws] at h
  obtain ⟨sum, -, rfl⟩ := h
  have hword : i256 (fmaxI * sum) < 2 ^ 255 := Int.bmod_lt (by decide)
  generalize i256 (fmaxI * sum) = x at hword
  rcases Int.le_total 0 x with hx | hx
  · rw [Int.tdiv_eq_ediv_of_nonneg hx, scale]
    omega
  · have hneg : 0 ≤ (-x).tdiv scale := Int.tdiv_nonneg (by omega) (by decide)
    rw [Int.neg_tdiv] at hneg
    rw [Int.toNat_of_nonpos (by omega)]
    exact Nat.zero_le _

/-- What is spent once the code has compared the floors with the target. -/
def enforced (yFp : List Nat) (f : Nat) (raw : List Nat) : List Nat :=
  if ((weighted raw yFp).map (· / scale)).sum > f then
    raw.map fun g => g * f / ((weighted raw yFp).map (· / scale)).sum
  else raw

/-- What is spent passes the target by no more than the floors of the raw fractions drop. -/
theorem enforced_spends (yFp raw : List Nat) (f : Nat) :
    (weighted (enforced yFp f raw) yFp).sum ≤ scale * f + dropped (weighted raw yFp) := by
  have hsum := sum_eq_floors (weighted raw yFp)
  unfold enforced
  generalize ((weighted raw yFp).map (· / scale)).sum = total at *
  split
  · -- The dropped parts are scaled down with the rest.
    rename_i hgt
    have hscaled := @weighted_rescaled_le f total raw yFp
    have hcut := Nat.mul_le_mul_left (dropped (weighted raw yFp)) hgt.le
    refine Nat.le_of_mul_le_mul_right ?_ (show 0 < total by omega)
    rw [hsum, add_mul, Nat.mul_right_comm] at hscaled
    rw [add_mul]
    omega
  · rename_i hle
    have := Nat.mul_le_mul_left scale (not_lt.mp hle)
    omega

section Curve

variable {yFp p f1 : List Nat} {nt f fmax : Nat}

/-- The curve enforces its target on raw fractions, one a league. -/
theorem calcFractionDistributionFp_eq (hp : p ≠ []) (hlen : yFp.length = p.length)
    (hy : yFp.sum = scale) (hf : f ≤ scale)
    (h : calcFractionDistributionFp yFp p nt f fmax = .ok f1) :
    ∃ raw, raw.length = yFp.length ∧ f1 = enforced yFp f raw := by
  have hempty : p.isEmpty = false := by simpa using hp
  by_cases hone : p.length = 1
  · -- A single league is given the target itself.
    obtain ⟨y, rfl⟩ := length_eq_one_iff.mp (hlen.trans hone)
    obtain rfl : y = scale := by simpa using hy
    obtain rfl : f1 = [f] := by simpa [calcFractionDistributionFp, hempty, hone] using h
    exact ⟨[f], rfl, by simp [enforced, weighted, Nat.mul_div_cancel f (show 0 < scale by decide)]⟩
  simp only [calcFractionDistributionFp, hempty, hone, if_false, laws, Bool.false_eq_true] at h
  obtain ⟨tau, -, eyI, -, fI, -, betaDen, -, fmaxI, -, raw, hraw, h⟩ := h
  have hall := mapM_eq_ok.mp hraw
  have hle : ∀ r ∈ raw, r ≤ 2 ^ 255 / scale := by
    intro r hr
    obtain ⟨i, rfl⟩ := get_of_mem hr
    exact rawFraction_le (hall.get (hall.length_eq.symm ▸ i.2) i.2)
  have hlen : raw.length = yFp.length := by simpa using hall.length_eq.symm
  refine ⟨raw, hlen, ?_⟩
  -- No product and no sum leaves its word.
  have hword : ∀ r ∈ raw, ∀ y ≤ scale, r * y < 2 ^ 256 := fun r hr y hyle =>
    (Nat.mul_le_mul (hle r hr) hyle).trans_lt (by decide)
  have hfloors : sum256 (raw.zipWith (fun f y => wrappingMul 256 f y / scale) yFp) =
      ((weighted raw yFp).map (· / scale)).sum := by
    have hsum := sum_eq_floors (weighted raw yFp)
    have hspent := weighted_sum_le hlen hle
    rw [hy] at hspent
    have hproducts : raw.zipWith (fun f y => wrappingMul 256 f y / scale) yFp =
        (weighted raw yFp).map (· / scale) := by
      rw [weighted, map_map, ← map_uncurry_zip_eq_zipWith]
      refine map_congr_left fun p hmem => ?_
      have hp := of_mem_zip hmem
      exact congrArg (· / scale) (wrappingMul_eq (hword _ hp.1 _ (hy ▸ le_sum_of_mem hp.2)))
    rw [sum256, hproducts, foldl_wrappingAdd, zero_add]
    unfold scale at *
    omega
  rw [hfloors] at h
  unfold enforced
  split at h
  · rename_i hgt
    rw [if_pos hgt, pure_eq_ok.mp h]
    refine map_congr_left fun r hr => ?_
    rw [wrappingMul_eq (hword r hr f hf)]
  · rename_i hgt
    rw [if_neg hgt, pure_eq_ok.mp h]

/-- Without a target and a limit every fraction is zero. -/
theorem calcFractionDistributionFp_zero (h : calcFractionDistributionFp yFp p nt 0 0 = .ok f1) :
    ∀ r ∈ f1, r = 0 := by
  unfold calcFractionDistributionFp at h
  split at h
  · cases h
    simp
  split at h
  · cases h
    simp
  simp only [laws] at h
  obtain ⟨tau, -, eyI, -, fI, -, betaDen, -, fmaxI, hfmax, raw, hraw, h⟩ := h
  obtain rfl : fmaxI = 0 := by simpa [u256ToI256, laws] using hfmax
  have hall := mapM_eq_ok.mp hraw
  have hzero : ∀ r ∈ raw, r = 0 := by
    intro r hr
    obtain ⟨i, rfl⟩ := get_of_mem hr
    have hget := hall.get (hall.length_eq.symm ▸ i.2) i.2
    simp only [rawFraction, laws] at hget
    obtain ⟨sum, -, hsum⟩ := hget
    simpa [i256] using hsum
  split at h
  · rw [pure_eq_ok.mp h]
    simp [wrappingMul]
  · exact pure_eq_ok.mp h ▸ hzero

/-- Where one league has all the interest no floor drops anything. -/
theorem weighted_le_of_dvd (hp : p ≠ []) (hlen : yFp.length = p.length) (hy : yFp.sum = scale)
    (hf : f ≤ scale) (hdvd : ∀ y ∈ yFp, scale ∣ y)
    (h : calcFractionDistributionFp yFp p nt f fmax = .ok f1) :
    (weighted f1 yFp).sum ≤ scale * f := by
  obtain ⟨raw, -, rfl⟩ := calcFractionDistributionFp_eq hp hlen hy hf h
  have hspends := enforced_spends yFp raw f
  rwa [dropped_eq_zero, add_zero] at hspends
  exact forall_mem_map.mpr fun x hx => Dvd.dvd.mul_left (hdvd _ (of_mem_zip hx).2) _

/-- What the curve spends passes the target by less than one unit a league. It stays within the
target where one league has all the interest, and where the target is zero. -/
theorem curve_spends (hp : p ≠ []) (hlen : yFp.length = p.length) (hy : yFp.sum = scale)
    (hf : f ≤ scale) (h : calcFractionDistributionFp yFp p nt f fmax = .ok f1) :
    (weighted f1 yFp).sum / scale ≤ f + (p.length - 1)
      ∧ ((∀ y ∈ yFp, scale ∣ y) ∨ f = 0 ∧ fmax = 0 → (weighted f1 yFp).sum / scale ≤ f) := by
  constructor
  · obtain ⟨raw, hraw, rfl⟩ := calcFractionDistributionFp_eq hp hlen hy hf h
    have hspends := enforced_spends yFp raw f
    have hdropped := dropped_le (weighted raw yFp)
    have hpos := length_pos_of_ne_nil hp
    have hn : (weighted raw yFp).length = p.length := by
      rw [weighted, length_map, length_zip, hraw, Nat.min_self, hlen]
    rw [hn] at hdropped
    refine le_of_lt_succ (Nat.div_lt_of_lt_mul ?_)
    rw [show succ (f + (p.length - 1)) = f + p.length by omega, mul_add]
    omega
  · rintro (hdvd | ⟨rfl, rfl⟩)
    · exact Nat.div_le_of_le_mul (weighted_le_of_dvd hp hlen hy hf hdvd h)
    · have hzero : (weighted f1 yFp).sum = 0 := by
        refine sum_eq_zero_iff.mpr (forall_mem_map.mpr fun x hx => ?_)
        rw [calcFractionDistributionFp_zero h _ (of_mem_zip hx).1, zero_mul]
      rw [hzero, Nat.zero_div]

end Curve

theorem curve_spends_one : (weighted [911877] [scale]).sum / scale ≤ 911877 :=
  have hcurve : calcFractionDistributionFp [scale] [2] 2 911877 1823754 = .ok [911877] := rfl
  (curve_spends (by decide) (by decide) (by decide) (by decide) hcurve).2 (.inl (by decide))

/-- The distribution of the two leagues, stage by stage. -/
theorem overspending_distribution :
    calcFractionDistributionFp [504583, 495417] [1, 1] 2 911877 1823754
      = .ok [1463444, 350109] := by
  simp only [calcFractionDistributionFp, isEmpty_cons, Bool.false_eq_true, if_false,
    length_cons, length_nil, reduceAdd, OfNat.ofNat_ne_one, bind_eq_ok]
  exact ⟨[174110, 870550, 696440], by decide +kernel, 652291, by decide +kernel,
    500000, by decide +kernel, 101819, by decide +kernel, 1823754, by decide +kernel,
    [1463444, 350109], by decide +kernel, by decide +kernel⟩

/-- The two leagues' shares sum to the scale and the limit is twice the target, and still one unit
more than the target is spent. -/
theorem curve_passes_target : [504583, 495417].sum = scale ∧ 911877 ≤ scale ∧
    ∃ f1, calcFractionDistributionFp [504583, 495417] [1, 1] 2 911877 (2 * 911877) = .ok f1 ∧
      (weighted f1 [504583, 495417]).sum / scale = 911877 + 1 :=
  ⟨rfl, by decide, _, overspending_distribution, by decide⟩

/-! ### What is not scaled down -/

/-- The target rounds down to zero, or one league has all the interest. -/
def Unscaled (nominals leagues : List Nat) (allocation : Nat) : Prop :=
  allocation * scale < nominals.sum ∨
    ∃ league, ∀ x ∈ leagues.zip nominals, x.1 = league ∨ x.2 = 0

/-- The share of each league before the last one takes up the rest. -/
def sharesOf (groups : Groups) (total : Nat) : List Nat :=
  groups.entries.map fun e => e.2.2 * scale / total

section Map

variable {nominals leagues raw : List Nat} {groups : Groups} {count total allocation projected : Nat}
  {fractions : SortedMap Nat Nat}

theorem distributedFractions_eq (h : distributedFractions groups count total allocation = .ok raw) :
    total ≠ 0 ∧ ∃ shares, completeShares (sharesOf groups total) (sharesOf groups total).sum
        = .ok shares
      ∧ calcFractionDistributionFp shares (groups.entries.map (·.2.1)) count
        (allocation * scale / total) (allocation * scale / total * 2) = .ok raw := by
  simp only [distributedFractions, laws, mapError_eq_ok, scaledFloor_eq_ok, checkedMul_eq_some] at h
  obtain ⟨shares, hshares, sum, hsum, done, hdone, _, ⟨hne, -, rfl⟩, _, ⟨-, rfl⟩, hraw⟩ := h
  obtain rfl := ((Except.mapM_eq_ok_map fun a b hab => (scaledFloor_eq_ok.mp hab).2.2).mp hshares).1
  obtain rfl : sum = (sharesOf groups total).sum := by
    simpa [sharesOf] using ((foldlM_checkedAdd id _ _ (by decide)).mp hsum).2
  exact ⟨hne, done, hdone, hraw⟩

/-- Where one league has all the interest, every league has all of it or none. -/
theorem groups_of_one (hlen : leagues.length = nominals.length)
    (hgroups : leagueGroups nominals leagues = .ok groups) {league : Nat}
    (hone : ∀ x ∈ leagues.zip nominals, x.1 = league ∨ x.2 = 0) :
    (groups.entries.map (·.2.2)).sum = nominals.sum ∧
      ∀ e ∈ groups.entries, e.2.2 = 0 ∨ e.2.2 = nominals.sum := by
  obtain rfl := leagueGroups_eq hgroups
  generalize hitems : (leagues.zip nominals).map (fun x => groupItem x.1 x.2) = items
  have hmem : ∀ x ∈ items, x.1 = league ∨ x.2.2 = 0 := by
    rw [← hitems]
    exact forall_mem_map.mpr hone
  have hsum : ((group items).entries.map (·.2.2)).sum = nominals.sum := by
    refine (sum_group (f := fun _ v => v.2) (fun _ => rfl) items fun _ _ _ => rfl).trans ?_
    rw [← hitems, map_map]
    exact congrArg List.sum (map_snd_zip hlen.ge)
  -- What the other leagues have adds up to zero.
  have hothers := sum_group (f := fun k v => if k = league then 0 else v.2)
    (fun _ => ite_self _) items fun k a b => by split <;> rfl
  rw [sum_eq_zero_iff.mpr (forall_mem_map.mpr fun x hx => ite_eq_left_iff.mpr
    (hmem x hx).resolve_left)] at hothers
  rw [← hsum]
  refine ⟨rfl, eq_zero_or_eq_sum (f := fun _ v => v.2) (k := league) (group items).sorted ?_⟩
  intro e he
  have h := forall_mem_map.mp (sum_eq_zero_iff.mp hothers) e he
  exact Classical.or_iff_not_imp_left.mpr (ite_eq_left_iff.mp h)

/-- Fractions that spend within the target of exact shares project within the allocation. The unit
is a variable, so that nothing computes with the scale. -/
theorem floors_le {items : List (Nat × (Nat × Nat))} {unit : Nat} (hpos : 0 < unit)
    (hexact : ∀ e ∈ items, total * (e.2.2 * unit / total) = e.2.2 * unit)
    (hspent : (weighted raw (items.map fun e => e.2.2 * unit / total)).sum
      ≤ unit * (allocation * unit / total)) :
    ((items.zip raw).map fun x => x.1.2.2 * x.2 / unit).sum ≤ allocation := by
  have hweighted : total * (weighted raw (items.map fun e => e.2.2 * unit / total)).sum
      = unit * ((items.zip raw).map fun x => x.1.2.2 * x.2).sum := by
    rw [weighted, zip_map_right, map_map, ← zip_swap, map_map, ← sum_map_mul_left,
      ← sum_map_mul_left]
    refine congrArg List.sum (map_congr_left fun x hx => ?_)
    show total * (x.2 * (x.1.2.2 * unit / total)) = unit * (x.1.2.2 * x.2)
    rw [Nat.mul_left_comm, hexact _ (of_mem_zip hx).1, ← mul_assoc, mul_comm, mul_comm x.2]
  have hfloors : unit * ((items.zip raw).map fun x => x.1.2.2 * x.2 / unit).sum
      ≤ ((items.zip raw).map fun x => x.1.2.2 * x.2).sum := by
    rw [← sum_map_mul_left]
    exact sum_le_sum fun x _ => Nat.mul_div_le _ _
  refine Nat.le_of_mul_le_mul_left ?_ (Nat.mul_pos hpos hpos)
  calc unit * unit * _ ≤ unit * ((items.zip raw).map fun x => x.1.2.2 * x.2).sum := by
        rw [mul_assoc]
        exact Nat.mul_le_mul_left _ hfloors
    _ = total * (weighted raw (items.map fun e => e.2.2 * unit / total)).sum := hweighted.symm
    _ ≤ total * (unit * (allocation * unit / total)) := Nat.mul_le_mul_left _ hspent
    _ = unit * (total * (allocation * unit / total)) := Nat.mul_left_comm _ _ _
    _ ≤ unit * (allocation * unit) := Nat.mul_le_mul_left _ (Nat.mul_div_le _ _)
    _ = unit * unit * allocation := by rw [mul_comm allocation, mul_assoc]

/-- The projection of unscaled fractions is within the allocation. -/
theorem projected_le (hlen : leagues.length = nominals.length) (hle : allocation ≤ nominals.sum)
    (hunscaled : Unscaled nominals leagues allocation)
    (hgroups : leagueGroups nominals leagues = .ok groups)
    (hraw : distributedFractions groups count nominals.sum allocation = .ok raw)
    (hprojected : projectedGratis groups raw = .ok projected) : projected ≤ allocation := by
  obtain ⟨hne, shares, hshares, hcurve⟩ := distributedFractions_eq hraw
  rw [projectedGratis_eq_sum_zip _ _ _ hprojected, zero_add]
  rcases hunscaled with hzero | ⟨league, hone⟩
  · -- Without a target every load is zero.
    rw [Nat.div_eq_of_lt hzero] at hcurve
    have hloads : ((groups.entries.zip raw).map fun x => x.1.2.2 * x.2 / scale).sum = 0 := by
      refine sum_eq_zero_iff.mpr (forall_mem_map.mpr fun x hx => ?_)
      rw [calcFractionDistributionFp_zero hcurve _ (of_mem_zip hx).2, mul_zero, Nat.zero_div]
    exact hloads ▸ Nat.zero_le _
  · obtain ⟨hsum, htotal⟩ := groups_of_one hlen hgroups hone
    generalize nominals.sum = total at *
    have hpos : 0 < total := Nat.pos_of_ne_zero hne
    have hexact : ∀ e ∈ groups.entries, total * (e.2.2 * scale / total) = e.2.2 * scale := by
      intro e he
      refine Nat.mul_div_cancel' ?_
      rcases htotal e he with h | h <;> rw [h]
      · exact (zero_mul scale).symm ▸ dvd_zero total
      · exact dvd_mul_right total scale
    have hscale : (sharesOf groups total).sum = scale := by
      refine Nat.eq_of_mul_eq_mul_left hpos ?_
      rw [sharesOf, ← sum_map_mul_left, map_congr_left hexact, sum_map_mul_right, hsum]
    have hdvd : ∀ y ∈ sharesOf groups total, scale ∣ y := by
      refine forall_mem_map.mpr fun e he => ?_
      rcases htotal e he with h | h <;> rw [h]
      · simp
      · exact (Nat.mul_div_cancel_left scale hpos).symm ▸ dvd_rfl
    -- The shares are whole, so the last league takes up nothing.
    obtain rfl : shares = sharesOf groups total := by
      rw [hscale, completeShares] at hshares
      split at hshares
      · exact pure_eq_ok.mp hshares
      · rw [if_neg (Nat.lt_irrefl _)] at hshares
        exact pure_eq_ok.mp hshares
    have hf : allocation * scale / total ≤ scale :=
      Nat.div_le_of_le_mul (Nat.mul_le_mul_right scale hle)
    have hentries : groups.entries.map (·.2.1) ≠ [] := by
      intro hnil
      rw [map_eq_nil_iff.mp hnil] at hsum
      exact hne hsum.symm
    exact floors_le (by decide) hexact
      (weighted_le_of_dvd hentries (by simp) hscale hf hdvd hcurve)

/-- Without scaling the projection bounds what the fractions spend. -/
theorem spend_le (hlen : leagues.length = nominals.length) (hle : allocation ≤ nominals.sum)
    (hunscaled : Unscaled nominals leagues allocation)
    (h : computeFractionMap nominals leagues nominals.sum allocation = .ok fractions) :
    spend nominals leagues fractions ≤ allocation := by
  simp only [computeFractionMap, bind_eq_ok] at h
  obtain ⟨groups, hgroups, -, -, hmap⟩ := h
  obtain ⟨raw, projected, hraw, hprojected, rfl⟩ := computeFractionMapFromGroups_eq hmap
  have hfits := projected_le hlen hle hunscaled hgroups hraw hprojected
  rw [settledFractions, if_neg (not_lt.mpr hfits)]
  exact (spend_le_projected hgroups hprojected).trans hfits

end Map

/-! ### The running remainder -/

/-- The error of a load beyond the remainder. -/
def IsOverspend : ProgramError → Prop
  | .gratisLoadExceedsRemaining _ => True
  | _ => False

theorem scaledFloor_avoids (n m d : Nat) : Avoids IsOverspend (scaledFloor n m d) :=
  Avoids.mapError fun _ => id

theorem deriveEntityId_avoids (h : Hashing) (owner : Address) (day : Nat) :
    Avoids IsOverspend (deriveEntityId h owner day) :=
  Avoids.mapError fun _ => id

theorem validateCanonicalTributes_avoids (h : Hashing) (day : Nat) (tributes : List TributeInput) :
    Avoids IsOverspend (validateCanonicalTributes h day tributes) := by
  refine (Avoids.foldlM ?_ _ _).bind fun _ _ => .pure _
  rintro previous ⟨tribute, ordinal⟩
  refine .guard id ?_
  refine .guard id ?_
  refine .guard id ?_
  refine (deriveEntityId_avoids _ _ _).bind fun _ _ => ?_
  exact .guard id (.pure _)

theorem leagueGroups_avoids (nominals leagues : List Nat) :
    Avoids IsOverspend (leagueGroups nominals leagues) := by
  refine Avoids.foldlM ?_ _ _
  rintro groups ⟨⟨league, nominal⟩, ordinal⟩
  refine (Avoids.okOr id).bind fun _ _ => ?_
  exact (Avoids.okOr id).bind fun _ _ => .pure _

theorem completeShares_avoids (shares : List Nat) (shareSum : Nat) :
    Avoids IsOverspend (completeShares shares shareSum) := by
  unfold completeShares
  split
  · exact .pure _
  · split
    · exact (Avoids.okOr id).bind fun _ _ => .pure _
    · exact .pure _

theorem distributedFractions_avoids (groups : Groups) (count total allocation : Nat) :
    Avoids IsOverspend (distributedFractions groups count total allocation) := by
  refine (Avoids.mapM (fun _ => scaledFloor_avoids _ _ _) _).bind fun _ _ => ?_
  refine (Avoids.foldlM (fun _ _ => Avoids.okOr id) _ _).bind fun _ _ => ?_
  refine (completeShares_avoids _ _).bind fun _ _ => ?_
  refine (scaledFloor_avoids _ _ _).bind fun _ _ => ?_
  exact (Avoids.okOr id).bind fun _ _ => Avoids.mapError fun _ => id

theorem computeFractionMap_avoids (nominals leagues : List Nat) (total allocation : Nat) :
    Avoids IsOverspend (computeFractionMap nominals leagues total allocation) := by
  refine (leagueGroups_avoids _ _).bind fun groups _ => ?_
  refine .guard id ?_
  refine (distributedFractions_avoids _ _ _ _).bind fun fractions _ => ?_
  refine Avoids.bind ?_ fun projected _ => ?_
  · refine Avoids.foldlM ?_ _ _
    rintro sum ⟨e, fraction⟩
    exact (scaledFloor_avoids _ _ _).bind fun _ _ => Avoids.okOr id
  · split
    · exact (Avoids.mapM (fun _ => scaledFloor_avoids _ _ _) _).bind fun _ _ => .pure _
    · exact .pure _

theorem firstPass_avoids (l : List ObservedTribute) : Avoids IsOverspend (firstPass l) := by
  refine Avoids.foldlM ?_ _ _
  rintro ⟨leagues, total⟩ ⟨o, ordinal⟩
  refine (Avoids.okOr id).bind fun _ _ => ?_
  exact (Avoids.okOr id).bind fun _ _ => .pure _

theorem prepare_avoids (h : Hashing) (day : Nat) (tributes : List TributeInput)
    (leagues : List Nat) (allocation time : Nat) :
    Avoids IsOverspend (prepare h day tributes leagues allocation time) := by
  refine .guard id ?_
  refine .guard id ?_
  refine (validateCanonicalTributes_avoids _ _ _).bind fun _ _ => ?_
  refine Avoids.bind ?_ fun total _ => ?_
  · exact Avoids.foldlM (fun _ _ => Avoids.okOr id) _ _
  · refine .guard id ?_
    exact (computeFractionMap_avoids _ _ _ _).bind fun _ _ => .pure _

variable {h : Hashing}

/-- A round whose load is within the remainder does not report an overspend. -/
theorem next_avoids {mandatory : Nat} {o : ObservedTribute}
    {l : List ObservedTribute} {e : ProgramExecution} (ha : Aligned mandatory (o :: l) e)
    (hle : loadOf e.prepared.fractions o ≤ e.remaining) :
    Avoids IsOverspend (e.next h mandatory o) := by
  have hquote : Avoids IsOverspend e.quoteNext := by
    refine (Avoids.okOr id).bind fun tribute htribute => ?_
    refine Avoids.bind ?_ fun load hload => ?_
    · refine (scaledFloor_avoids _ _ _).bind fun _ _ => ?_
      exact .guard id (.pure _)
    · refine Avoids.bind ?_ fun _ _ => .pure _
      refine .guard id ?_
      refine (Avoids.throwIf fun hgt => ?_).bind fun _ _ => .pure _
      -- The quoted load is the one the remainder covers.
      rw [okOr_eq_ok, ha.tribute] at htribute
      rw [ha.league, calculateGratisLoad_eq_ok] at hload
      cases htribute
      rw [hload.2.2] at hgt
      exact absurd hle (not_le.mpr hgt)
  refine hquote.bind fun pending _ => ?_
  refine Avoids.bind ?_ fun price _ => ?_
  · unfold entryPriceOf
    split
    · exact .pure _
    · exact .okOr id
  · refine .guard id ?_
    refine (Avoids.okOr id).bind fun second _ => ?_
    refine .guard id ?_
    refine (Avoids.okOr id).bind fun tribute _ => ?_
    refine .guard id ?_
    refine .guard id ?_
    refine .guard id ?_
    refine Avoids.bind ?_ fun cost _ => ?_
    · refine (scaledFloor_avoids _ _ _).bind fun _ _ => ?_
      exact .guard id (.pure _)
    · refine (deriveEntityId_avoids _ _ _).bind fun _ _ => ?_
      refine .guard id ?_
      refine Avoids.bind ?_ fun _ _ => .pure _
      unfold addContributor
      split
      · exact .pure _
      · exact (Avoids.okOr id).bind fun _ _ => .pure _

/-- A loop whose loads are together within the remainder reports no overspend. -/
theorem loop_avoids {mandatory : Nat} :
    ∀ {l : List ObservedTribute} {e : ProgramExecution}, Aligned mandatory l e →
      (l.map (loadOf e.prepared.fractions)).sum ≤ e.remaining →
      Avoids IsOverspend (l.foldlM (ProgramExecution.next h mandatory) e) := by
  intro l
  induction l with
  | nil => exact fun _ _ => .pure _
  | cons o l ih =>
    intro e ha hsum
    rw [map_cons, sum_cons] at hsum
    rw [foldlM_cons]
    refine (next_avoids ha (by omega)).bind fun e' he' => ?_
    obtain ⟨-, rfl⟩ := (next_eq_ok ha).mp he'
    refine ih ha.advance ?_
    show (l.map (loadOf e.prepared.fractions)).sum ≤ e.remaining - loadOf e.prepared.fractions o
    omega

theorem spend_map (l : List ObservedTribute) (fractions : SortedMap Nat Nat) :
    spend (nominalsOf l) (l.map leagueOf) fractions = (l.map (loadOf fractions)).sum := by
  unfold spend nominalsOf
  rw [zip_map', map_map]
  rfl

/-- The tributes of a day in the order of their ids, with an allocation within their total and
nothing to scale down. -/
structure ProgramInput.Unscaled (input : ProgramInput) : Prop where
  within : input.gratisAllocation ≤ (nominalsOf (sortById input.tributes)).sum
  unscaled : Lysis.Unscaled (nominalsOf (sortById input.tributes))
    ((sortById input.tributes).map leagueOf) input.gratisAllocation

/-- Without scaling the program never reports a load beyond the remainder. -/
theorem execute_avoids {input : ProgramInput} (hinput : input.Unscaled) :
    Avoids IsOverspend (execute h input) := by
  refine .guard id ?_
  refine (validateCanonicalTributes_avoids _ _ _).bind fun _ _ => ?_
  refine (firstPass_avoids _).bind fun pass hpass => ?_
  obtain ⟨-, rfl⟩ := firstPass_eq_ok.mp hpass
  refine .guard id ?_
  refine (prepare_avoids _ _ _ _ _ _).bind fun prepared hprepared => ?_
  obtain ⟨fractions, ⟨-, -, -, -, hfractions⟩, rfl⟩ := prepare_eq_ok.mp hprepared
  refine (Avoids.okOr id).bind fun mandatory _ => ?_
  refine Avoids.bind ?_ fun started hstarted => ?_
  · exact .guard id (.pure _)
  · simp only [PreparedProgram.start, validateEntryPrice, laws] at hstarted
    obtain ⟨-, -, rfl⟩ := hstarted
    refine (loop_avoids (aligned_startOf input fractions mandatory) ?_).bind fun _ _ => ?_
    · have hspend := spend_le (by simp [nominalsOf]) hinput.within hinput.unscaled hfractions
      rwa [spend_map] at hspend
    · exact .guard id (.pure _)

/-- Hash functions that return what they are given. -/
def plainHashing : Hashing where
  derivePoseidonDigest owner _ := .ok (BitVec.ofNat 256 owner.toNat)
  keccak256 bytes := BitVec.ofNat 256 (bytes.foldl (fun acc b => acc * 256 + b.toNat) 0)

/-- A tribute in US dollars with all its observations. -/
def plainTribute (owner : Address) (nominal league : Nat) : ObservedTribute where
  tribute := {
    tributeId := fromDayAndDigest 20260101 (BitVec.ofNat 256 owner.toNat)
    owner := owner
    worldwideDay := 20260101
    issuanceCurrency := 840
    nominalAmountMinor := nominal
    referenceCurrency := 840
    tributePriceMinor := 1000000
    excludeFromIntexIssuance := false }
  firstLeague := some league
  secondLeague := some league
  conditionalEntryPriceMinor := none
  nodTargetAvailable := true

/-- Two leagues of one tribute each, whose scaled fractions spend one unit too many. -/
def overspendingInput : ProgramInput where
  worldwideDay := 20260101
  logicalEvaluationTime := 1767225600
  gratisAllocation := 1599938
  mandatoryEntryPrice840 := some 1000000
  tributes := [plainTribute 1 885319 1, plainTribute 2 869235 2]

/-- The two leagues of the input. -/
def overspendingGroups : Groups := ofList [(1, (1, 885319)), (2, (1, 869235))]

theorem overspending_fractions :
    distributedFractions overspendingGroups 2 1754554 1599938 = .ok [1463444, 350109] := by
  simp only [distributedFractions, bind_eq_ok, mapError_eq_ok]
  exact ⟨[504583, 495416], by decide +kernel, 999999, by decide +kernel,
    [504583, 495417], by decide +kernel, 911877, by decide +kernel, 1823754, by decide +kernel,
    overspending_distribution⟩

/-- The projection is two units beyond the allocation, and the fractions are scaled down. -/
theorem overspending_fractionMap :
    computeFractionMap [885319, 869235] [1, 2] 1754554 1599938
      = .ok (ofList [(1, 1463442), (2, 350108)]) := by
  simp only [computeFractionMap, computeFractionMapFromGroups, bind_eq_ok]
  exact ⟨overspendingGroups, by decide +kernel, (), by decide +kernel, [1463444, 350109],
    overspending_fractions, 1599940, by decide +kernel, by decide +kernel⟩

end Rudis.Lysis

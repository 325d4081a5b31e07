import Rudis.Lib.Lists
import Rudis.Spec.Lysis.Program

/-!
# `Rudis.Proofs.Lysis.Fractions`: the fraction map and what it spends

The success of each step of the fraction map, and the link between its two views of the budget. The
map is derived from the leagues' totals: `projectedGratis` floors one product per league. The
program then floors one product per tribute, which is never more (`spend_le_projected`), so the
projection bounds the spending of the fractions it was computed with.
-/

namespace Rudis.Lysis

open List
open SortedMap

variable {allocation count d league m n nominal p q total : Nat}

theorem scaledFloor_eq_ok :
    scaledFloor n m d = .ok q ↔ d ≠ 0 ∧ n * m < 2 ^ 256 ∧ q = n * m / d := by
  rw [scaledFloor, mapError_eq_ok, checkedMulDivFloor_eq_ok]

/-! ### Groups -/

/-- What a tribute of a league adds to the groups. -/
def groupItem (league nominal : Nat) : Nat × (Nat × Nat) := (league, (1, nominal))

theorem addToGroup_eq_ok {population overflow : ProgramError} {groups groups' : Groups} :
    addToGroup population overflow groups league count nominal = .ok groups' ↔
      (((groups.find? league).getD 0).1 + count < 2 ^ 32
        ∧ ((groups.find? league).getD 0).2 + nominal < 2 ^ 256)
      ∧ groups' = groups.add league (count, nominal) := by
  simp only [addToGroup, laws, checkedAdd_eq_some, and_assoc, ↓existsAndEq, true_and]
  rfl

variable {groups : Groups}

/-- The groups of a list of tributes are the sums of their leagues. -/
theorem leagueGroups_eq {nominals leagues : List Nat}
    (h : leagueGroups nominals leagues = .ok groups) :
    groups = group ((leagues.zip nominals).map fun x => groupItem x.1 x.2) := by
  have hfold : ∀ (items : List (Nat × Nat)) (k : Nat) (acc acc' : Groups),
      (items.zipIdx k).foldlM addTributeToGroup acc = .ok acc' →
      acc' = (items.map fun x => groupItem x.1 x.2).foldl (fun m e => m.add e.1 e.2) acc := by
    intro items
    induction items with
    | nil =>
      intro k acc acc' hacc
      exact pure_eq_ok.mp hacc
    | cons item items ih =>
      intro k acc acc' hacc
      rw [zipIdx_cons, foldlM_cons, bind_eq_ok] at hacc
      obtain ⟨mid, hmid, hrest⟩ := hacc
      rw [ih _ _ _ hrest, (addToGroup_eq_ok.mp hmid).2]
      rfl
  exact hfold _ 0 _ _ h

/-! ### Projections -/

/-- The fraction map of leagues that were given a list of fractions. -/
def fractionMap (groups : Groups) (fractions : List Nat) : SortedMap Nat Nat :=
  ofList (groups.keys.zip fractions)

/-- The fraction of a league; zero for a league without one. -/
def fractionOf (fractions : SortedMap Nat Nat) (league : Nat) : Nat :=
  (fractions.find? league).getD 0

theorem fractionOf_fractionMap (groups : Groups) (fractions : List Nat) (league : Nat) :
    fractionOf (fractionMap groups fractions) league
      = ((groups.keys.zip fractions).lookup league).getD 0 := by
  have h : (fractionMap groups fractions).find? league = (groups.keys.zip fractions).lookup league :=
    find?_ofList (Lists.pairwise_zip_keys fractions groups.sorted) league
  rw [fractionOf, h]

theorem projectedGratis_eq_sum_zip : ∀ (items : List ((Nat × (Nat × Nat)) × Nat)) (acc p : Nat),
      items.foldlM addProjectedLoad acc = .ok p →
      p = acc + (items.map fun x => x.1.2.2 * x.2 / scale).sum := by
  intro items
  induction items with
  | nil =>
    intro acc p h
    exact pure_eq_ok.mp h
  | cons item items ih =>
    intro acc p h
    simp only [foldlM_cons, addProjectedLoad, laws, scaledFloor_eq_ok, checkedAdd_eq_some] at h
    obtain ⟨mid, ⟨load, ⟨-, -, rfl⟩, -, rfl⟩, hrest⟩ := h
    rw [ih _ _ hrest, map_cons, sum_cons]
    omega

/-- Pairing sorted entries with fractions or looking the fractions up gives the same loads. -/
theorem sum_zip_eq_sum_lookup :
    ∀ {l : List (Nat × (Nat × Nat))} (fs : List Nat), l.Pairwise (fun a b => a.1 < b.1) →
      ((l.zip fs).map fun x => x.1.2.2 * x.2 / scale).sum
        = (l.map fun e => e.2.2 * (((l.map Prod.fst).zip fs).lookup e.1).getD 0 / scale).sum := by
  intro l
  induction l with
  | nil => exact fun _ _ => rfl
  | cons e l ih =>
    intro fs h
    obtain ⟨he, hl⟩ := pairwise_cons.mp h
    cases fs with
    | nil => simp
    | cons f fs =>
      have htail : ∀ a ∈ l, (((e :: l).map Prod.fst).zip (f :: fs)).lookup a.1
          = ((l.map Prod.fst).zip fs).lookup a.1 := by
        intro a ha
        rw [map_cons, zip_cons_cons, lookup_cons_eq, if_neg (he a ha).ne']
      have hhead : (((e :: l).map Prod.fst).zip (f :: fs)).lookup e.1 = some f := by
        rw [map_cons, zip_cons_cons, lookup_cons_eq, if_pos rfl]
      rw [zip_cons_cons, map_cons, sum_cons, ih fs hl, map_cons, sum_cons, hhead, Option.getD_some]
      congr 2
      exact map_congr_left fun a ha => by rw [htail a ha]

/-- The projection is the sum of the leagues' loads under the fraction map. -/
theorem projectedGratis_eq {fractions : List Nat} (h : projectedGratis groups fractions = .ok p) :
    p = groups.sum fun league v => v.2 * fractionOf (fractionMap groups fractions) league / scale := by
  rw [projectedGratis_eq_sum_zip _ _ _ h, zero_add, sum_zip_eq_sum_lookup _ groups.sorted]
  simp only [SortedMap.sum, fractionOf_fractionMap]
  rfl

/-! ### Spending -/

variable (nominals leagues : List Nat) (fractions : SortedMap Nat Nat)

/-- What the tributes' loads sum to under a fraction map. -/
def spend : Nat :=
  ((leagues.zip nominals).map fun x => x.2 * fractionOf fractions x.1 / scale).sum

/-- Flooring per tribute spends no more than flooring per league. -/
theorem spend_le_sum_groups :
    spend nominals leagues fractions
      ≤ (group ((leagues.zip nominals).map fun x => groupItem x.1 x.2)).sum fun league v =>
          v.2 * fractionOf fractions league / scale := by
  have hsup : ∀ (k : Nat) (a b : Nat × Nat),
      a.2 * fractionOf fractions k / scale + b.2 * fractionOf fractions k / scale
        ≤ (a + b).2 * fractionOf fractions k / scale := by
    intro k a b
    rw [Prod.snd_add, add_mul]
    exact Nat.div_add_div_le_add_div
  have h := sum_le_sum_group
    (f := fun league (v : Nat × Nat) => v.2 * fractionOf fractions league / scale)
    (fun k => by rw [Prod.snd_zero, zero_mul, Nat.zero_div])
    ((leagues.zip nominals).map fun x => groupItem x.1 x.2) hsup
  rw [map_map] at h
  exact h

/-- A projection bounds what its own fractions spend. -/
theorem spend_le_projected {nominals leagues fractions : List Nat}
    (hgroups : leagueGroups nominals leagues = .ok groups)
    (hp : projectedGratis groups fractions = .ok p) :
    spend nominals leagues (fractionMap groups fractions) ≤ p := by
  have h := spend_le_sum_groups nominals leagues (fractionMap groups fractions)
  rw [← leagueGroups_eq hgroups] at h
  rwa [projectedGratis_eq hp]

/-- The fractions the map ends with: scaled down when the projection passes the allocation. -/
def settledFractions (fractions : List Nat) (gratisAllocation projected : Nat) : List Nat :=
  if projected > gratisAllocation then
    fractions.map fun fraction => fraction * gratisAllocation / projected
  else fractions

theorem computeFractionMapFromGroups_eq
    {fractions : SortedMap Nat Nat}
    (h : computeFractionMapFromGroups groups count total allocation = .ok fractions) :
    ∃ raw projected, distributedFractions groups count total allocation = .ok raw
      ∧ projectedGratis groups raw = .ok projected
      ∧ fractions = fractionMap groups (settledFractions raw allocation projected) := by
  simp only [computeFractionMapFromGroups, bind_eq_ok] at h
  obtain ⟨raw, hraw, projected, hprojected, hsettle⟩ := h
  refine ⟨raw, projected, hraw, hprojected, ?_⟩
  rw [settledFractions]
  split at hsettle
  · rename_i hgt
    obtain ⟨settled, hsettled, hmap⟩ := bind_eq_ok.mp hsettle
    have heq := (Except.mapM_eq_ok_map fun a b hab => (scaledFloor_eq_ok.mp hab).2.2).mp hsettled
    rw [if_pos hgt, pure_eq_ok.mp hmap, heq.1]
    rfl
  · rename_i hle
    rw [if_neg hle, pure_eq_ok.mp hsettle]
    rfl

end Rudis.Lysis

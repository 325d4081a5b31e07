import Mathlib.Data.Nat.Factorization.Basic
import Mathlib.Tactic.Ring
import Rudis.Proofs.Lysis.PlanProducers

/-!
# `Rudis.Proofs.Lysis.PlanTrees`: the reduce and merge trees of the plan

In each reduce or merge tree every leaf and every internal node except the root is consumed by
exactly one parent (`consumedOnce`), and the leaves are visited from left to right
(`leavesBelow_root`). The three reducer trees share one argument by levels and indices; a node of
the two merge trees is its span of runs, and the parent is read off the largest power of two that
divides the start of the span.

`lysis_plan` collects this with the numbering of the plan and the order of producers.
-/

namespace Rudis.Lysis

open PlannedProducer (unit)
open List Nat

/-- The phases that reduce or merge along a tree. -/
def UnitPhase.isTree : UnitPhase → Bool
  | .fixedReduce | .gratisPrefix | .ownerShuffle | .bucketShuffle | .rootReduce => true
  | _ => false

namespace PaddedBinaryTree

variable {t : PaddedBinaryTree}

/-- A position the planner finds in its phase. -/
def Planned (t : PaddedBinaryTree) (p : PlannedUnitPosition) : Prop :=
  ∃ i, t.phasePositionAt p.phase i = .ok p

variable {p q : PlannedUnitPosition} {phase : UnitPhase} {level index : Nat}

theorem Place.planned (wf : t.Wf) (h : t.Place phase level index) :
    t.Planned (t.unitAt phase level index) :=
  ⟨_, (phasePositionAt_eq_ok wf).2 ⟨rfl, .mk h⟩⟩

/-- A planned unit of a phase stands at a place of it. -/
theorem Planned.exists_place (wf : t.Wf) (h : t.Planned p) (hphase : p.phase = phase) :
    ∃ level index, t.Place phase level index ∧ p = t.unitAt phase level index := by
  obtain ⟨i, hi⟩ := h
  obtain ⟨-, ⟨hplace⟩⟩ := (phasePositionAt_eq_ok wf).1 hi
  rw [phase_unitAt] at hphase
  subst hphase
  exact ⟨_, _, hplace, rfl⟩

/-- A unit is read by exactly one unit of a phase, and once by that one. -/
def ConsumedOnce (t : PaddedBinaryTree) (phase : UnitPhase) (q : PlannedUnitPosition) : Prop :=
  ∃ p, t.Planned p ∧ p.phase = phase ∧
    (∃ producers, t.requiredProducers p = .ok producers ∧ producers.count (.unit q) = 1) ∧
    ∀ p', t.Planned p' → p'.phase = phase →
      (∃ producers, t.requiredProducers p' = .ok producers ∧ .unit q ∈ producers) → p' = p

/-- The leaf of the trees a position stands for, if it is one. -/
def leafIndex : PlannedUnitPosition → Option Nat
  | .primary _ i => some i
  | .treeNode _ 0 i => some i
  | .runSpan _ 0 i _ _ => some i
  | _ => none

/-- The leaves below a position, in the order the producers are read. -/
def leavesBelow (t : PaddedBinaryTree) : Nat → PlannedUnitPosition → List Nat
  | 0, _ => []
  | fuel + 1, p =>
    match leafIndex p with
    | some i => [i]
    | none =>
      match t.requiredProducers p with
      | .error _ => []
      | .ok producers => producers.flatMap fun producer =>
        match producer with
        | .unit q => leavesBelow t fuel q
        | .canonicalEmpty _ _ => []

/-- The leaves below a producer; an empty one has none. -/
def producerLeaves (t : PaddedBinaryTree) (fuel : Nat) : PlannedProducer → List Nat
  | .unit q => t.leavesBelow fuel q
  | .canonicalEmpty _ _ => []

variable {producers : List PlannedProducer}

theorem leavesBelow_of_producers {fuel : Nat} (hleaf : leafIndex p = none)
    (hp : t.requiredProducers p = .ok producers) :
    t.leavesBelow (fuel + 1) p = producers.flatMap (t.producerLeaves fuel) := by
  rw [leavesBelow, hleaf, hp]
  show producers.flatMap _ = _
  congr 1

theorem leavesBelow_of_leaf {fuel i : Nat}
    (hleaf : leafIndex p = some i) : t.leavesBelow (fuel + 1) p = [i] := by
  rw [leavesBelow, hleaf]

/-! ### The leaves of a range -/

/-- The primary leaves among `width` ones from `start` on. -/
def covered (t : PaddedBinaryTree) (start width : Nat) : List Nat :=
  List.range' start (min (start + width) t.primaryLeafCount - start)

theorem covered_double (start width : Nat) :
    t.covered start (width + width) = t.covered start width ++ t.covered (start + width) width := by
  unfold covered
  rcases le_total (start + width) t.primaryLeafCount with h | h
  · rw [min_eq_left h, Nat.add_sub_cancel_left, range'_append_1]
    congr 1
    omega
  · have hempty : min (start + width + width) t.primaryLeafCount - (start + width) = 0 := by omega
    rw [hempty, range'_zero, append_nil]
    congr 1
    omega

theorem covered_eq_nil {start width : Nat} (h : t.primaryLeafCount ≤ start) :
    t.covered start width = [] := by
  unfold covered
  rw [Nat.sub_eq_zero_of_le (by omega), range'_zero]

theorem covered_one {start : Nat} (h : start < t.primaryLeafCount) : t.covered start 1 = [start] := by
  unfold covered
  rw [min_eq_left (by omega), Nat.add_sub_cancel_left, range'_one]

theorem covered_all (wf : t.Wf) : t.covered 0 (2 ^ t.height) = range t.primaryLeafCount := by
  unfold covered
  rw [Nat.zero_add, min_eq_right wf.leaf_le, Nat.sub_zero, range_eq_range']

/-! ### Reducer trees -/

section Reducer

variable {leafPhase : UnitPhase} {purpose : InputPurpose} {fullTree : Bool}

theorem memberAt_inj {level index level' index' : Nat}
    (h : memberAt phase leafPhase level index = memberAt phase leafPhase level' index') :
    level = level' ∧ index = index' := by
  unfold memberAt at h
  split at h <;> split at h
  · next h1 h2 => exact ⟨h1.1.trans h2.1.symm, (PlannedUnitPosition.primary.inj h).2⟩
  · exact nomatch h
  · exact nomatch h
  · exact (PlannedUnitPosition.treeNode.inj h).2

/-- The level above has a parent for every member. -/
theorem memberCount_le_width (wf : t.Wf) {level : Nat} :
    t.memberCount fullTree level ≤ t.width fullTree level := by
  unfold memberCount
  split
  · rename_i h0
    subst h0
    cases fullTree with
    | false => exact (activeWidth_zero t).ge
    | true =>
      show _ ≤ t.fullWidth 0
      rw [fullWidth_eq wf (Nat.zero_le _)]
      exact wf.leaf_le
  · exact le_rfl

theorem parent_lt_width (wf : t.Wf) {level index : Nat} (hl : level < t.height)
    (hi : index < t.memberCount fullTree level) : index / 2 < t.width fullTree (level + 1) := by
  have hi := lt_of_lt_of_le hi (memberCount_le_width wf)
  cases fullTree with
  | false => exact parent_lt_activeWidth hi
  | true =>
    have hdouble := Nat.two_pow_pred_add_two_pow_pred (Nat.sub_pos_of_lt hl)
    show index / 2 < t.fullWidth (level + 1)
    rw [fullWidth_eq wf (show level + 1 ≤ _ from hl), ← Nat.sub_sub]
    change index < t.fullWidth level at hi
    rw [fullWidth_eq wf hl.le] at hi
    omega

/-- A member below the root is read once by its parent. -/
theorem count_child (wf : t.Wf) (hr : IsReducer t phase leafPhase purpose fullTree)
    {level index : Nat} (hl : level < t.height) (hi : index < t.memberCount fullTree level) :
    ∃ producers, t.requiredProducers (.treeNode phase (level + 1) (index / 2)) = .ok producers ∧
      producers.count (.unit (memberAt phase leafPhase level index)) = 1 := by
  refine ⟨_, hr.producers wf ⟨by omega, hl⟩ (parent_lt_width wf hl hi), ?_⟩
  have hself : t.binaryChild phase leafPhase purpose (level + 1) index fullTree
      = .unit (memberAt phase leafPhase level index) := binaryChild_eq_unit.2 ⟨hi, rfl⟩
  have hother : ∀ {child : Nat}, child ≠ index →
      t.binaryChild phase leafPhase purpose (level + 1) child fullTree
        ≠ .unit (memberAt phase leafPhase level index) := by
    intro child hne h
    exact hne (memberAt_inj (binaryChild_eq_unit.1 h).2).2.symm
  -- the member is the left or the right child
  rcases mod_two_eq_zero_or_one index with heven | hodd
  · have hleft : index / 2 * 2 = index := by omega
    rw [hleft, count_cons, count_cons, count_nil, hself]
    have hne := hother (show index + 1 ≠ index by omega)
    simp [hne]
  · have hright : index / 2 * 2 + 1 = index := by omega
    have hne := hother (show index / 2 * 2 ≠ index by omega)
    rw [hright, count_cons, count_cons, count_nil, hself]
    simp [hne]

/-- Only the parent reads a member. -/
theorem parent_of_child (wf : t.Wf) (hr : IsReducer t phase leafPhase purpose fullTree)
    {level index level' index' : Nat} (hl : t.IsLevel level')
    (hi : index' < t.width fullTree level')
    (hp : t.requiredProducers (.treeNode phase level' index') = .ok producers)
    (hq : .unit (memberAt phase leafPhase level index) ∈ producers) :
    level' = level + 1 ∧ index' = index / 2 := by
  rw [hr.producers wf hl hi] at hp
  obtain rfl := Except.ok.inj hp
  have h1 := hl.1
  obtain ⟨child, hchild, -, hq⟩ := exists_child hq
  obtain ⟨hlevel, hindex⟩ := memberAt_inj hq
  omega

/-- A child that is not a member is beyond the primary leaves. -/
theorem start_ge_of_empty (wf : t.Wf) {level index child : Nat} (hl : t.IsLevel (level + 1))
    (hi : index < t.width fullTree (level + 1)) (hchild : child = index * 2 ∨ child = index * 2 + 1)
    (hempty : ¬ child < t.memberCount fullTree level) : t.primaryLeafCount ≤ child * 2 ^ level := by
  unfold memberCount at hempty
  by_cases h0 : level = 0
  · rw [if_pos h0] at hempty
    rw [h0, pow_zero, mul_one]
    omega
  · rw [if_neg h0] at hempty
    cases fullTree with
    | false => exact not_lt.1 (mt lt_activeWidth.2 hempty)
    | true =>
      -- in the full tree every node has two children above the leaves
      have hl2 := hl.2
      have hi' : index < t.fullWidth (level + 1) := hi
      have hempty' : ¬ child < t.fullWidth level := hempty
      have hdouble := Nat.two_pow_pred_add_two_pow_pred (Nat.sub_pos_of_lt hl2)
      rw [fullWidth_eq wf (by omega)] at hi' hempty'
      rw [Nat.sub_sub] at hdouble
      omega

theorem leavesBelow_reducer (wf : t.Wf) (hr : IsReducer t phase leafPhase purpose fullTree)
    {level index fuel : Nat} (hl : t.IsLevel level) (hi : index < t.width fullTree level)
    (hfuel : level < fuel) :
    t.leavesBelow fuel (.treeNode phase level index) = t.covered (index * 2 ^ level) (2 ^ level) := by
  induction level generalizing index fuel with
  | zero => exact absurd hl.1 (by decide)
  | succ level ih =>
    obtain ⟨fuel, rfl⟩ := Nat.exists_eq_add_of_lt hfuel
    -- a child stands for its range, or is empty because the range is
    have hchild : ∀ child, child = index * 2 ∨ child = index * 2 + 1 →
        t.producerLeaves (level + 1 + fuel)
            (t.binaryChild phase leafPhase purpose (level + 1) child fullTree)
          = t.covered (child * 2 ^ level) (2 ^ level) := by
      intro child hchild
      rw [binaryChild_eq, Nat.add_sub_cancel]
      by_cases hlt : child < t.memberCount fullTree level
      · rw [if_pos hlt]
        show t.leavesBelow _ (memberAt phase leafPhase level child) = _
        by_cases h0 : level = 0
        · subst h0
          rw [memberCount, if_pos rfl] at hlt
          have hleaf : leafIndex (memberAt phase leafPhase 0 child) = some child := by
            unfold memberAt
            split <;> rfl
          rw [zero_add, add_comm, leavesBelow_of_leaf hleaf, pow_zero, mul_one, covered_one hlt]
        · rw [memberCount, if_neg h0] at hlt
          rw [memberAt, if_neg fun h => h0 h.1]
          exact ih ⟨by omega, by have := hl.2; omega⟩ hlt (by omega)
      · rw [if_neg hlt, covered_eq_nil (start_ge_of_empty wf hl hi hchild hlt)]
        rfl
    have hdouble : 2 ^ (level + 1) = 2 ^ level + 2 ^ level := by
      rw [pow_succ]
      omega
    have hleft : index * 2 * 2 ^ level = index * 2 ^ (level + 1) := by
      rw [Nat.pow_succ', mul_assoc]
    have hright : (index * 2 + 1) * 2 ^ level = index * 2 ^ (level + 1) + 2 ^ level := by
      rw [succ_mul, hleft]
    rw [show level + 1 + fuel + 1 = (level + 1 + fuel) + 1 from rfl,
      leavesBelow_of_producers rfl (hr.producers wf hl hi)]
    simp only [flatMap_cons, flatMap_nil, append_nil]
    rw [hchild _ (Or.inl rfl), hchild _ (Or.inr rfl), hleft, hright, ← covered_double, ← hdouble]

/-- A member below the root of a reducer tree is read once, if the leaves of the phase do not read
it. -/
theorem reducer_consumedOnce (wf : t.Wf) (hr : IsReducer t phase leafPhase purpose fullTree)
    (hl : level < t.height) (hi : index < t.memberCount fullTree level)
    (hleaf : ∀ i producers, i < t.leafCount phase →
      t.requiredProducers (.treeNode phase 0 i) = .ok producers →
      .unit (memberAt phase leafPhase level index) ∉ producers) :
    t.ConsumedOnce phase (memberAt phase leafPhase level index) := by
  have hplanned : t.Planned (t.unitAt phase (level + 1) (index / 2)) :=
    Place.planned wf (.inr ⟨⟨by omega, hl⟩, by rw [hr.width]; exact parent_lt_width wf hl hi⟩)
  rw [hr.node] at hplanned
  refine ⟨_, hplanned, rfl, count_child wf hr hl hi, ?_⟩
  rintro p' hp' hphase' ⟨producers, hprod, hmem⟩
  obtain ⟨level', index', hplace, rfl⟩ := hp'.exists_place wf hphase'
  rw [hr.node] at hprod ⊢
  rcases hplace with ⟨rfl, hi'⟩ | ⟨hl', hi'⟩
  · exact absurd hmem (hleaf _ _ hi' hprod)
  · rw [hr.width] at hi'
    obtain ⟨rfl, rfl⟩ := parent_of_child wf hr hl' hi' hprod hmem
    rfl

theorem fullWidth_height (wf : t.Wf) : t.fullWidth t.height = 1 := by
  rw [fullWidth_eq wf le_rfl, Nat.sub_self, Nat.pow_zero]

/-- The root is the only node of its level. -/
theorem index_eq_zero (wf : t.Wf) {fullTree : Bool} {index : Nat}
    (h : index < t.width fullTree t.height) : index = 0 := by
  cases fullTree with
  | false => exact index_eq_zero_of_height wf h
  | true =>
    have h : index < t.fullWidth t.height := h
    rw [fullWidth_height wf] at h
    exact lt_one_iff.1 h

/-- The planned units of a tree are its members. -/
theorem exists_member (wf : t.Wf) (hr : IsReducer t phase leafPhase purpose fullTree)
    (hq : t.Planned q) (hin : q.phase = phase ∨ q.phase = leafPhase)
    (hroot : q ≠ .treeNode phase t.height 0) :
    ∃ level index, level < t.height ∧ index < t.memberCount fullTree level ∧
      q = memberAt phase leafPhase level index := by
  obtain ⟨level, index, ⟨rfl, hi⟩ | ⟨hl, hi⟩, heq⟩ := hq.exists_place wf rfl
  · have hleaf : q.phase = leafPhase := by
      refine hin.elim (fun h => ?_) id
      rcases hr.order with ho | ⟨-, hnone, -⟩
      · rw [h, ho]
      · rw [h, hnone] at hi
        exact absurd hi (Nat.not_lt_zero _)
    rw [hleaf, hr.leaves] at hi
    rw [hleaf, hr.leaf] at heq
    exact ⟨0, index, wf.height_pos, hi, heq⟩
  · have hnode : q.phase = phase := by
      refine hin.elim id fun h => ?_
      rcases hr.order with ho | ⟨-, -, hnone⟩
      · rw [h, ho]
      · rw [h, hnone] at hi
        exact absurd hi (Nat.not_lt_zero _)
    rw [hnode, hr.width] at hi
    rw [hnode, hr.node] at heq
    have hpos := hl.1
    refine ⟨level, index, lt_of_le_of_ne hl.2 ?_, ?_, ?_⟩
    · rintro rfl
      exact hroot (by rw [heq, index_eq_zero wf hi])
    · rw [memberCount, if_neg (by omega)]
      exact hi
    · rw [heq, memberAt, if_neg (by omega)]

end Reducer

/-! ### Merge trees -/

section Merge

variable {s e m : Nat}

theorem IsSpan.level_unique {m' : Nat} (h : t.IsSpan s e m) (h' : t.IsSpan s e m') : m = m' :=
  Nat.pow_right_injective (le_refl 2) (h.nextPowerOfTwo_eq.symm.trans h'.nextPowerOfTwo_eq)

/-- The power of two in a sum is at most the one that its first part has twice. -/
theorem le_of_pow_dvd_add {a b x : Nat} (hx : 2 ^ (a + 1) ∣ x) (h : 2 ^ b ∣ x + 2 ^ a) : b ≤ a := by
  by_contra hlt
  have hdvd := (Nat.dvd_add_right hx).mp ((pow_dvd_pow 2 (not_le.mp hlt)).trans h)
  have := (Nat.pow_dvd_pow_iff_le_right (by decide)).mp hdvd
  omega

/-- A span that starts at an even multiple and does not reach the end is a left half. -/
def IsLeftHalf (t : PaddedBinaryTree) (s m : Nat) : Prop :=
  2 ^ (m + 1) ∣ s ∧ s + 2 ^ m < t.primaryLeafCount

/-- The parent of a span below the root, in which it is the left or the right half. -/
theorem exists_parent (h : t.IsSpan s e m) (hroot : ¬ (s = 0 ∧ e = t.primaryLeafCount)) :
    ∃ s' e' level, t.IsSpan s' e' level ∧ level ≠ 0 ∧
      (t.IsLeftHalf s m ∧ s = s' ∧ m = level - 1 ∧ e = s + 2 ^ m ∨
        ¬ t.IsLeftHalf s m ∧ s = s' + 2 ^ (level - 1) ∧ e = e') := by
  have hend := h.end_eq
  have hlt := h.lt
  have hn := h.end_le.2
  by_cases hleft : t.IsLeftHalf s m
  · obtain ⟨hdvd, hmid⟩ := id hleft
    have hpos := Nat.two_pow_pos m
    have hfar : s + 2 ^ m < min (s + 2 ^ (m + 1)) t.primaryLeafCount := by
      rw [lt_min_iff, pow_succ]
      omega
    refine ⟨s, _, m + 1, ⟨by omega, rfl, .inr ?_, hdvd⟩, m.succ_ne_zero, .inl ⟨hleft, rfl, rfl, ?_⟩⟩
    · rw [Nat.add_sub_cancel]
      omega
    · rw [hend, min_eq_left hmid.le]
  · -- the first span that is no left half is the root's
    have hs0 : s ≠ 0 := by
      rintro rfl
      have hfull : ¬ 0 + 2 ^ m < t.primaryLeafCount := fun h => hleft ⟨Nat.dvd_zero _, h⟩
      exact hroot ⟨rfl, by rw [hend, min_eq_right (by omega)]⟩
    obtain ⟨c, odd, ⟨b, rfl⟩, hs⟩ := exists_eq_two_pow_mul_odd hs0
    have hstart : s = 2 ^ (c + 1) * b + 2 ^ c := by
      rw [hs]
      ring
    have hdvd : 2 ^ (c + 1) ∣ 2 ^ (c + 1) * b := Nat.dvd_mul_right _ _
    have hfar : 2 ^ (c + 1) * b + 2 ^ (c + 1) = s + 2 ^ c := by
      rw [hstart]
      ring
    have hpos := Nat.two_pow_pos c
    refine ⟨2 ^ (c + 1) * b, e, c + 1, ⟨by omega, ?_, .inr ?_, hdvd⟩, c.succ_ne_zero,
      .inr ⟨hleft, hstart, rfl⟩⟩
    · rw [hfar]
      -- a level below the alignment of the start means that the runs end here
      have hmc : m ≤ c := le_of_pow_dvd_add hdvd (hstart ▸ h.dvd)
      rcases Nat.eq_or_lt_of_le hmc with rfl | hmc'
      · exact hend
      · have hcut : ¬ s + 2 ^ m < t.primaryLeafCount := fun h => hleft ⟨by
          rw [hs]
          exact (pow_dvd_pow 2 (by omega)).trans (Nat.dvd_mul_right _ _), h⟩
        have hpow : 2 ^ m ≤ 2 ^ c := Nat.pow_le_pow_right (by decide) hmc
        rw [hend, min_eq_right (by omega), min_eq_right (by omega)]
    · rw [Nat.add_sub_cancel]
      omega

theorem spanUnit_inj {s e m s' e' m' : Nat} (h : spanUnit phase s e m = spanUnit phase s' e' m') :
    s = s' ∧ e = e' ∧ m = m' := by
  obtain ⟨-, hm, -, hs, he⟩ := PlannedUnitPosition.runSpan.inj h
  exact ⟨hs, he, hm⟩

/-- Which merge nodes read the unit of a span. -/
theorem merge_consumer (wf : t.Wf) (hphase : phase.isMerge = true) (hp : t.Planned p)
    (hpp : p.phase = phase) (hprod : t.requiredProducers p = .ok producers)
    (hmem : .unit (spanUnit phase s e m) ∈ producers) :
    ∃ s' e' level, t.IsSpan s' e' level ∧ level ≠ 0 ∧ p = spanUnit phase s' e' level ∧
      (s = s' ∧ m = level - 1 ∨ s = s' + 2 ^ (level - 1) ∧ e = e') := by
  obtain ⟨level, index, hplace, rfl⟩ := hp.exists_place wf hpp
  obtain ⟨hspan, heq⟩ := hplace.isSpan wf hphase
  rw [heq] at hprod
  by_cases h0 : level = 0
  · subst h0
    rw [mergeLeaf_producers hphase hspan] at hprod
    obtain rfl := Except.ok.inj hprod
    exact nomatch unit.inj (mem_singleton.1 hmem)
  · obtain ⟨r, hh⟩ := exists_halves hspan h0
    rw [mergeNode_producers wf hphase hspan h0 hh] at hprod
    obtain rfl := Except.ok.inj hprod
    refine ⟨_, _, level, hspan, h0, heq, ?_⟩
    rcases unit_mem_pair.1 hmem with h | h
    · obtain ⟨hs, -, hm⟩ := spanUnit_inj h
      exact .inl ⟨hs, hm⟩
    · obtain ⟨hs, he, -⟩ := spanUnit_inj h
      exact .inr ⟨hs, he⟩

/-- The unit of a span below the root is read once. -/
theorem merge_consumedOnce (wf : t.Wf) (hphase : phase.isMerge = true) (h : t.IsSpan s e m)
    (hroot : ¬ (s = 0 ∧ e = t.primaryLeafCount)) : t.ConsumedOnce phase (spanUnit phase s e m) := by
  obtain ⟨s', e', level, hspan, h0, hside⟩ := exists_parent h hroot
  obtain ⟨r, hh⟩ := exists_halves hspan h0
  have hpos := Nat.two_pow_pos (level - 1)
  have hplanned : t.Planned (spanUnit phase s' e' level) := by
    rw [← (hspan.place wf hphase).2]
    exact (hspan.place wf hphase).1.planned wf
  refine ⟨_, hplanned, rfl, ⟨_, mergeNode_producers wf hphase hspan h0 hh, ?_⟩, ?_⟩
  · refine count_eq_one_of_mem
      (nodup_cons.2 ⟨fun hin => ?_, nodup_singleton _⟩) ?_
    · have := (spanUnit_inj (unit.inj (mem_singleton.1 hin))).1
      omega
    rcases hside with ⟨-, rfl, rfl, rfl⟩ | ⟨-, rfl, rfl⟩
    · exact mem_cons_self
    · rw [h.level_unique hh.right]
      exact mem_cons_of_mem _ mem_cons_self
  · rintro p' hp' hphase' ⟨producers, hprod, hmem⟩
    obtain ⟨s₂, e₂, level₂, hspan₂, h0₂, rfl, hside₂⟩ :=
      merge_consumer wf hphase hp' hphase' hprod hmem
    have hfar : s₂ + 2 ^ (level₂ - 1) < t.primaryLeafCount := by
      have := hspan₂.least.resolve_left h0₂
      have := hspan₂.end_le.2
      have := Nat.two_pow_pos (level₂ - 1)
      omega
    have hdvd := hspan.dvd
    have hdvd₂ := hspan₂.dvd
    rw [← Nat.sub_add_cancel (Nat.pos_of_ne_zero h0)] at hdvd
    rw [← Nat.sub_add_cancel (Nat.pos_of_ne_zero h0₂)] at hdvd₂
    -- a left half of one node is a left half of no other, and a right half of none
    have hisLeft : s = s₂ → m = level₂ - 1 → t.IsLeftHalf s m := by
      rintro rfl rfl
      exact ⟨hdvd₂, hfar⟩
    have hnotLeft : s = s₂ + 2 ^ (level₂ - 1) → e = e₂ → ¬ t.IsLeftHalf s m := by
      rintro hs he ⟨hdvd', hlt⟩
      have hdouble := Nat.two_pow_pred_mul_two (Nat.pos_of_ne_zero h0₂)
      have hend := h.end_eq
      have hend' := hspan₂.end_eq
      have hpow : 2 ^ m = 2 ^ (level₂ - 1) := by omega
      have := le_of_pow_dvd_add hdvd₂ (hs ▸ hdvd')
      have := Nat.pow_right_injective (le_refl 2) hpow
      omega
    have hsame : level₂ = level → s₂ = s' → spanUnit phase s₂ e₂ level₂ = spanUnit phase s' e' level := by
      rintro rfl rfl
      rw [hspan.end_eq, hspan₂.end_eq]
    rcases hside with ⟨hleft, hs, hm, -⟩ | ⟨hleft, hs, -⟩ <;>
      rcases hside₂ with ⟨hs₂, hm₂⟩ | ⟨hs₂, he₂⟩
    · exact hsame (by omega) (hs₂.symm.trans hs)
    · exact absurd hleft (hnotLeft hs₂ he₂)
    · exact absurd (hisLeft hs₂ hm₂) hleft
    · -- the start of a right half tells its level
      have hle : level - 1 ≤ level₂ - 1 := le_of_pow_dvd_add hdvd₂ (by
        rw [← hs₂, hs]
        exact Nat.dvd_add ((pow_dvd_pow 2 (Nat.le_succ _)).trans hdvd) (Nat.dvd_refl _))
      have hle₂ : level₂ - 1 ≤ level - 1 := le_of_pow_dvd_add hdvd (by
        rw [← hs, hs₂]
        exact Nat.dvd_add ((pow_dvd_pow 2 (Nat.le_succ _)).trans hdvd₂) (Nat.dvd_refl _))
      have hlevel : level₂ = level := by omega
      subst hlevel
      exact hsame rfl (by omega)

/-- The leaves below the unit of a span. -/
theorem leavesBelow_merge (wf : t.Wf) (hphase : phase.isMerge = true) {fuel : Nat}
    (h : t.IsSpan s e m) (hfuel : m < fuel) :
    t.leavesBelow fuel (spanUnit phase s e m) = List.range' s (e - s) := by
  induction m using Nat.strong_induction_on generalizing s e fuel with
  | _ m ih =>
    obtain ⟨fuel, rfl⟩ := Nat.exists_eq_add_of_lt hfuel
    have hend := h.end_le
    have hlt := h.lt
    by_cases h0 : m = 0
    · subst h0
      rw [pow_zero] at hend
      have hleaf : leafIndex (spanUnit phase s e 0) = some s := by
        show some (s / 2 ^ 0) = _
        rw [pow_zero, Nat.div_one]
      rw [zero_add, leavesBelow_of_leaf hleaf, show e - s = 1 by omega, range'_one]
    · obtain ⟨r, hh⟩ := exists_halves h h0
      have hr := hh.le
      have hnode : leafIndex (spanUnit phase s e m) = none := by
        obtain ⟨m', rfl⟩ := exists_eq_succ_of_ne_zero h0
        rfl
      rw [leavesBelow_of_producers hnode (mergeNode_producers wf hphase h h0 hh)]
      simp only [flatMap_cons, flatMap_nil, append_nil, producerLeaves]
      rw [ih (m - 1) (by omega) hh.left (by omega), ih r (by omega) hh.right (by omega),
        Nat.add_sub_cancel_left, range'_append_1]
      congr 1
      have := hh.right.lt
      omega

end Merge

/-! ### The trees of the plan -/

/-- The members of a tree: the units of its phase, and the Fidelity maps as the leaves of the
Fidelity reduction. -/
def InTree (phase : UnitPhase) (q : PlannedUnitPosition) : Prop :=
  q.phase = phase ∨ phase = .fixedReduce ∧ q.phase = .fidelityMap

/-- The root of a tree. -/
def treeRoot (t : PaddedBinaryTree) : UnitPhase → PlannedUnitPosition
  | .ownerShuffle => spanUnit .ownerShuffle 0 t.primaryLeafCount
      (Nat.log2 (nextPowerOfTwo t.primaryLeafCount))
  | .bucketShuffle => spanUnit .bucketShuffle 0 t.primaryLeafCount
      (Nat.log2 (nextPowerOfTwo t.primaryLeafCount))
  | .rootReduce => .treeNode .rootReduce (if t.primaryLeafCount = 1 then 0 else t.height) 0
  | phase => .treeNode phase t.height 0

theorem isSpan_mergeRoot (wf : t.Wf) :
    t.IsSpan 0 t.primaryLeafCount (Nat.log2 (nextPowerOfTwo t.primaryLeafCount)) := by
  obtain ⟨m, h⟩ := exists_isSpan_root wf
  have hpow := h.nextPowerOfTwo_eq
  rw [Nat.sub_zero] at hpow
  rw [hpow, Nat.log2_two_pow]
  exact h

section Consumed

variable (wf : t.Wf) (hq : t.Planned q)

include wf hq

theorem fixedReduce_consumedOnce (hin : InTree .fixedReduce q)
    (hroot : q ≠ t.treeRoot .fixedReduce) : t.ConsumedOnce .fixedReduce q := by
  obtain ⟨level, index, hl, hi, rfl⟩ :=
    exists_member wf isReducer_fixedReduce hq (hin.imp_right And.right) hroot
  exact reducer_consumedOnce wf isReducer_fixedReduce hl hi
    fun _ _ hi => absurd hi (Nat.not_lt_zero _)

theorem gratisPrefix_consumedOnce (hphase : q.phase = .gratisPrefix)
    (hroot : q ≠ t.treeRoot .gratisPrefix) : t.ConsumedOnce .gratisPrefix q := by
  obtain ⟨level, index, hl, hi, rfl⟩ :=
    exists_member wf isReducer_gratisPrefix hq (.inl hphase) hroot
  refine reducer_consumedOnce wf isReducer_gratisPrefix hl hi ?_
  -- a leaf reads its amount map
  intro i producers hi hprod hmem
  have hleaf : t.requiredProducers (.treeNode .gratisPrefix 0 i)
      = .ok [.unit (.primary .amountMap i)] := if_pos ⟨rfl, hi⟩
  obtain rfl := Except.ok.inj (hleaf.symm.trans hprod)
  simp [memberAt] at hmem

theorem rootReduce_consumedOnce (hphase : q.phase = .rootReduce)
    (hroot : q ≠ t.treeRoot .rootReduce) : t.ConsumedOnce .rootReduce q := by
  -- with one leaf the leaf is the root
  have hn : t.primaryLeafCount ≠ 1 := by
    intro hn
    obtain ⟨level, index, ⟨rfl, hi⟩ | ⟨-, hi⟩, rfl⟩ := hq.exists_place wf hphase
    · have hi : index < t.primaryLeafCount := hi
      rw [hn] at hi
      exact hroot (by rw [lt_one_iff.1 hi, treeRoot, if_pos hn]; rfl)
    · exact (nodeWidth_rootReduce hi).1 hn
  rw [treeRoot, if_neg hn] at hroot
  obtain ⟨level, index, hl, hi, rfl⟩ :=
    exists_member wf (isReducer_rootReduce hn) hq (.inl hphase) hroot
  refine reducer_consumedOnce wf (isReducer_rootReduce hn) hl hi ?_
  -- a leaf reads an output and the roots of the merges
  intro i producers hi hprod hmem
  obtain ⟨m, hspan⟩ := exists_isSpan_root wf
  obtain rfl := Except.ok.inj ((rootLeaf_producers wf hi hspan).symm.trans hprod)
  simp [memberAt, spanUnit] at hmem

theorem mergePhase_consumedOnce (hmerge : phase.isMerge = true) (hphase : q.phase = phase)
    (hroot : q ≠ t.treeRoot phase) : t.ConsumedOnce phase q := by
  obtain ⟨level, index, hplace, rfl⟩ := hq.exists_place wf hphase
  obtain ⟨hspan, heq⟩ := hplace.isSpan wf hmerge
  rw [heq] at hroot ⊢
  refine merge_consumedOnce wf hmerge hspan ?_
  rintro ⟨hs, he⟩
  rw [he, hs] at hspan hroot
  rw [hspan.level_unique (isSpan_mergeRoot wf)] at hroot
  cases phase <;> first | exact hroot rfl | exact nomatch hmerge

/-- In every tree each member but the root is read by exactly one parent. -/
theorem consumedOnce (htree : phase.isTree = true) (hin : InTree phase q)
    (hroot : q ≠ t.treeRoot phase) : t.ConsumedOnce phase q := by
  have hphase : phase ≠ .fixedReduce → q.phase = phase := fun hne =>
    hin.resolve_right fun h => hne h.1
  cases phase with
  | fixedReduce => exact fixedReduce_consumedOnce wf hq hin hroot
  | gratisPrefix => exact gratisPrefix_consumedOnce wf hq (hphase (by decide)) hroot
  | rootReduce => exact rootReduce_consumedOnce wf hq (hphase (by decide)) hroot
  | ownerShuffle | bucketShuffle =>
    exact mergePhase_consumedOnce wf hq rfl (hphase (by decide)) hroot
  | enumerate | fidelityMap | amountMap | gratisPrefixDown | outputFinalize => exact nomatch htree

end Consumed

/-- The leaves of every tree are visited from left to right. -/
theorem leavesBelow_root (wf : t.Wf) (htree : phase.isTree = true) :
    t.leavesBelow (t.height + 1) (t.treeRoot phase) = range t.primaryLeafCount := by
  have hlevel : t.IsLevel t.height := ⟨wf.height_pos, le_rfl⟩
  have hreducer : ∀ {phase leafPhase : UnitPhase} {purpose : InputPurpose} {fullTree : Bool},
      IsReducer t phase leafPhase purpose fullTree → 0 < t.width fullTree t.height →
      t.leavesBelow (t.height + 1) (.treeNode phase t.height 0) = range t.primaryLeafCount := by
    intro phase leafPhase purpose fullTree hr hpos
    rw [leavesBelow_reducer wf hr hlevel hpos (by omega), zero_mul, covered_all wf]
  have hfull : 0 < t.width true t.height := by
    show 0 < t.fullWidth t.height
    rw [fullWidth_height wf]
    exact Nat.one_pos
  have hactive : 0 < t.width false t.height := by
    show 0 < t.activeWidth t.height
    rw [lt_activeWidth, zero_mul]
    exact wf.leaf_pos
  have hmerge : ∀ {phase : UnitPhase}, phase.isMerge = true →
      t.leavesBelow (t.height + 1) (spanUnit phase 0 t.primaryLeafCount
        (Nat.log2 (nextPowerOfTwo t.primaryLeafCount))) = range t.primaryLeafCount := by
    intro phase hphase
    have hspan := isSpan_mergeRoot wf
    have hle := hspan.level_le wf
    rw [leavesBelow_merge wf hphase hspan (by omega), Nat.sub_zero, range_eq_range']
  cases phase with
  | fixedReduce => exact hreducer isReducer_fixedReduce hfull
  | gratisPrefix => exact hreducer isReducer_gratisPrefix hactive
  | rootReduce =>
    show t.leavesBelow (t.height + 1)
      (.treeNode .rootReduce (if t.primaryLeafCount = 1 then 0 else t.height) 0) = _
    by_cases hn : t.primaryLeafCount = 1
    · have hleaf : leafIndex (.treeNode .rootReduce 0 0) = some 0 := rfl
      rw [if_pos hn, leavesBelow_of_leaf hleaf, hn]
      rfl
    · rw [if_neg hn]
      exact hreducer (isReducer_rootReduce hn) hfull
  | ownerShuffle | bucketShuffle => exact hmerge rfl
  | enumerate | fidelityMap | amountMap | gratisPrefixDown | outputFinalize => exact nomatch htree

/-! ### The plan as a whole -/

/-- The plan numbers its units in an order in which nothing waits. -/
structure IsPlan (t : PaddedBinaryTree) : Prop where
  /-- The two directions are inverse to each other. -/
  inverse : ∀ k p, t.planPositionAt k = .ok p ↔ t.planOrdinalOf p = .ok k
  /-- The ordinals are those below the number of units. -/
  ordinals : ∀ k, (∃ p, t.planPositionAt k = .ok p) ↔ k < t.totalUnitCount
  /-- The positions are the planned ones of all phases. -/
  positions : ∀ p, (∃ k, t.planOrdinalOf p = .ok k) ↔ t.Planned p
  /-- Producers are planned and have smaller ordinals. -/
  producers : ∀ p k, t.planOrdinalOf p = .ok k →
    ∃ producers, t.requiredProducers p = .ok producers ∧
      ∀ q, .unit q ∈ producers → t.Planned q ∧ ∃ j, t.planOrdinalOf q = .ok j ∧ j < k
  /-- In every tree each member but the root is read by exactly one parent. -/
  consumed : ∀ phase q, phase.isTree = true → t.Planned q → InTree phase q →
    q ≠ t.treeRoot phase → t.ConsumedOnce phase q
  /-- The leaves of every tree are visited from left to right. -/
  leaves : ∀ phase, phase.isTree = true →
    t.leavesBelow (t.height + 1) (t.treeRoot phase) = range t.primaryLeafCount
  /-- No count wraps: the counts are the exact sums, below the bound of the integers. -/
  exact_counts : (∀ phase, t.phaseUnitCount phase = t.exactUnitCount phase) ∧
    t.totalUnitCount = (lysisPlanPhaseOrder.map t.exactUnitCount).sum ∧ t.totalUnitCount < 2 ^ 32

theorem isPlan_of_wf (wf : t.Wf) : IsPlan t := by
  have hplanned : ∀ p, (∃ k, t.planOrdinalOf p = .ok k) ↔ t.Planned p := by
    intro p
    simp only [Planned, planOrdinalOf_eq_ok wf, phasePositionAt_eq_ok wf, true_and]
    exact ⟨fun ⟨_, i, hi, _⟩ => ⟨i, hi⟩, fun ⟨i, hi⟩ => ⟨_, i, hi, rfl⟩⟩
  refine ⟨?_, ?_, hplanned, ?_, ?_, ?_, ?_⟩
  · intro k p
    rw [planPositionAt_eq_ok wf, planOrdinalOf_eq_ok wf]
  · intro k
    rw [totalUnitCount_eq wf]
    simp only [planPositionAt_eq_ok wf]
    exact ⟨fun ⟨_, h⟩ => h.lt, fun h => exists_numbered h⟩
  · intro p k hk
    obtain ⟨producers, hp, hbefore⟩ := producers_before wf ((planOrdinalOf_eq_ok wf).1 hk)
    refine ⟨producers, hp, fun q hq => ?_⟩
    obtain ⟨j, hj, hlt⟩ := hbefore q hq
    have hord := (planOrdinalOf_eq_ok wf).2 hj
    exact ⟨(hplanned q).1 ⟨j, hord⟩, j, hord, hlt⟩
  · exact fun phase q htree hq hin hroot => consumedOnce wf hq htree hin hroot
  · exact fun phase htree => leavesBelow_root wf htree
  · refine ⟨phaseUnitCount_eq wf, totalUnitCount_eq wf, ?_⟩
    rw [totalUnitCount_eq wf]
    exact planTotal_lt wf

/-- The work plan over up to `2 ^ 28` primary leaves, more than a `u32` population has. -/
theorem lysis_plan (n : Nat) (h1 : 1 ≤ n) (h2 : n ≤ 2 ^ 28) :
    ∃ t, forPrimaryLeafCount n = .ok t ∧ t.primaryLeafCount = n ∧ IsPlan t := by
  obtain ⟨t, ht, hn, wf⟩ := wf_of_forPrimaryLeafCount h1 h2
  exact ⟨t, ht, hn, isPlan_of_wf wf⟩

theorem lysis_plan_five :
    1 ≤ 5 ∧ 5 ≤ 2 ^ 28 ∧
      ∃ t, forPrimaryLeafCount 5 = .ok t ∧ t.primaryLeafCount = 5 ∧ IsPlan t :=
  ⟨by decide, by decide, lysis_plan 5 (by decide) (by decide)⟩

/-- Every `u32` population of tributes is planned, with each tribute in exactly one primary shard. -/
theorem isPlan_of_tributes {n : Nat} (h1 : 1 ≤ n) (hn : n < 2 ^ 32) :
    ∃ t, forTributeCount n = .ok t ∧ IsPlan t ∧ ∀ k < n, ∃! i, ∃ shard,
      t.primaryShard i = .ok shard ∧ shard.startOrdinal ≤ k ∧ k < shard.endOrdinal := by
  have hcount : primaryWorkUnitCount n = .ok ((n + 255) / 256) := by
    simp only [primaryWorkUnitCount, laws]
    refine ⟨(), by omega, ?_⟩
    split <;> simp only [primaryWorkShardSize] at * <;> omega
  obtain ⟨t, ht, hleaves, wf⟩ :=
    wf_of_forPrimaryLeafCount (n := (n + 255) / 256) (by omega) (by omega)
  have hplan : IsPlan { t with tributeCount := some n } := isPlan_of_wf { wf with }
  refine ⟨_, by simp [forTributeCount, hcount, ht], hplan, fun k hk => ?_⟩
  have hshard : ∀ {i shard}, primaryShard { t with tributeCount := some n } i = .ok shard ↔
      i < (n + 255) / 256 ∧ shard = ⟨i, i * 256, min (i * 256 + 256) n⟩ := by
    intro i shard
    have hend : min (min (i * 256 + 256) (2 ^ 32 - 1)) n = min (i * 256 + 256) n := by omega
    simp only [primaryShard, laws, Tx.exists_unit, hleaves, checkedMul_eq_some,
      primaryWorkShardSize, saturatingAdd, hend, Option.some.injEq, ↓existsAndEq, not_le, true_and,
      and_true]
    exact ⟨fun h => ⟨h.1, h.2.2⟩, fun h => ⟨h.1, by omega, h.2⟩⟩
  refine ⟨k / 256, ⟨_, hshard.mpr ⟨by omega, rfl⟩, by simp only; omega, by simp only; omega⟩, ?_⟩
  rintro i ⟨_, hi, hle, hlt⟩
  obtain ⟨-, rfl⟩ := hshard.mp hi
  simp only at hle hlt
  omega

end PaddedBinaryTree

end Rudis.Lysis

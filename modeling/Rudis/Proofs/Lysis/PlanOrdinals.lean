import Rudis.Lib.Blocks
import Rudis.Spec.Lysis.Planner

/-!
# `Rudis.Proofs.Lysis.PlanOrdinals`: the levels of the plan's trees

The planner's trees over at most `2 ^ 28` primary leaves are well formed (`Wf`). A phase lays its
units out level by level: the widths of the levels of the full, the active and the merge trees are
added up here, and a node's place in such a layout is an instance of `Blocks.locate`.
-/

namespace Rudis.Lysis

open List Nat
open Blocks

/-! ### Powers of two -/

variable {j k n ordinal : Nat}

theorem nextPowerOfTwo_spec (hn : 1 ≤ n) :
    ∃ k, nextPowerOfTwo n = 2 ^ k ∧ n ≤ 2 ^ k ∧ (n = 1 ∧ k = 0 ∨ 1 ≤ k ∧ 2 ^ (k - 1) < n) := by
  unfold nextPowerOfTwo
  split
  · exact ⟨0, rfl, by omega, .inl ⟨by omega, rfl⟩⟩
  · rename_i h
    have hne : n - 1 ≠ 0 := by omega
    refine ⟨Nat.log2 (n - 1) + 1, rfl, ?_, .inr ⟨by omega, ?_⟩⟩
    · have := lt_log2_self (n := n - 1)
      omega
    · have := log2_self_le hne
      rw [Nat.add_sub_cancel]
      omega

/-- The exponent of a number between two powers of two. -/
theorem eq_of_two_pow_bounds (h1 : 2 ^ j ≤ n) (h2 : n < 2 ^ (j + 1)) (h3 : 2 ^ k ≤ n)
    (h4 : n < 2 ^ (k + 1)) : j = k := by
  have hjk : j < k + 1 := (Nat.pow_lt_pow_iff_right (by decide)).mp (h1.trans_lt h4)
  have hkj : k < j + 1 := (Nat.pow_lt_pow_iff_right (by decide)).mp (h3.trans_lt h2)
  omega

variable {l levels : List Nat}

theorem sum32_eq (h : l.sum < 2 ^ 32) : sum32 l = l.sum := by
  show l.foldl (wrappingAdd 32) 0 = l.sum
  rw [foldl_wrappingAdd (by omega), zero_add]

namespace PaddedBinaryTree

/-! ### The shape of a tree -/

/-- The trees the planner builds over at most `2 ^ 28` primary leaves. -/
structure Wf (t : PaddedBinaryTree) : Prop where
  leaf_pos : 1 ≤ t.primaryLeafCount
  padded : t.paddedLeafCount = 2 ^ t.height
  height_pos : 1 ≤ t.height
  height_le : t.height ≤ 28
  leaf_le : t.primaryLeafCount ≤ 2 ^ t.height
  half_lt : t.primaryLeafCount ≠ 1 → 2 ^ (t.height - 1) < t.primaryLeafCount

/-- Every leaf count up to `2 ^ 28` has a tree, and it is well formed. -/
theorem wf_of_forPrimaryLeafCount (h1 : 1 ≤ n) (h2 : n ≤ 2 ^ 28) :
    ∃ t, forPrimaryLeafCount n = .ok t ∧ t.primaryLeafCount = n ∧ Wf t := by
  obtain ⟨k, hk, hle, hcase⟩ := nextPowerOfTwo_spec h1
  have hk28 : k ≤ 28 := by
    rcases hcase with ⟨-, rfl⟩ | ⟨hpos, hlt⟩
    · omega
    · have : k - 1 < 28 := (Nat.pow_lt_pow_iff_right (a := 2) (by decide)).mp (hlt.trans_le h2)
      omega
  have hfit : nextPowerOfTwo n < 2 ^ 32 := by
    rw [hk]
    exact Nat.pow_lt_pow_right (by decide) (by omega)
  have hmax : max (2 ^ k) 2 = 2 ^ max k 1 := by
    rcases Nat.eq_zero_or_pos k with rfl | hpos
    · rfl
    · have h21 : 2 ≤ 2 ^ k := Nat.pow_le_pow_right (by decide : 0 < 2) hpos
      rw [Nat.max_eq_left hpos, Nat.max_eq_left h21]
  refine ⟨⟨none, n, 2 ^ max k 1, max k 1⟩, ?_, rfl, ?_⟩
  · simp only [forPrimaryLeafCount, laws, checkedNextPowerOfTwo, if_pos hfit]
    refine ⟨(), by omega, 2 ^ k, by rw [hk], ?_⟩
    rw [hmax, log2_two_pow]
  · refine ⟨h1, rfl, le_max_right k 1, max_le hk28 (by decide), ?_, ?_⟩
    · exact hle.trans (Nat.pow_le_pow_right (by decide) (le_max_left k 1))
    · intro hne
      rcases hcase with ⟨hn1, -⟩ | ⟨hpos, hlt⟩
      · exact absurd hn1 hne
      · show 2 ^ (max k 1 - 1) < n
        rwa [Nat.max_eq_left hpos]

variable {t : PaddedBinaryTree}

theorem Wf.leaf_lt (wf : t.Wf) : t.primaryLeafCount ≤ 2 ^ 28 :=
  wf.leaf_le.trans (Nat.pow_le_pow_right (by decide) wf.height_le)

theorem Wf.padded_le (wf : t.Wf) : 2 ^ t.height ≤ 2 ^ 28 :=
  Nat.pow_le_pow_right (by decide) wf.height_le

/-! ### Widths -/

theorem levels_eq (t : PaddedBinaryTree) : t.levels = List.range' 1 t.height := rfl

variable {level : Nat}

theorem fullWidth_eq (wf : t.Wf) (h : level ≤ t.height) :
    t.fullWidth level = 2 ^ (t.height - level) := by
  rw [fullWidth, wf.padded, Nat.pow_div h (by decide)]

/-- The levels up to one leave as many nodes of the padded tree as that level has. -/
theorem below_fullWidth (wf : t.Wf) :
    ∀ {j : Nat}, j ≤ t.height → below t.fullWidth (j + 1) + 2 ^ (t.height - j) = 2 ^ t.height := by
  intro j
  induction j with
  | zero =>
    intro _
    exact zero_add _
  | succ j ih =>
    intro h
    have hprev := ih (by omega)
    have hdouble : 2 ^ (t.height - j) = 2 ^ (t.height - (j + 1)) * 2 := by
      rw [← pow_succ]
      congr 1
      omega
    rw [below_succ _ (by omega), fullWidth_eq wf h]
    omega

theorem total_fullWidth (wf : t.Wf) : total t.fullWidth t.levels + 1 = 2 ^ t.height := by
  have h := below_fullWidth wf (Nat.le_refl t.height)
  rwa [Nat.sub_self] at h

/-- A level above the leaves. -/
def IsLevel (t : PaddedBinaryTree) (level : Nat) : Prop := 1 ≤ level ∧ level ≤ t.height

/-- Merge nodes on a level. -/
def shuffleWidth (t : PaddedBinaryTree) (level : Nat) : Nat :=
  (t.primaryLeafCount - 1 + 2 ^ (level - 1)) / 2 ^ level

theorem shuffleNodeCount_eq (wf : t.Wf) (hl : t.IsLevel level) :
    t.shuffleNodeCount level = .ok (t.shuffleWidth level) := by
  obtain ⟨h1, h2⟩ := hl
  have hlevel : level ≤ 28 := h2.trans wf.height_le
  have hhalf : 2 ^ (level - 1) ≤ 2 ^ 27 := Nat.pow_le_pow_right (by decide) (by omega)
  have hdouble := two_pow_pred_mul_two h1
  have hleaf := wf.leaf_lt
  have hpos := wf.leaf_pos
  have hshl : checkedShl (level - 1) = some (2 ^ (level - 1)) := if_pos (by omega)
  have hsub : checkedSub t.primaryLeafCount 1 = some (t.primaryLeafCount - 1) := if_pos hpos
  have hadd : checkedAdd 32 (t.primaryLeafCount - 1) (2 ^ (level - 1))
      = some (t.primaryLeafCount - 1 + 2 ^ (level - 1)) := if_pos (by omega)
  have hmul : checkedMul 32 (2 ^ (level - 1)) 2 = some (2 ^ level) := by
    rw [checkedMul, if_pos (by omega), hdouble]
  simp only [shuffleNodeCount, laws, hsub, Option.bind_some]
  exact ⟨_, hshl, _, hmul, _, hadd, rfl⟩

/-- A merge node is one whose right half covers a leaf. -/
theorem lt_shuffleWidth {level index : Nat} (h1 : 1 ≤ level) (hn : 1 ≤ t.primaryLeafCount) :
    index < t.shuffleWidth level ↔ index * 2 ^ level + 2 ^ (level - 1) < t.primaryLeafCount := by
  have hdouble := two_pow_pred_mul_two h1
  rw [shuffleWidth, ← succ_le_iff, Nat.le_div_iff_mul_le (Nat.two_pow_pos level), succ_mul]
  omega

/-- Each level takes off the leaves it merges. -/
theorem below_shuffleWidth (t : PaddedBinaryTree) :
    ∀ j : Nat, below t.shuffleWidth (j + 1) + (t.primaryLeafCount - 1) / 2 ^ j
      = t.primaryLeafCount - 1 := by
  intro j
  induction j with
  | zero => simp [below]
  | succ j ih =>
    have hhalf : (t.primaryLeafCount - 1) / 2 ^ (j + 1) = (t.primaryLeafCount - 1) / 2 ^ j / 2 := by
      rw [Nat.div_div_eq_div_mul, pow_succ]
    have hround : t.shuffleWidth (j + 1) = ((t.primaryLeafCount - 1) / 2 ^ j + 1) / 2 := by
      rw [shuffleWidth, Nat.add_sub_cancel, pow_succ, ← Nat.div_div_eq_div_mul,
        add_div_right _ (Nat.two_pow_pos j)]
    rw [below_succ _ (by omega), hround, hhalf]
    omega

theorem total_shuffleWidth (wf : t.Wf) :
    total t.shuffleWidth t.levels = t.primaryLeafCount - 1 := by
  have h := below_shuffleWidth t t.height
  have hzero : (t.primaryLeafCount - 1) / 2 ^ t.height = 0 := by
    refine div_eq_of_lt ?_
    have := wf.leaf_le
    have := wf.leaf_pos
    omega
  rwa [hzero, add_zero] at h

/-- A node is active when its first leaf is a primary one. -/
theorem lt_activeWidth {level index : Nat} :
    index < t.activeWidth level ↔ index * 2 ^ level < t.primaryLeafCount := by
  have hpos := Nat.two_pow_pos level
  rw [activeWidth, divCeil, ← succ_le_iff, Nat.le_div_iff_mul_le hpos, succ_mul]
  omega

theorem activeWidth_zero (t : PaddedBinaryTree) : t.activeWidth 0 = t.primaryLeafCount := by
  simp [activeWidth, divCeil]

theorem activeWidth_le (wf : t.Wf) (h : level ≤ t.height) :
    t.activeWidth level ≤ t.fullWidth level := by
  rw [fullWidth_eq wf h]
  by_contra hlt
  rw [not_le, lt_activeWidth, ← pow_add, Nat.sub_add_cancel h] at hlt
  have := wf.leaf_le
  omega

theorem total_activeWidth_le (wf : t.Wf) :
    total t.activeWidth t.levels ≤ total t.fullWidth t.levels := by
  refine sum_le_sum ?_
  intro level hlevel
  rw [levels_eq, mem_range'_1] at hlevel
  exact activeWidth_le wf (by omega)

variable {width : Nat → Nat}

/-- The count of active nodes is their exact sum. -/
theorem activeInternalNodeCount_eq (wf : t.Wf) :
    t.activeInternalNodeCount = total t.activeWidth t.levels := by
  refine sum32_eq ?_
  have h1 := total_activeWidth_le wf
  have h2 := total_fullWidth wf
  have h3 := wf.padded_le
  show total t.activeWidth t.levels < 2 ^ 32
  omega

theorem checkedActiveWidth_eq (wf : t.Wf) (h : level ≤ t.height) :
    t.checkedActiveWidth level = .ok (t.activeWidth level) := by
  have hlevel : level ≤ 28 := h.trans wf.height_le
  have hshl : checkedShl level = some (2 ^ level) := if_pos (by omega)
  simp only [checkedActiveWidth, laws]
  exact ⟨_, hshl, rfl⟩

/-! ### Levels laid out one after the other -/

theorem nodeAt_eq_ok {node : Nat × Nat} :
    nodeAt width levels ordinal = .ok node ↔ locate width levels ordinal = some node := by
  induction levels generalizing ordinal with
  | nil => exact ⟨fun h => (nomatch h), fun h => (nomatch h)⟩
  | cons level levels ih =>
    rw [nodeAt, locate]
    split
    · simp
    · exact ih

/-- With valid levels the checked widths of the merge trees are the widths. -/
theorem shuffleInternalNodeAt_eq (wf : t.Wf)
    (hlevels : ∀ l ∈ levels, t.IsLevel l) (ordinal : Nat) :
    t.shuffleInternalNodeAt levels ordinal = nodeAt t.shuffleWidth levels ordinal := by
  induction levels generalizing ordinal with
  | nil => rfl
  | cons level levels ih =>
    rw [shuffleInternalNodeAt, shuffleNodeCount_eq wf (hlevels level mem_cons_self), nodeAt]
    show (if ordinal < t.shuffleWidth level then _ else _) = _
    split
    · rfl
    · exact ih (fun l hl => hlevels l (mem_cons_of_mem _ hl)) _

theorem mem_levels : level ∈ t.levels ↔ t.IsLevel level := by
  rw [levels_eq, mem_range'_1, IsLevel]
  omega

theorem levels_nodup : t.levels.Nodup := nodup_range' 1

/-- Where a node of the levels is laid out, bottom up. -/
theorem locate_levels {ordinal level index : Nat} :
    locate width t.levels ordinal = some (level, index) ↔
      t.IsLevel level ∧ index < width level ∧ ordinal = below width level + index := by
  rw [locate_eq_some levels_nodup, mem_levels]
  refine and_congr_right fun h => ?_
  rw [levels_eq, start_levels h.1 h.2]

/-- Where a node of the levels is laid out, top down. -/
theorem locate_levels_reverse {ordinal level index : Nat} :
    locate width t.levels.reverse ordinal = some (level, index) ↔
      t.IsLevel level ∧ index < width level ∧
        ordinal = above width t.height level + index := by
  rw [locate_eq_some (nodup_reverse.2 levels_nodup), mem_reverse, mem_levels]
  refine and_congr_right fun h => ?_
  rw [levels_eq, start_levels_reverse h.1 h.2]

/-- The end of a level, bottom up. -/
theorem below_add_le_total (width : Nat → Nat) (hl : t.IsLevel level) :
    below width level + width level ≤ total width t.levels := by
  rw [← start_levels hl.1 hl.2]
  exact start_add_width_le (mem_levels.2 hl)

/-- The end of a level, top down. -/
theorem above_add_le_total (width : Nat → Nat) (hl : t.IsLevel level) :
    above width t.height level + width level ≤ total width t.levels := by
  rw [← start_levels_reverse hl.1 hl.2]
  rw [← total_reverse]
  exact start_add_width_le (mem_reverse.2 (mem_levels.2 hl))

end PaddedBinaryTree

end Rudis.Lysis

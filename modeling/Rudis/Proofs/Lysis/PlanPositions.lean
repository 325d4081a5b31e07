import Rudis.Proofs.Lysis.PlanOrdinals

/-!
# `Rudis.Proofs.Lysis.PlanPositions`: positions and ordinals of the plan

A place of a phase is an index among its leaves or on a level above them (`Place`); `unitAt` is the
unit there and `levelStart` the first ordinal of the level in the phase. The planner's arithmetic
goes from the ordinal to the unit and back (`phasePositionAt_eq_ok`, `phaseOrdinalOf_eq_ok`). The plan lays the phases out one after the other. Up to `2 ^ 28` primary
leaves no sum leaves 32 bits (`planTotal_lt`), and `planPositionAt` and `planOrdinalOf` are two
readings of one relation, `Numbered`.
-/

namespace Rudis.Lysis

open List Option
open Blocks

/-- The phases that merge sorted runs. -/
def UnitPhase.isMerge : UnitPhase → Bool
  | .ownerShuffle | .bucketShuffle => true
  | _ => false

namespace PaddedBinaryTree

variable {t : PaddedBinaryTree}

/-! ### Places -/

/-- The units of a phase on the level of the leaves. -/
def leafCount (t : PaddedBinaryTree) (phase : UnitPhase) : Nat :=
  if phase = .fixedReduce then 0 else t.primaryLeafCount

/-- The units of a phase on a level above the leaves. -/
def nodeWidth (t : PaddedBinaryTree) : UnitPhase → Nat → Nat
  | .fixedReduce => t.fullWidth
  | .gratisPrefix | .gratisPrefixDown => t.activeWidth
  | .ownerShuffle | .bucketShuffle => t.shuffleWidth
  | .rootReduce => if t.primaryLeafCount = 1 then fun _ => 0 else t.fullWidth
  | .enumerate | .fidelityMap | .amountMap | .outputFinalize => fun _ => 0

/-- A place in a phase: an index among the leaves, or among the nodes of a level above them. -/
def Place (t : PaddedBinaryTree) (phase : UnitPhase) (level index : Nat) : Prop :=
  level = 0 ∧ index < t.leafCount phase ∨ t.IsLevel level ∧ index < t.nodeWidth phase level

/-- The unit at a place. -/
def unitAt (t : PaddedBinaryTree) (phase : UnitPhase) (level index : Nat) : PlannedUnitPosition :=
  match phase with
  | .enumerate | .fidelityMap | .amountMap | .outputFinalize => .primary phase index
  | .ownerShuffle | .bucketShuffle => .runSpan phase level index (index * 2 ^ level)
      (min (index * 2 ^ level + 2 ^ level) t.primaryLeafCount)
  | .fixedReduce | .gratisPrefix | .gratisPrefixDown | .rootReduce => .treeNode phase level index

/-- The first ordinal of a level in its phase. The levels are laid out from the leaves up, and those
of the downward prefix from the root down. -/
def levelStart (t : PaddedBinaryTree) (phase : UnitPhase) (level : Nat) : Nat :=
  if phase = .gratisPrefixDown then above t.activeWidth t.height level
  else if level = 0 then 0 else t.leafCount phase + below (t.nodeWidth phase) level

/-- A unit with its ordinal in its phase. -/
inductive PlacedAt (t : PaddedBinaryTree) : PlannedUnitPosition → Nat → Prop
  | mk {phase : UnitPhase} {level index : Nat} (h : t.Place phase level index) :
      PlacedAt t (t.unitAt phase level index) (t.levelStart phase level + index)

theorem phase_unitAt (t : PaddedBinaryTree) (phase : UnitPhase) (level index : Nat) :
    (t.unitAt phase level index).phase = phase := by
  cases phase <;> rfl

variable {phase : UnitPhase} {level index : Nat}

/-- The level of the leaves comes first, except on the way down. -/
theorem levelStart_leaf (t : PaddedBinaryTree) (hup : phase ≠ .gratisPrefixDown) :
    t.levelStart phase 0 + index = index := by
  rw [levelStart, if_neg hup, if_pos rfl, zero_add]

theorem levelStart_node (hup : phase ≠ .gratisPrefixDown) (hl : t.IsLevel level) :
    t.levelStart phase level + index =
      t.leafCount phase + (below (t.nodeWidth phase) level + index) := by
  rw [levelStart, if_neg hup, if_neg (Nat.ne_of_gt hl.1), add_assoc]

/-- The root reduction over one leaf is that leaf. -/
theorem nodeWidth_rootReduce (hi : index < t.nodeWidth .rootReduce level) :
    t.primaryLeafCount ≠ 1 ∧ t.nodeWidth .rootReduce = t.fullWidth := by
  have hn : t.primaryLeafCount ≠ 1 := by
    intro hn
    rw [nodeWidth, if_pos hn] at hi
    exact absurd hi (Nat.not_lt_zero _)
  exact ⟨hn, if_neg hn⟩

/-! ### Units of a phase -/

theorem reducerNodeCount_eq (wf : t.Wf) : t.reducerNodeCount = total t.fullWidth t.levels := by
  have := total_fullWidth wf
  unfold reducerNodeCount
  rw [wf.padded]
  omega

def exactUnitCount (t : PaddedBinaryTree) : UnitPhase → Nat
  | .enumerate | .fidelityMap | .amountMap | .outputFinalize => t.primaryLeafCount
  | .fixedReduce => total t.fullWidth t.levels
  | .gratisPrefix | .gratisPrefixDown => t.primaryLeafCount + total t.activeWidth t.levels
  | .ownerShuffle | .bucketShuffle => t.primaryLeafCount + total t.shuffleWidth t.levels
  | .rootReduce =>
    if t.primaryLeafCount = 1 then 1
    else t.primaryLeafCount + total t.fullWidth t.levels

theorem exactUnitCount_eq (t : PaddedBinaryTree) (phase : UnitPhase) :
    t.exactUnitCount phase = t.leafCount phase + total (t.nodeWidth phase) t.levels := by
  have hnone : total (fun _ => 0) t.levels = 0 := by simp [total]
  cases phase with
  | rootReduce =>
    by_cases hn : t.primaryLeafCount = 1 <;> simp [exactUnitCount, leafCount, nodeWidth, hn, hnone]
  | _ => simp [exactUnitCount, leafCount, nodeWidth, hnone]

def planTotal (t : PaddedBinaryTree) : Nat := total t.exactUnitCount lysisPlanPhaseOrder

theorem planTotal_lt (wf : t.Wf) : t.planTotal < 2 ^ 32 := by
  have hn := wf.leaf_lt
  have hfull := total_fullWidth wf
  have hpad := wf.padded_le
  have hact := total_activeWidth_le wf
  have hshuffle := total_shuffleWidth wf
  have hroot : t.exactUnitCount .rootReduce
      ≤ t.primaryLeafCount + total t.fullWidth t.levels + 1 := by
    show (if t.primaryLeafCount = 1 then 1 else _) ≤ _
    split <;> omega
  simp only [planTotal, lysisPlanPhaseOrder, total_cons, total_nil]
  simp only [exactUnitCount, hshuffle] at hroot ⊢
  omega

theorem mem_lysisPlanPhaseOrder (phase : UnitPhase) : phase ∈ lysisPlanPhaseOrder := by
  cases phase <;> decide

theorem exactUnitCount_lt (wf : t.Wf) (phase : UnitPhase) : t.exactUnitCount phase < 2 ^ 32 := by
  have hle : start t.exactUnitCount lysisPlanPhaseOrder phase + t.exactUnitCount phase ≤ t.planTotal :=
    start_add_width_le (mem_lysisPlanPhaseOrder phase)
  have := planTotal_lt wf
  omega

/-- The count of a phase does not wrap. -/
theorem phaseUnitCount_eq (wf : t.Wf) (phase : UnitPhase) :
    t.phaseUnitCount phase = t.exactUnitCount phase := by
  have hlt := exactUnitCount_lt wf phase
  cases phase <;> simp only [phaseUnitCount, exactUnitCount, reducerNodeCount_eq wf,
    activeInternalNodeCount_eq wf, total_shuffleWidth wf] at hlt ⊢
  case rootReduce =>
    split
    · rfl
    · rename_i hn
      rw [if_neg hn] at hlt
      exact wrappingAdd_eq hlt
  all_goals exact wrappingAdd_eq hlt

/-- The count of the plan does not wrap. -/
theorem totalUnitCount_eq (wf : t.Wf) : t.totalUnitCount = t.planTotal := by
  have hcounts : lysisPlanPhaseOrder.map t.phaseUnitCount
      = lysisPlanPhaseOrder.map t.exactUnitCount :=
    map_congr_left fun phase _ => phaseUnitCount_eq wf phase
  unfold totalUnitCount
  rw [hcounts]
  exact sum32_eq (planTotal_lt wf)

variable {p : PlannedUnitPosition} {i : Nat}

theorem Place.lt (h : t.Place phase level index) :
    t.levelStart phase level + index < t.exactUnitCount phase := by
  rw [exactUnitCount_eq]
  by_cases hdown : phase = .gratisPrefixDown
  · subst hdown
    show above t.activeWidth t.height level + index < _ + total t.activeWidth t.levels
    rcases h with ⟨rfl, hi⟩ | ⟨hl, hi⟩
    · have htotal : above t.activeWidth t.height 0 = total t.activeWidth t.levels := rfl
      omega
    · have hle := above_add_le_total t.activeWidth hl
      have hi : index < t.activeWidth level := hi
      omega
  · rcases h with ⟨rfl, hi⟩ | ⟨hl, hi⟩
    · rw [levelStart_leaf t hdown]
      omega
    · have hle := below_add_le_total (t.nodeWidth phase) hl
      rw [levelStart_node hdown hl]
      omega

/-- Every ordinal below the count of a phase is that of a place. -/
theorem exists_place (hi : i < t.exactUnitCount phase) :
    ∃ level index, t.Place phase level index ∧ i = t.levelStart phase level + index := by
  rw [exactUnitCount_eq] at hi
  by_cases hdown : phase = .gratisPrefixDown
  · subst hdown
    have hi : i < t.primaryLeafCount + total t.activeWidth t.levels := hi
    by_cases hinner : i < total t.activeWidth t.levels.reverse
    · obtain ⟨⟨level, index⟩, hloc⟩ := isSome_iff_exists.1 (locate_isSome.2 hinner)
      obtain ⟨hl, hw, hord⟩ := locate_levels_reverse.1 hloc
      exact ⟨level, index, .inr ⟨hl, hw⟩, hord⟩
    · rw [total_reverse] at hinner
      have hleaf : i - total t.activeWidth t.levels < t.primaryLeafCount := by omega
      exact ⟨0, _, .inl ⟨rfl, hleaf⟩, (Nat.add_sub_cancel' (not_lt.1 hinner)).symm⟩
  · by_cases hleaf : i < t.leafCount phase
    · exact ⟨0, i, .inl ⟨rfl, hleaf⟩, (levelStart_leaf t hdown).symm⟩
    · obtain ⟨⟨level, index⟩, hloc⟩ := isSome_iff_exists.1
        (locate_isSome.2 (show i - t.leafCount phase < total (t.nodeWidth phase) t.levels by omega))
      obtain ⟨hl, hw, hord⟩ := locate_levels.1 hloc
      refine ⟨level, index, .inr ⟨hl, hw⟩, ?_⟩
      rw [levelStart_node hdown hl]
      omega

/-! ### From an ordinal of a phase to its position -/

/-- The runs of a node that starts at a primary leaf. -/
theorem runsOf_eq (wf : t.Wf) (hl : level ≤ t.height)
    (hi : index * 2 ^ level < t.primaryLeafCount) :
    t.runsOf phase level index = .ok (.runSpan phase level index (index * 2 ^ level)
      (min (index * 2 ^ level + 2 ^ level) t.primaryLeafCount)) := by
  have hn := wf.leaf_lt
  have hpow : 2 ^ level ≤ 2 ^ 28 := Nat.pow_le_pow_right (by decide) (hl.trans wf.height_le)
  have hlevel := hl.trans wf.height_le
  have hshl : checkedShl level = some (2 ^ level) := if_pos (by omega)
  have hmul : checkedMul 32 index (2 ^ level) = some (index * 2 ^ level) := if_pos (by omega)
  have hsat : saturatingAdd 32 (index * 2 ^ level) (2 ^ level) = index * 2 ^ level + 2 ^ level :=
    Nat.min_eq_left (by omega)
  unfold runsOf
  rw [hshl]
  show (okOr (checkedMul 32 index (2 ^ level)) _ >>= fun _ => _) = _
  rw [hmul]
  show Except.ok (PlannedUnitPosition.runSpan phase level index (index * 2 ^ level)
    (min (saturatingAdd 32 (index * 2 ^ level) (2 ^ level)) t.primaryLeafCount)) = _
  rw [hsat]

/-- A merge node starts at a primary leaf. -/
theorem start_lt_of_shuffle (wf : t.Wf) (hl : t.IsLevel level)
    (hi : index < t.shuffleWidth level) : index * 2 ^ level < t.primaryLeafCount := by
  exact lt_of_le_of_lt (Nat.le_add_right _ _) ((lt_shuffleWidth hl.1 wf.leaf_pos).1 hi)

variable {ordinal : Nat} {node : Nat × Nat}

theorem shuffleNodeAt_eq_ok (wf : t.Wf) :
    t.shuffleInternalNodeAt t.levels ordinal = .ok node ↔
      t.IsLevel node.1 ∧ node.2 < t.shuffleWidth node.1 ∧
        ordinal = below t.shuffleWidth node.1 + node.2 := by
  rw [shuffleInternalNodeAt_eq wf (fun l hl => mem_levels.1 hl), nodeAt_eq_ok]
  exact locate_levels

variable {width : Nat → Nat}

theorem nodeAt_below (hl : t.IsLevel level) (hi : index < width level) :
    nodeAt width t.levels (below width level + index) = .ok (level, index) :=
  nodeAt_eq_ok.2 (locate_levels.2 ⟨hl, hi, rfl⟩)

theorem nodeAt_above (hl : t.IsLevel level) (hi : index < width level) :
    nodeAt width t.levels.reverse (above width t.height level + index) = .ok (level, index) :=
  nodeAt_eq_ok.2 (locate_levels_reverse.2 ⟨hl, hi, rfl⟩)

/-- The planner finds the unit of a place at its ordinal. -/
theorem Place.phasePositionAt_eq (wf : t.Wf) (h : t.Place phase level index) :
    t.phasePositionAt phase (t.levelStart phase level + index) = .ok (t.unitAt phase level index) := by
  have hlt := h.lt
  rw [← phaseUnitCount_eq wf] at hlt
  show (throwIf (_ ≥ t.phaseUnitCount phase) _ >>= fun _ => _) = _
  rw [throwIf, if_neg (not_le.2 hlt)]
  -- the internal nodes stand behind the leaves
  have hbehind {k : Nat} {g : Nat → Except PlannerError (Nat × Nat)}
      {f : Nat × Nat → Except PlannerError PlannedUnitPosition}
      {x : Except PlannerError PlannedUnitPosition} {p : PlannedUnitPosition} (hg : g k = .ok (level, index))
      (hf : f (level, index) = .ok p) :
      (if t.primaryLeafCount + k < t.primaryLeafCount then x else
        g (t.primaryLeafCount + k - t.primaryLeafCount) >>= f) = .ok p := by
    rw [if_neg (by omega), Nat.add_sub_cancel_left, hg]
    exact hf
  rcases h with ⟨rfl, hi⟩ | ⟨hl, hi⟩
  · cases phase with
    | fixedReduce => exact absurd hi (Nat.not_lt_zero _)
    | enumerate | fidelityMap | amountMap | outputFinalize =>
      rw [levelStart_leaf t (by decide)]
      rfl
    | gratisPrefix | rootReduce =>
      rw [levelStart_leaf t (by decide)]
      exact if_pos hi
    | gratisPrefixDown =>
      have hi : index < t.primaryLeafCount := hi
      show (if total t.activeWidth t.levels + index < t.activeInternalNodeCount then _ else
        pure (PlannedUnitPosition.treeNode .gratisPrefixDown 0
          (total t.activeWidth t.levels + index - t.activeInternalNodeCount))) = _
      rw [activeInternalNodeCount_eq wf, if_neg (by omega), Nat.add_sub_cancel_left]
      rfl
    | ownerShuffle | bucketShuffle =>
      have hi : index < t.primaryLeafCount := hi
      rw [levelStart_leaf t (by decide)]
      exact (if_pos hi).trans (runsOf_eq wf (Nat.zero_le _) (by simpa using hi))
  · cases phase with
    | enumerate | fidelityMap | amountMap | outputFinalize => exact absurd hi (Nat.not_lt_zero _)
    | fixedReduce =>
      have hi : index < t.fullWidth level := hi
      rw [levelStart_node (by decide) hl, leafCount, if_pos rfl, zero_add]
      show (nodeAt t.fullWidth t.levels (below t.fullWidth level + index) >>= fun _ => _) = _
      rw [nodeAt_below hl hi]
      rfl
    | gratisPrefix =>
      rw [levelStart_node (by decide) hl]
      exact hbehind (g := nodeAt t.activeWidth t.levels) (nodeAt_below hl hi) rfl
    | gratisPrefixDown =>
      have hle := above_add_le_total t.activeWidth hl
      have hi : index < t.activeWidth level := hi
      show (if above t.activeWidth t.height level + index < t.activeInternalNodeCount then
        nodeAt t.activeWidth t.levels.reverse (above t.activeWidth t.height level + index) >>=
          fun _ => _ else _) = _
      rw [activeInternalNodeCount_eq wf, if_pos (by omega), nodeAt_above hl hi]
      rfl
    | ownerShuffle | bucketShuffle =>
      rw [levelStart_node (by decide) hl]
      exact hbehind (g := t.shuffleInternalNodeAt t.levels)
        ((shuffleNodeAt_eq_ok wf).2 ⟨hl, hi, rfl⟩)
        (runsOf_eq wf hl.2 (start_lt_of_shuffle wf hl hi))
    | rootReduce =>
      obtain ⟨-, hwidth⟩ := nodeWidth_rootReduce hi
      rw [levelStart_node (by decide) hl]
      rw [hwidth] at hi ⊢
      exact hbehind (g := nodeAt t.fullWidth t.levels) (nodeAt_below hl hi) rfl

/-- What stands at an ordinal of a phase. -/
theorem phasePositionAt_eq_ok (wf : t.Wf) :
    t.phasePositionAt phase i = .ok p ↔ p.phase = phase ∧ PlacedAt t p i := by
  constructor
  · intro h
    obtain ⟨⟨⟩, hlt, -⟩ := bind_eq_ok.1 h
    rw [throwIf_eq_ok, phaseUnitCount_eq wf] at hlt
    -- some place has this ordinal, and its unit is the one the planner finds
    obtain ⟨level, index, hplace, rfl⟩ := exists_place (not_le.1 hlt)
    obtain rfl := Except.ok.inj (h.symm.trans (hplace.phasePositionAt_eq wf))
    exact ⟨phase_unitAt t phase level index, .mk hplace⟩
  · rintro ⟨rfl, ⟨h⟩⟩
    rw [phase_unitAt]
    exact h.phasePositionAt_eq wf

/-! ### From a position to its ordinal in the phase -/

/-- The sum over the levels before a node. -/
theorem foldlM_widths {width : Nat → Nat} {checked : Nat → Except PlannerError Nat}
    {before : List Nat} (hwidth : ∀ l ∈ before, checked l = .ok (width l)) {acc : Nat}
    (hfit : acc + total width before < 2 ^ 32) :
    before.foldlM (fun acc l => checked l >>= fun w =>
      okOr (checkedAdd 32 acc w) .integerOverflow) acc = .ok (acc + total width before) := by
  induction before generalizing acc with
  | nil => rfl
  | cons l before ih =>
    rw [total_cons] at hfit ⊢
    have hadd : checkedAdd 32 acc (width l) = some (acc + width l) := if_pos (by omega)
    rw [foldlM_cons, hwidth l mem_cons_self]
    show (okOr (checkedAdd 32 acc (width l)) PlannerError.integerOverflow >>= fun _ => _) = _
    rw [hadd, ← add_assoc]
    exact ih (fun l hl => hwidth l (mem_cons_of_mem _ hl)) (by omega)

theorem levelOrdinal_eq {checked : Nat → Except PlannerError Nat}
    {before : List Nat} (hl : t.IsLevel level)
    (hwidth : ∀ l ∈ before, checked l = .ok (width l)) (hlevel : checked level = .ok (width level))
    (hi : index < width level) (hfit : total width before + index < 2 ^ 32) :
    t.levelOrdinal before checked level index = .ok (total width before + index) := by
  have hadd : checkedAdd 32 (total width before) index
      = some (total width before + index) := if_pos hfit
  obtain ⟨h1, h2⟩ := hl
  have hfold := @foldlM_widths width checked before hwidth 0 (by omega)
  rw [zero_add] at hfold
  simp only [levelOrdinal, laws]
  exact ⟨(), by omega, _, hfold, _, hlevel, (), not_le.2 hi, hadd⟩

/-- The planner computes the ordinal of a place. -/
theorem Place.rawPhaseOrdinal_eq (wf : t.Wf) (h : t.Place phase level index) :
    t.rawPhaseOrdinal (t.unitAt phase level index) = .ok (t.levelStart phase level + index) := by
  have hfit := h.lt.trans (exactUnitCount_lt wf phase)
  rcases h with ⟨rfl, hi⟩ | ⟨hl, hi⟩
  · cases phase with
    | gratisPrefixDown =>
      show okOr (checkedAdd 32 t.activeInternalNodeCount index) _ = _
      rw [activeInternalNodeCount_eq wf]
      exact congrArg (okOr · _) (if_pos hfit)
    | _ =>
      rw [levelStart_leaf t (by decide)]
      first | rfl | exact absurd hi (Nat.not_lt_zero _)
  · have hbelow : ∀ l ∈ levelsBelow level, t.IsLevel l := by
      intro l hmem
      rw [levelsBelow, mem_range'_1] at hmem
      have := hl.2
      exact ⟨by omega, by omega⟩
    -- the internal nodes stand behind the leaves
    have hnode : ∀ {k : Nat} {x : Except PlannerError Nat}, x = .ok k →
        t.primaryLeafCount + k < 2 ^ 32 →
        (if level = 0 then pure index else x >>= fun ordinal =>
          okOr (checkedAdd 32 t.primaryLeafCount ordinal) PlannerError.integerOverflow)
          = .ok (t.primaryLeafCount + k) := by
      rintro k x rfl hk
      rw [if_neg (Nat.ne_of_gt hl.1)]
      exact congrArg (okOr · _) (if_pos hk)
    by_cases hdown : phase = .gratisPrefixDown
    · subst hdown
      have htotal : total t.activeWidth (List.range' (level + 1) (t.height - level)).reverse
          = above t.activeWidth t.height level := total_reverse _ _
      have hmem : ∀ l ∈ (List.range' (level + 1) (t.height - level)).reverse, l ≤ t.height := by
        intro l hmem
        rw [mem_reverse, mem_range'_1] at hmem
        have := hl.2
        omega
      have hord : t.activeTopDownOrdinal level index
          = .ok (total t.activeWidth (List.range' (level + 1) (t.height - level)).reverse + index) :=
        levelOrdinal_eq hl (fun l hl => checkedActiveWidth_eq wf (hmem l hl))
          (checkedActiveWidth_eq wf hl.2) hi (by rw [htotal]; exact hfit)
      show (if level = 0 then _ else t.activeTopDownOrdinal level index) = _
      rw [if_neg (Nat.ne_of_gt hl.1), hord, htotal]
      rfl
    · rw [levelStart_node hdown hl] at hfit ⊢
      have hinner : below (t.nodeWidth phase) level + index < 2 ^ 32 := by omega
      cases phase with
      | gratisPrefixDown => exact absurd rfl hdown
      | enumerate | fidelityMap | amountMap | outputFinalize => exact absurd hi (Nat.not_lt_zero _)
      | fixedReduce =>
        rw [leafCount, if_pos rfl, zero_add]
        exact levelOrdinal_eq hl (fun _ _ => rfl) rfl hi hinner
      | gratisPrefix =>
        exact hnode (levelOrdinal_eq hl (fun l hmem => checkedActiveWidth_eq wf (hbelow l hmem).2)
          (checkedActiveWidth_eq wf hl.2) hi hinner) hfit
      | ownerShuffle | bucketShuffle =>
        exact hnode (levelOrdinal_eq hl (fun l hmem => shuffleNodeCount_eq wf (hbelow l hmem))
          (shuffleNodeCount_eq wf hl) hi hinner) hfit
      | rootReduce =>
        obtain ⟨-, hwidth⟩ := nodeWidth_rootReduce hi
        rw [hwidth] at hi hinner hfit ⊢
        exact hnode (levelOrdinal_eq hl (fun _ _ => rfl) rfl hi hinner) hfit

theorem phaseOrdinalOf_eq_ok (wf : t.Wf) : t.phaseOrdinalOf p = .ok i ↔ PlacedAt t p i := by
  constructor
  · intro h
    simp only [phaseOrdinalOf, laws, not_not] at h
    obtain ⟨raw, -, actual, hactual, ⟨⟩, rfl, rfl⟩ := h
    exact ((phasePositionAt_eq_ok wf).1 hactual).2
  · rintro ⟨h⟩
    simp only [phaseOrdinalOf, laws, phase_unitAt]
    exact ⟨_, h.rawPhaseOrdinal_eq wf, _, h.phasePositionAt_eq wf, (), fun h => h rfl, rfl⟩

/-! ### The plan -/

/-- A position has a number in the plan: the units of the phases before its own, and its ordinal
there. -/
def Numbered (t : PaddedBinaryTree) (p : PlannedUnitPosition) (k : Nat) : Prop :=
  ∃ i, PlacedAt t p i ∧ k = start t.exactUnitCount lysisPlanPhaseOrder p.phase + i

theorem PlacedAt.lt (h : PlacedAt t p i) : i < t.exactUnitCount p.phase := by
  obtain ⟨h⟩ := h
  rw [phase_unitAt]
  exact h.lt

theorem Numbered.lt {k : Nat} (h : Numbered t p k) : k < t.planTotal := by
  obtain ⟨i, hi, rfl⟩ := h
  have hlt := hi.lt
  have hle : start t.exactUnitCount lysisPlanPhaseOrder p.phase + t.exactUnitCount p.phase
      ≤ total t.exactUnitCount lysisPlanPhaseOrder :=
    start_add_width_le (mem_lysisPlanPhaseOrder p.phase)
  unfold planTotal
  omega

variable {phases : List UnitPhase}

/-- The walk over the phases locates an ordinal. -/
theorem planPositionFrom_eq (wf : t.Wf) {offset : Nat}
    (hle : offset ≤ ordinal) (hfit : offset + total t.exactUnitCount phases < 2 ^ 32) :
    t.planPositionFrom ordinal phases offset = .ok p ↔
      ∃ phase i, locate t.exactUnitCount phases (ordinal - offset) = some (phase, i) ∧
        t.phasePositionAt phase i = .ok p := by
  induction phases generalizing offset with
  | nil =>
    constructor
    · intro h
      exact nomatch h
    · rintro ⟨_, _, h, -⟩
      exact nomatch h
  | cons phase phases ih =>
    rw [total_cons] at hfit
    have hnext : wrappingAdd 32 offset (t.phaseUnitCount phase)
        = offset + t.exactUnitCount phase := by
      rw [phaseUnitCount_eq wf, wrappingAdd_eq (by omega)]
    rw [planPositionFrom, locate, hnext]
    show (if ordinal < offset + t.exactUnitCount phase then
      t.phasePositionAt phase (wrappingSub 32 ordinal offset) else _) = _ ↔ _
    by_cases hlt : ordinal < offset + t.exactUnitCount phase
    · rw [if_pos hlt, if_pos (by omega), wrappingSub_eq hle (by omega)]
      simp
    · rw [if_neg hlt, if_neg (by omega), ih (by omega) (by omega), Nat.sub_add_eq]

/-- What stands at an ordinal of the plan. -/
theorem planPositionAt_eq_ok (wf : t.Wf) {k : Nat} :
    t.planPositionAt k = .ok p ↔ Numbered t p k := by
  unfold planPositionAt
  rw [planPositionFrom_eq wf (Nat.zero_le k) (by rw [zero_add]; exact planTotal_lt wf)]
  simp only [locate_eq_some (show lysisPlanPhaseOrder.Nodup by decide), phasePositionAt_eq_ok wf]
  constructor
  · rintro ⟨_, i, ⟨-, -, rfl⟩, rfl, hp⟩
    exact ⟨i, hp, rfl⟩
  · rintro ⟨i, hp, rfl⟩
    exact ⟨p.phase, i, ⟨mem_lysisPlanPhaseOrder _, hp.lt, rfl⟩, rfl, hp⟩

theorem phaseOffsetFrom_eq (wf : t.Wf) {target : UnitPhase}
    {offset : Nat} (hmem : target ∈ phases)
    (hfit : offset + total t.exactUnitCount phases < 2 ^ 32) :
    t.phaseOffsetFrom target phases offset
      = .ok (offset + start t.exactUnitCount phases target) := by
  induction phases generalizing offset with
  | nil => exact absurd hmem not_mem_nil
  | cons phase phases ih =>
    rw [total_cons] at hfit
    rw [phaseOffsetFrom, start]
    by_cases heq : phase = target
    · rw [if_pos heq, if_pos heq]
      rfl
    · have hadd : checkedAdd 32 offset (t.phaseUnitCount phase)
          = some (offset + t.exactUnitCount phase) := by
        rw [phaseUnitCount_eq wf]
        exact if_pos (by omega)
      rw [if_neg heq, if_neg heq, hadd, ← add_assoc]
      exact ih ((mem_cons.1 hmem).resolve_left (Ne.symm heq)) (by omega)

theorem planOrdinalOf_eq_ok (wf : t.Wf) {k : Nat} : t.planOrdinalOf p = .ok k ↔ Numbered t p k := by
  have hoffset : t.phaseOffset p.phase
      = .ok (start t.exactUnitCount lysisPlanPhaseOrder p.phase) := by
    have h : t.phaseOffsetFrom p.phase lysisPlanPhaseOrder 0 = _ :=
      phaseOffsetFrom_eq wf (mem_lysisPlanPhaseOrder p.phase) (by rw [zero_add]; exact planTotal_lt wf)
    rwa [zero_add] at h
  simp only [planOrdinalOf, laws, hoffset, Except.ok.injEq, phaseOrdinalOf_eq_ok wf,
    checkedAdd_eq_some]
  constructor
  · rintro ⟨i, hi, _, rfl, -, rfl⟩
    exact ⟨i, hi, rfl⟩
  · rintro ⟨i, hi, rfl⟩
    have hlt := Numbered.lt ⟨i, hi, rfl⟩
    exact ⟨i, hi, _, rfl, hlt.trans (planTotal_lt wf), rfl⟩

/-- Every ordinal below the total is the number of a position. -/
theorem exists_numbered {k : Nat} (hk : k < t.planTotal) : ∃ p, Numbered t p k := by
  obtain ⟨⟨phase, i⟩, hloc⟩ := isSome_iff_exists.1 (locate_isSome.2 hk)
  obtain ⟨-, hi, rfl⟩ := (locate_eq_some (show lysisPlanPhaseOrder.Nodup by decide)).1 hloc
  obtain ⟨level, index, hplace, rfl⟩ := exists_place hi
  exact ⟨_, _, .mk hplace, by rw [phase_unitAt]⟩

end PaddedBinaryTree

end Rudis.Lysis

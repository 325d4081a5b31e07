import Rudis.Proofs.Lysis.PlanPositions

/-!
# `Rudis.Proofs.Lysis.PlanProducers`: the producers of a unit come before it

The children of a reducer node stand one level below it (`IsReducer.exists_place`), the two spans of a
merge node stand on lower levels of the merge (`mergeNode_producers`), and every other producer is of
an earlier phase. So the required producers of a planned unit exist, are planned and have smaller
ordinals (`producers_before`).
-/

namespace Rudis.Lysis

open PlannedProducer (unit)
open List
open Blocks

namespace PaddedBinaryTree

variable {t : PaddedBinaryTree}

/-! ### Earlier units -/

/-- A unit of an earlier phase, or an earlier one of the phase. -/
def Before (t : PaddedBinaryTree) (q p : PlannedUnitPosition) (i : Nat) : Prop :=
  ∃ j, PlacedAt t q j ∧
    (lysisPlanPhaseOrder.idxOf q.phase < lysisPlanPhaseOrder.idxOf p.phase ∨
      q.phase = p.phase ∧ j < i)

variable {i k level index : Nat} {p q : PlannedUnitPosition} {phase leafPhase : UnitPhase}

/-- Earlier units have smaller numbers. -/
theorem Before.numbered (h : Before t q p i) :
    ∃ j, Numbered t q j ∧
      j < start t.exactUnitCount lysisPlanPhaseOrder p.phase + i := by
  obtain ⟨j, hj, hcase⟩ := h
  refine ⟨_, ⟨j, hj, rfl⟩, ?_⟩
  rcases hcase with hphase | ⟨hphase, hlt⟩
  · have hle : start t.exactUnitCount lysisPlanPhaseOrder q.phase
        + t.exactUnitCount q.phase
        ≤ start t.exactUnitCount lysisPlanPhaseOrder p.phase :=
      start_add_width_le_start hphase (mem_lysisPlanPhaseOrder p.phase)
    have := hj.lt
    omega
  · rw [hphase]
    omega

theorem Place.before (h : t.Place phase level index)
    (hlt : lysisPlanPhaseOrder.idxOf phase < lysisPlanPhaseOrder.idxOf p.phase) :
    Before t (t.unitAt phase level index) p i :=
  ⟨_, .mk h, .inl (by rwa [phase_unitAt])⟩

/-- A leaf of an earlier phase. -/
theorem before_leaf (phase : UnitPhase) (hi : index < t.leafCount phase)
    (h : decide (lysisPlanPhaseOrder.idxOf phase < lysisPlanPhaseOrder.idxOf p.phase) = true) :
    Before t (t.unitAt phase 0 index) p i :=
  Place.before (.inl ⟨rfl, hi⟩) (of_decide_eq_true h)

/-- On the way up a lower level of the phase comes first. -/
theorem Place.before_node {low child : Nat} (h : t.Place phase low child)
    (hup : phase ≠ .gratisPrefixDown) (hl : t.IsLevel level) (hlt : low < level)
    (hp : p.phase = phase) (index : Nat) :
    Before t (t.unitAt phase low child) p (t.levelStart phase level + index) := by
  refine ⟨_, .mk h, .inr ⟨(phase_unitAt ..).trans hp.symm, ?_⟩⟩
  rw [levelStart_node hup hl]
  rcases h with ⟨rfl, hi⟩ | ⟨hlow, hi⟩
  · rw [levelStart_leaf t hup]
    omega
  · have hle := below_add_le (t.nodeWidth phase) hlow.1 hlt
    rw [levelStart_node hup hlow]
    omega

/-! ### Reducer nodes -/

/-- The nodes of a level of the full or the active tree. -/
def width (t : PaddedBinaryTree) (fullTree : Bool) (level : Nat) : Nat :=
  if fullTree then t.fullWidth level else t.activeWidth level

/-- The members of a level of a reducer tree, the primary leaves included. -/
def memberCount (t : PaddedBinaryTree) (fullTree : Bool) (level : Nat) : Nat :=
  if level = 0 then t.primaryLeafCount else t.width fullTree level

/-- A member of a reducer tree: a node of its phase, or a leaf that another phase may supply. -/
def memberAt (phase leafPhase : UnitPhase) (level index : Nat) : PlannedUnitPosition :=
  if level = 0 ∧ leafPhase ≠ phase then .primary leafPhase index else .treeNode phase level index

/-- A phase whose nodes reduce the full or the active tree over the leaves of a phase. -/
structure IsReducer (t : PaddedBinaryTree) (phase leafPhase : UnitPhase) (purpose : InputPurpose)
    (fullTree : Bool) : Prop where
  /-- Its nodes read their children. -/
  children : ∀ level index, 1 ≤ level → t.requiredProducers (.treeNode phase level index)
    = t.binaryChildren phase leafPhase purpose level index fullTree
  width : t.nodeWidth phase = t.width fullTree
  node : ∀ level index, t.unitAt phase level index = .treeNode phase level index
  leaf : ∀ index, t.unitAt leafPhase 0 index = memberAt phase leafPhase 0 index
  leaves : t.leafCount leafPhase = t.primaryLeafCount
  /-- The leaves are of the phase itself, or of an earlier one that has no nodes. -/
  order : leafPhase = phase ∨
    lysisPlanPhaseOrder.idxOf leafPhase < lysisPlanPhaseOrder.idxOf phase ∧
      t.leafCount phase = 0 ∧ t.nodeWidth leafPhase = fun _ => 0
  up : phase ≠ .gratisPrefixDown

theorem isReducer_fixedReduce : IsReducer t .fixedReduce .fidelityMap .fidelityPartials true :=
  ⟨fun _ _ _ => rfl, rfl, fun _ _ => rfl, fun _ => rfl, rfl, .inr ⟨by decide, rfl, rfl⟩, by decide⟩

theorem isReducer_gratisPrefix : IsReducer t .gratisPrefix .gratisPrefix .gratisPrefixTable false :=
  ⟨fun _ _ h => if_neg fun h' => absurd h'.1 (by omega), rfl, fun _ _ => rfl, fun _ => rfl, rfl,
    .inl rfl, by decide⟩

theorem isReducer_rootReduce (hn : t.primaryLeafCount ≠ 1) :
    IsReducer t .rootReduce .rootReduce .rootSummary true :=
  ⟨fun _ _ h => if_neg fun h' => absurd h'.1 (by omega), if_neg hn, fun _ _ => rfl, fun _ => rfl,
    rfl, .inl rfl, by decide⟩

variable {purpose : InputPurpose} {fullTree : Bool} {child : Nat}

/-- A child is the member of the level below, or empty. -/
theorem binaryChild_eq :
    t.binaryChild phase leafPhase purpose level child fullTree =
      if child < t.memberCount fullTree (level - 1) then .unit (memberAt phase leafPhase (level - 1) child)
      else .canonicalEmpty purpose child := by
  show (if child ≥ t.memberCount fullTree (level - 1) then _ else _) = _
  by_cases h : child < t.memberCount fullTree (level - 1)
  · rw [if_neg (not_le.2 h), if_pos h, memberAt]
    split <;> rfl
  · rw [if_pos (not_lt.1 h), if_neg h]

theorem binaryChild_eq_unit :
    t.binaryChild phase leafPhase purpose level child fullTree = .unit q ↔
      child < t.memberCount fullTree (level - 1) ∧ q = memberAt phase leafPhase (level - 1) child := by
  rw [binaryChild_eq]
  split
  · rename_i h
    simp [h, eq_comm]
  · rename_i h
    simp [h]

/-- The children of a reducer node. -/
theorem IsReducer.producers (hr : IsReducer t phase leafPhase purpose fullTree) (wf : t.Wf)
    (hl : t.IsLevel level) (hi : index < t.width fullTree level) :
    t.requiredProducers (.treeNode phase level index)
      = .ok [t.binaryChild phase leafPhase purpose level (index * 2) fullTree,
          t.binaryChild phase leafPhase purpose level (index * 2 + 1) fullTree] := by
  rw [hr.children _ _ hl.1]
  obtain ⟨h1, h2⟩ := hl
  have hsmall : index < 2 ^ 28 := by
    have hfull : t.fullWidth level ≤ 2 ^ 28 := by
      rw [fullWidth_eq wf h2]
      exact Nat.pow_le_pow_right (by decide) (by have := wf.height_le; omega)
    have hact := activeWidth_le wf h2
    cases fullTree
    · exact lt_of_lt_of_le hi (hact.trans hfull)
    · exact lt_of_lt_of_le hi hfull
  have hmul : checkedMul 32 index 2 = some (index * 2) := if_pos (by omega)
  unfold binaryChildren
  rw [throwIf, if_neg (by omega)]
  show (throwIf (index ≥ t.width fullTree level) _ >>= fun _ => _) = _
  rw [throwIf, if_neg (not_le.2 hi)]
  show (okOr (checkedMul 32 index 2) _ >>= fun _ => _) = _
  rw [hmul]
  show Except.ok [_, t.binaryChild phase leafPhase purpose level (wrappingAdd 32 (index * 2) 1)
    fullTree] = _
  rw [wrappingAdd_eq (by omega)]

/-- A unit among the children of a node is a member of the level below. -/
theorem exists_child
    (h : .unit q ∈ [t.binaryChild phase leafPhase purpose level (index * 2) fullTree,
      t.binaryChild phase leafPhase purpose level (index * 2 + 1) fullTree]) :
    ∃ child, child / 2 = index ∧ child < t.memberCount fullTree (level - 1) ∧
      q = memberAt phase leafPhase (level - 1) child := by
  simp only [mem_cons, not_mem_nil, or_false] at h
  rcases h with h | h
  · exact ⟨_, by omega, binaryChild_eq_unit.1 h.symm⟩
  · exact ⟨_, by omega, binaryChild_eq_unit.1 h.symm⟩

/-- A member of the level below has a place on a lower level or in an earlier phase. -/
theorem IsReducer.exists_place (hr : IsReducer t phase leafPhase purpose fullTree)
    (hl : t.IsLevel level) (hc : child < t.memberCount fullTree (level - 1)) :
    ∃ ph low, t.Place ph low child ∧ memberAt phase leafPhase (level - 1) child = t.unitAt ph low child ∧
      low < level ∧ (ph = phase ∨ lysisPlanPhaseOrder.idxOf ph < lysisPlanPhaseOrder.idxOf phase) := by
  obtain ⟨h1, h2⟩ := hl
  by_cases h0 : level - 1 = 0
  · rw [memberCount, if_pos h0, ← hr.leaves] at hc
    exact ⟨leafPhase, 0, .inl ⟨rfl, hc⟩, by rw [h0, hr.leaf], h1, hr.order.imp_right And.left⟩
  · rw [memberCount, if_neg h0, ← hr.width] at hc
    refine ⟨phase, level - 1, .inr ⟨⟨by omega, by omega⟩, hc⟩, ?_, by omega, .inl rfl⟩
    rw [hr.node, memberAt, if_neg fun h => h0 h.1]

/-! ### Merge nodes -/

/-- The unit that merges a span of runs. -/
def spanUnit (phase : UnitPhase) (s e m : Nat) : PlannedUnitPosition :=
  .runSpan phase m (s / 2 ^ m) s e

/-- A span of runs that one merge node covers: aligned, and cut at the number of runs. -/
structure IsSpan (t : PaddedBinaryTree) (startRun endRun level : Nat) : Prop where
  /-- The span is not empty. -/
  lt : startRun < endRun
  /-- It is cut at the number of runs. -/
  end_eq : endRun = min (startRun + 2 ^ level) t.primaryLeafCount
  least : level = 0 ∨ 2 ^ (level - 1) < endRun - startRun
  /-- It is aligned. -/
  dvd : 2 ^ level ∣ startRun

variable {s e m : Nat}

theorem IsSpan.end_le (h : t.IsSpan s e m) : e ≤ s + 2 ^ m ∧ e ≤ t.primaryLeafCount := by
  rw [h.end_eq]
  exact ⟨min_le_left _ _, min_le_right _ _⟩

/-- The least power of two over the width of a span is the one of its level. -/
theorem IsSpan.nextPowerOfTwo_eq (h : t.IsSpan s e m) : nextPowerOfTwo (e - s) = 2 ^ m := by
  have hlt := h.lt
  have hend := h.end_le.1
  obtain ⟨k, hk, hle, hcase⟩ := nextPowerOfTwo_spec (show 1 ≤ e - s by omega)
  suffices hkm : k = m by rw [hk, hkm]
  rcases hcase with ⟨hone, rfl⟩ | ⟨hpos, hlow⟩
  · rcases h.least with h0 | hleast
    · exact h0.symm
    · have := Nat.two_pow_pos (m - 1)
      omega
  · have hkm : k - 1 < m :=
      (Nat.pow_lt_pow_iff_right Nat.one_lt_two).mp (lt_of_lt_of_le hlow (by omega))
    rcases h.least with h0 | hleast
    · omega
    · have hmk : m - 1 < k :=
        (Nat.pow_lt_pow_iff_right Nat.one_lt_two).mp (lt_of_lt_of_le hleast hle)
      omega

theorem IsSpan.level_le (wf : t.Wf) (h : t.IsSpan s e m) : m ≤ t.height := by
  rcases h.least with h0 | hleast
  · omega
  · have hn := wf.leaf_le
    have hend := h.end_le.2
    have : m - 1 < t.height :=
      (Nat.pow_lt_pow_iff_right Nat.one_lt_two).mp (by omega)
    omega

/-- The two merge phases have the same places. -/
theorem mergePhase_eq (hphase : phase.isMerge = true) :
    t.leafCount phase = t.primaryLeafCount ∧ t.nodeWidth phase = t.shuffleWidth ∧
      ∀ level index, t.unitAt phase level index = .runSpan phase level index (index * 2 ^ level)
        (min (index * 2 ^ level + 2 ^ level) t.primaryLeafCount) := by
  cases phase <;> first | exact ⟨rfl, rfl, fun _ _ => rfl⟩ | exact nomatch hphase

/-- A span has a place, and its unit stands there. -/
theorem IsSpan.place (wf : t.Wf) (hphase : phase.isMerge = true) (h : t.IsSpan s e m) :
    t.Place phase m (s / 2 ^ m) ∧ t.unitAt phase m (s / 2 ^ m) = spanUnit phase s e m := by
  obtain ⟨hleaf, hnode, hunit⟩ := @mergePhase_eq t phase hphase
  have hs : s / 2 ^ m * 2 ^ m = s := Nat.div_mul_cancel h.dvd
  have hlt := h.lt
  have hend := h.end_le.2
  refine ⟨?_, by rw [hunit, hs, ← h.end_eq, spanUnit]⟩
  by_cases hm : m = 0
  · subst hm
    refine .inl ⟨rfl, ?_⟩
    rw [pow_zero, Nat.div_one, hleaf]
    omega
  · refine .inr ⟨⟨by omega, h.level_le wf⟩, ?_⟩
    rw [hnode, lt_shuffleWidth (by omega) wf.leaf_pos, hs]
    have hleast := h.least.resolve_left hm
    omega

/-- At every place of a merge stands the unit of a span. -/
theorem Place.isSpan (wf : t.Wf) (hphase : phase.isMerge = true) (h : t.Place phase level index) :
    t.IsSpan (index * 2 ^ level) (min (index * 2 ^ level + 2 ^ level) t.primaryLeafCount) level ∧
      t.unitAt phase level index = spanUnit phase (index * 2 ^ level)
        (min (index * 2 ^ level + 2 ^ level) t.primaryLeafCount) level := by
  obtain ⟨hleaf, hnode, hunit⟩ := @mergePhase_eq t phase hphase
  refine ⟨?_, by rw [hunit, spanUnit, Nat.mul_div_cancel _ (Nat.two_pow_pos level)]⟩
  rcases h with ⟨rfl, hi⟩ | ⟨hl, hi⟩
  · rw [hleaf] at hi
    refine ⟨?_, rfl, .inl rfl, Nat.one_dvd _⟩
    rw [pow_zero, mul_one, lt_min_iff]
    omega
  · have h1 := hl.1
    rw [hnode, lt_shuffleWidth h1 wf.leaf_pos] at hi
    have hpos := Nat.two_pow_pos (level - 1)
    have hhalf : 2 ^ (level - 1) < 2 ^ level := Nat.pow_lt_pow_right (by decide) (by omega)
    have hmid : index * 2 ^ level + 2 ^ (level - 1)
        < min (index * 2 ^ level + 2 ^ level) t.primaryLeafCount := by
      rw [lt_min_iff]
      omega
    exact ⟨by omega, rfl, .inr (by omega), Nat.dvd_mul_left _ _⟩

theorem IsSpan.runSpanPosition_eq (wf : t.Wf) (h : t.IsSpan s e m) :
    t.runSpanPosition phase m (s / 2 ^ m) = .ok (spanUnit phase s e m) := by
  have hm := h.level_le wf
  have hs : s / 2 ^ m * 2 ^ m = s := Nat.div_mul_cancel h.dvd
  have hn := wf.leaf_lt
  have hlt := h.lt
  have hend := h.end_le.2
  have hpow : 2 ^ m ≤ 2 ^ 28 := Nat.pow_le_pow_right (by decide) (hm.trans wf.height_le)
  have hm28 := hm.trans wf.height_le
  have hshl : checkedShl m = some (2 ^ m) := if_pos (by omega)
  have hmul : checkedMul 32 (s / 2 ^ m) (2 ^ m) = some s := by
    rw [checkedMul, hs, if_pos (by omega)]
  have hsat : saturatingAdd 32 s (2 ^ m) = s + 2 ^ m := Nat.min_eq_left (by omega)
  simp only [runSpanPosition, laws]
  refine ⟨_, hshl, s, hmul, (), ?_, ?_⟩ <;> rw [hsat, ← h.end_eq]
  · exact not_le.2 hlt
  · rfl

/-- The merge node of a span. -/
theorem IsSpan.runSpanRootPosition_eq (wf : t.Wf) (h : t.IsSpan s e m) :
    t.runSpanRootPosition phase s e = .ok (spanUnit phase s e m) := by
  have hlt := h.lt
  have hm28 := (h.level_le wf).trans wf.height_le
  have hwidth : (checkedSub e s).filter (0 < ·) = some (e - s) := by
    rw [checkedSub, if_pos hlt.le, Option.filter_some, if_pos (decide_eq_true (by omega))]
  have hpad : checkedNextPowerOfTwo (e - s) = some (2 ^ m) := by
    have hfit : 2 ^ m < 2 ^ 32 := Nat.pow_lt_pow_right (by decide) (by omega)
    rw [checkedNextPowerOfTwo, h.nextPowerOfTwo_eq, if_pos hfit]
  simp only [runSpanRootPosition, laws]
  refine ⟨_, hwidth, _, hpad, (), not_not.2 (Nat.mod_eq_zero_of_dvd h.dvd), ?_⟩
  rw [Nat.log2_two_pow]
  exact ⟨_, h.runSpanPosition_eq wf, (), fun h => h rfl, rfl⟩

/-- A non-empty span that is cut has a level: the right half of a merge node. -/
theorem exists_isSpan_right (hlt : s < e)
    (hend : e = min (s + 2 ^ level) t.primaryLeafCount) (hdvd : 2 ^ level ∣ s) :
    ∃ m, m ≤ level ∧ t.IsSpan s e m := by
  obtain ⟨k, -, hk, hcase⟩ := nextPowerOfTwo_spec (show 1 ≤ e - s by omega)
  have hkl : k ≤ level := by
    rcases hcase with ⟨-, rfl⟩ | ⟨hpos, hlow⟩
    · omega
    · have : k - 1 < level :=
        (Nat.pow_lt_pow_iff_right Nat.one_lt_two).mp (lt_of_lt_of_le hlow (by omega))
      omega
  refine ⟨k, hkl, hlt, ?_, ?_, (pow_dvd_pow 2 hkl).trans hdvd⟩
  · -- cut at the number of runs, or of full width and then of the same level
    have hpow : 2 ^ k ≤ 2 ^ level := Nat.pow_le_pow_right (by decide) hkl
    rcases le_total (s + 2 ^ level) t.primaryLeafCount with hfull | hcut
    · rw [min_eq_left hfull] at hend
      rw [min_eq_left (by omega)]
      omega
    · rw [min_eq_right hcut] at hend
      rw [min_eq_right (by omega)]
      exact hend
  · rcases hcase with ⟨-, rfl⟩ | ⟨hpos, hlow⟩
    · exact Or.inl rfl
    · exact Or.inr hlow

/-- The two halves of a span: the left one is full. -/
structure Halves (t : PaddedBinaryTree) (s e level m : Nat) : Prop where
  left : t.IsSpan s (s + 2 ^ (level - 1)) (level - 1)
  right : t.IsSpan (s + 2 ^ (level - 1)) e m
  /-- The right half is on a lower level too. -/
  le : m ≤ level - 1

theorem exists_halves (h : t.IsSpan s e level) (h0 : level ≠ 0) : ∃ m, Halves t s e level m := by
  have hleast := h.least.resolve_left h0
  have hlt := h.lt
  have hn := h.end_le.2
  have hdouble := Nat.two_pow_pred_mul_two (Nat.pos_of_ne_zero h0)
  have hdvd : 2 ^ (level - 1) ∣ s := (pow_dvd_pow 2 (by omega)).trans h.dvd
  have hleft : t.IsSpan s (s + 2 ^ (level - 1)) (level - 1) := by
    refine ⟨by have := Nat.two_pow_pos (level - 1); omega, (min_eq_left (by omega)).symm, ?_, hdvd⟩
    by_cases h1 : level - 1 = 0
    · exact .inl h1
    · right
      have : 2 ^ (level - 1 - 1) < 2 ^ (level - 1) := Nat.pow_lt_pow_right (by decide) (by omega)
      omega
  have hend : e = min (s + 2 ^ (level - 1) + 2 ^ (level - 1)) t.primaryLeafCount := by
    rw [add_assoc, ← mul_two, hdouble]
    exact h.end_eq
  obtain ⟨m, hm, hright⟩ := exists_isSpan_right (show s + 2 ^ (level - 1) < e by omega) hend
    (Nat.dvd_add hdvd (Nat.dvd_refl _))
  exact ⟨m, hleft, hright, hm⟩

/-- A unit of a merge reads what its span of runs is split into. -/
theorem requiredProducers_runSpan (hphase : phase.isMerge = true) :
    t.requiredProducers (.runSpan phase level index s e) = t.runProducers phase level index s e := by
  cases phase <;> first | rfl | exact nomatch hphase

/-- A merge leaf reads only a finished output. -/
theorem mergeLeaf_producers (hphase : phase.isMerge = true) (h : t.IsSpan s e 0) :
    t.requiredProducers (spanUnit phase s e 0) = .ok [.unit (.primary .outputFinalize s)] := by
  have hlt := h.lt
  obtain ⟨hend, hn⟩ := h.end_le
  rw [pow_zero] at hend
  rw [spanUnit, pow_zero, Nat.div_one, requiredProducers_runSpan hphase]
  exact (if_pos rfl).trans (if_pos ⟨by omega, rfl, by omega⟩)

/-- The producers of a merge node: the units of its halves. -/
theorem mergeNode_producers (wf : t.Wf) (hphase : phase.isMerge = true) (h : t.IsSpan s e level)
    (h0 : level ≠ 0) (hh : Halves t s e level m) :
    t.requiredProducers (spanUnit phase s e level)
      = .ok [.unit (spanUnit phase s (s + 2 ^ (level - 1)) (level - 1)),
          .unit (spanUnit phase (s + 2 ^ (level - 1)) e m)] := by
  have hpos : t.runSpanPosition phase level (s / 2 ^ level) = _ := h.runSpanPosition_eq wf
  have hleft : t.runSpanRootPosition phase s _ = _ := hh.left.runSpanRootPosition_eq wf
  have hright : t.runSpanRootPosition phase _ e = _ := hh.right.runSpanRootPosition_eq wf
  have hlt := h.lt
  obtain ⟨hend, hle⟩ := h.end_le
  have hn := wf.leaf_lt
  have hrlt := hh.right.lt
  have hhalf := Nat.two_pow_pos (level - 1)
  have hsub : checkedSub e s = some (e - s) := if_pos hlt.le
  -- the left half is the largest power of two below the width
  have hlog : Nat.log2 (e - s - 1) = level - 1 := by
    refine eq_of_two_pow_bounds (Nat.log2_self_le (by omega)) Nat.lt_log2_self (by omega) ?_
    rw [Nat.sub_add_cancel (Nat.pos_of_ne_zero h0)]
    omega
  have hadd : checkedAdd 32 s (2 ^ (level - 1)) = some (s + 2 ^ (level - 1)) := if_pos (by omega)
  have hsplit : t.splitRuns phase s e
      = .ok [.unit (spanUnit phase s (s + 2 ^ (level - 1)) (level - 1)),
          .unit (spanUnit phase (s + 2 ^ (level - 1)) e m)] := by
    have hwide : ¬ e - s ≤ 1 := by omega
    rw [← hlog] at hadd hleft hright ⊢
    simp only [splitRuns, laws]
    exact ⟨_, hsub, (), hwide, _, hadd, _, hleft, _, hright, rfl⟩
  rw [spanUnit, requiredProducers_runSpan hphase, runProducers, if_neg h0, hpos]
  simp only [runChildren, laws]
  exact ⟨_, rfl, (), fun h => h rfl, (), h0, _, hpos, hsplit⟩

theorem exists_isSpan_root (wf : t.Wf) : ∃ m, t.IsSpan 0 t.primaryLeafCount m := by
  have hend : t.primaryLeafCount = min (0 + 2 ^ t.height) t.primaryLeafCount := by
    rw [zero_add, min_eq_right wf.leaf_le]
  obtain ⟨m, -, h⟩ := exists_isSpan_right wf.leaf_pos hend (Nat.dvd_zero _)
  exact ⟨m, h⟩

/-! ### All producers -/

/-- A leaf of the root reduction reads a finished output and the roots of the two merges. -/
theorem rootLeaf_producers (wf : t.Wf) {i m : Nat} (hi : i < t.primaryLeafCount)
    (hspan : t.IsSpan 0 t.primaryLeafCount m) :
    t.requiredProducers (.treeNode .rootReduce 0 i)
      = .ok [.unit (.primary .outputFinalize i),
          .unit (spanUnit .ownerShuffle 0 t.primaryLeafCount m),
          .unit (spanUnit .bucketShuffle 0 t.primaryLeafCount m)] := by
  have howners : t.shuffleRoot .ownerShuffle = _ := hspan.runSpanRootPosition_eq wf
  have hbuckets : t.shuffleRoot .bucketShuffle = _ := hspan.runSpanRootPosition_eq wf
  show (if 0 = 0 ∧ i < t.primaryLeafCount then t.shuffleRoot .ownerShuffle >>= fun _ => _
    else _) = _
  rw [if_pos ⟨rfl, hi⟩, howners]
  show (t.shuffleRoot .bucketShuffle >>= fun _ => _) = _
  rw [hbuckets]
  rfl

/-- The active root is the only node of its level. -/
theorem index_eq_zero_of_height (wf : t.Wf) {index : Nat} (h : index < t.activeWidth t.height) :
    index = 0 := by
  rw [lt_activeWidth] at h
  have hle := wf.leaf_le
  by_contra hne
  have : 1 * 2 ^ t.height ≤ index * 2 ^ t.height := Nat.mul_le_mul_right _ (by omega)
  omega

theorem parent_lt_activeWidth (h : index < t.activeWidth level) :
    index / 2 < t.activeWidth (level + 1) := by
  rw [lt_activeWidth] at h ⊢
  have hdouble : index / 2 * 2 ^ (level + 1) = index / 2 * 2 * 2 ^ level := by
    rw [Nat.pow_succ', mul_assoc]
  have hle : index / 2 * 2 * 2 ^ level ≤ index * 2 ^ level :=
    Nat.mul_le_mul_right _ (Nat.div_mul_le_self index 2)
  omega

theorem unit_mem_pair {q a b : PlannedUnitPosition} : unit q ∈ [unit a, unit b] ↔ q = a ∨ q = b := by
  simp

section Producers

variable (wf : t.Wf)

include wf

/-- The children of a reducer node are earlier. -/
theorem reducer_producers (hr : IsReducer t phase leafPhase purpose fullTree) (hl : t.IsLevel level)
    (hi : index < t.nodeWidth phase level) :
    ∃ producers, t.requiredProducers (t.unitAt phase level index) = .ok producers ∧
      ∀ q, .unit q ∈ producers →
        Before t q (t.unitAt phase level index) (t.levelStart phase level + index) := by
  rw [hr.width] at hi
  rw [hr.node]
  refine ⟨_, hr.producers wf hl hi, fun q hq => ?_⟩
  obtain ⟨child, -, hc, rfl⟩ := exists_child hq
  obtain ⟨ph, low, hplace, heq, hlt, rfl | hph⟩ := hr.exists_place hl hc
  · rw [heq]
    exact hplace.before_node hr.up hl hlt rfl index
  · rw [heq]
    exact hplace.before hph

theorem merge_producers (hphase : phase.isMerge = true) (h : t.Place phase level index) :
    ∃ producers, t.requiredProducers (t.unitAt phase level index) = .ok producers ∧
      ∀ q, .unit q ∈ producers →
        Before t q (t.unitAt phase level index) (t.levelStart phase level + index) := by
  obtain ⟨hspan, heq⟩ := h.isSpan wf hphase
  have hlast : lysisPlanPhaseOrder.idxOf UnitPhase.outputFinalize < lysisPlanPhaseOrder.idxOf phase ∧
      phase ≠ .gratisPrefixDown := by
    cases phase <;> first | decide | exact nomatch hphase
  rw [heq]
  by_cases h0 : level = 0
  · subst h0
    refine ⟨_, mergeLeaf_producers hphase hspan, fun q hq => ?_⟩
    obtain rfl := unit.inj (mem_singleton.1 hq)
    exact before_leaf .outputFinalize (hspan.lt.trans_le hspan.end_le.2) (decide_eq_true hlast.1)
  · obtain ⟨m, hh⟩ := exists_halves hspan h0
    have hl : t.IsLevel level := ⟨Nat.pos_of_ne_zero h0, hspan.level_le wf⟩
    refine ⟨_, mergeNode_producers wf hphase hspan h0 hh, fun q hq => ?_⟩
    rcases unit_mem_pair.1 hq with rfl | rfl
    · obtain ⟨hplace, hunit⟩ := hh.left.place wf hphase
      rw [← hunit]
      exact hplace.before_node hlast.2 hl (by omega) rfl index
    · obtain ⟨hplace, hunit⟩ := hh.right.place wf hphase
      rw [← hunit]
      exact hplace.before_node hlast.2 hl (by have := hh.le; omega) rfl index

/-- The required producers of a planned unit exist and are earlier. -/
theorem Place.producers (h : t.Place phase level index) :
    ∃ producers, t.requiredProducers (t.unitAt phase level index) = .ok producers ∧
      ∀ q, .unit q ∈ producers →
        Before t q (t.unitAt phase level index) (t.levelStart phase level + index) := by
  by_cases hmerge : phase.isMerge = true
  · exact merge_producers wf hmerge h
  rcases h with ⟨rfl, hi⟩ | ⟨hl, hi⟩
  · cases phase with
    | ownerShuffle | bucketShuffle => exact absurd rfl hmerge
    | fixedReduce => exact absurd hi (Nat.not_lt_zero _)
    | enumerate => exact ⟨[], rfl, fun q hq => absurd hq not_mem_nil⟩
    | fidelityMap =>
      refine ⟨_, if_pos hi, fun q hq => ?_⟩
      obtain rfl := unit.inj (mem_singleton.1 hq)
      exact before_leaf .enumerate hi rfl
    | amountMap =>
      refine ⟨_, if_pos hi, fun q hq => ?_⟩
      have hroot : t.Place .fixedReduce t.height 0 := .inr ⟨⟨wf.height_pos, le_rfl⟩, by
        show 0 < t.fullWidth t.height
        rw [fullWidth_eq wf le_rfl]
        exact Nat.two_pow_pos _⟩
      simp only [mem_cons, unit.injEq, not_mem_nil, or_false] at hq
      rcases hq with rfl | rfl | rfl
      · exact before_leaf .enumerate hi rfl
      · exact before_leaf .fidelityMap hi rfl
      · exact hroot.before (of_decide_eq_true rfl)
    | gratisPrefix =>
      refine ⟨_, if_pos ⟨rfl, hi⟩, fun q hq => ?_⟩
      obtain rfl := unit.inj (mem_singleton.1 hq)
      exact before_leaf .amountMap hi rfl
    | gratisPrefixDown =>
      refine ⟨_, if_pos ⟨rfl, hi⟩, fun q hq => ?_⟩
      rcases unit_mem_pair.1 hq with rfl | rfl
      · have hle := above_add_le_total t.activeWidth (show t.IsLevel 1 from ⟨le_rfl, wf.height_pos⟩)
        have hparent : index / 2 < t.activeWidth 1 :=
          parent_lt_activeWidth (by rw [activeWidth_zero]; exact hi)
        have hplace : t.Place .gratisPrefixDown 1 (index / 2) :=
          .inr ⟨⟨le_rfl, wf.height_pos⟩, hparent⟩
        refine ⟨_, .mk hplace, .inr ⟨rfl, ?_⟩⟩
        show above t.activeWidth t.height 1 + index / 2 < total t.activeWidth t.levels + index
        omega
      · exact before_leaf .gratisPrefix hi rfl
    | outputFinalize =>
      refine ⟨_, if_pos hi, fun q hq => ?_⟩
      rcases unit_mem_pair.1 hq with rfl | rfl
      · exact before_leaf .amountMap hi rfl
      · exact before_leaf .gratisPrefixDown hi rfl
    | rootReduce =>
      obtain ⟨m, hspan⟩ := exists_isSpan_root wf
      refine ⟨_, rootLeaf_producers wf hi hspan, fun q hq => ?_⟩
      simp only [mem_cons, unit.injEq, not_mem_nil, or_false] at hq
      rcases hq with rfl | rfl | rfl
      · exact before_leaf .outputFinalize hi rfl
      all_goals
        rw [← (hspan.place wf rfl).2]
        exact (hspan.place wf rfl).1.before (of_decide_eq_true rfl)
  · cases phase with
    | ownerShuffle | bucketShuffle => exact absurd rfl hmerge
    | enumerate | fidelityMap | amountMap | outputFinalize => exact absurd hi (Nat.not_lt_zero _)
    | fixedReduce => exact reducer_producers wf isReducer_fixedReduce hl hi
    | gratisPrefix => exact reducer_producers wf isReducer_gratisPrefix hl hi
    | rootReduce =>
      exact reducer_producers wf (isReducer_rootReduce (nodeWidth_rootReduce hi).1) hl hi
    | gratisPrefixDown =>
      have h1 := hl.1
      -- the summaries below the node are of an earlier phase
      obtain ⟨summaries, hsummaries, hchildren⟩ : ∃ summaries, t.binaryChildren .gratisPrefix
          .gratisPrefix .gratisPrefixTable level index false = .ok summaries ∧
          ∀ q, .unit q ∈ summaries → Before t q (.treeNode .gratisPrefixDown level index)
            (t.levelStart .gratisPrefixDown level + index) := by
        refine ⟨_, (isReducer_gratisPrefix.children _ _ h1).symm.trans
          (isReducer_gratisPrefix.producers wf hl hi), fun q hq => ?_⟩
        obtain ⟨child, -, hc, rfl⟩ := exists_child hq
        obtain ⟨ph, low, hplace, heq, -, hph⟩ := isReducer_gratisPrefix.exists_place hl hc
        rw [heq]
        refine hplace.before ?_
        rcases hph with rfl | hph
        · exact of_decide_eq_true rfl
        · exact hph.trans (of_decide_eq_true rfl)
      by_cases htop : level = t.height
      · -- the root reads only the summaries of its children
        subst htop
        have hzero := index_eq_zero_of_height wf hi
        refine ⟨summaries, ?_, hchildren⟩
        show (if t.height = 0 ∧ index < t.primaryLeafCount then _ else t.binaryChildren .gratisPrefix
          .gratisPrefix .gratisPrefixTable t.height index false >>= fun _ => _) = _
        rw [if_neg (by omega), hsummaries]
        exact if_pos ⟨rfl, hzero⟩
      · have hlt : level < t.height := lt_of_le_of_ne hl.2 htop
        refine ⟨.unit (.treeNode .gratisPrefixDown (level + 1) (index / 2)) :: summaries, ?_,
          fun q hq => ?_⟩
        · show (if level = 0 ∧ index < t.primaryLeafCount then _ else t.binaryChildren .gratisPrefix
            .gratisPrefix .gratisPrefixTable level index false >>= fun _ => _) = _
          rw [if_neg (by omega), hsummaries]
          exact (if_neg (fun h => htop h.1)).trans (if_pos hlt)
        · rcases mem_cons.1 hq with hq | hq
          · obtain rfl := unit.inj hq
            have hle := above_add_le t.activeWidth (show level < level + 1 by omega) hlt
            have hparent := parent_lt_activeWidth hi
            have hplace : t.Place .gratisPrefixDown (level + 1) (index / 2) :=
              .inr ⟨⟨by omega, hlt⟩, hparent⟩
            refine ⟨_, .mk hplace, .inr ⟨rfl, ?_⟩⟩
            show above t.activeWidth t.height (level + 1) + index / 2 <
              above t.activeWidth t.height level + index
            omega
          · exact hchildren q hq

/-- The required producers of a planned unit are planned and have smaller ordinals. -/
theorem producers_before (h : Numbered t p k) :
    ∃ producers, t.requiredProducers p = .ok producers ∧
      ∀ q, .unit q ∈ producers → ∃ j, Numbered t q j ∧ j < k := by
  obtain ⟨i, ⟨h⟩, rfl⟩ := h
  obtain ⟨producers, hp, hbefore⟩ := h.producers wf
  exact ⟨producers, hp, fun q hq => (hbefore q hq).numbered⟩

end Producers

end PaddedBinaryTree

end Rudis.Lysis

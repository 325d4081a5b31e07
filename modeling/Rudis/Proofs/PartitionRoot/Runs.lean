import Rudis.Proofs.PartitionRoot.Reducer

/-!
# `Rudis.Proofs.PartitionRoot.Runs`: the merge passes sort the runs

The merge of a group is the sorted list of its records (`mergeRunGroup_spec`), a pass keeps the
records and shortens the list of runs (`mergePass_spec`), and the passes end with at most one run
(`mergeRuns_spec`). They succeed whenever the number of runs and the fan-in fit the 64-bit sum the
first pass computes.
-/

namespace Rudis.PartitionRoot

open List

/-- A run in the order of shards and keys. -/
abbrev SortedRun (run : List RunRecord) : Prop := run.Pairwise fun a b => a.le b = true

theorem RunRecord.le_iff {a b : RunRecord} :
    a.le b = true ↔ a.shard < b.shard ∨ a.shard = b.shard ∧ a.key ≤ b.key := by
  simp [RunRecord.le]

theorem RunRecord.le_trans (a b c : RunRecord) (hab : a.le b = true) (hbc : b.le c = true) :
    a.le c = true := by
  rw [RunRecord.le_iff] at *
  rcases hab with hab | ⟨hab, hk⟩ <;> rcases hbc with hbc | ⟨hbc, hk'⟩
  · exact Or.inl (hab.trans hbc)
  · exact Or.inl (hbc ▸ hab)
  · exact Or.inl (hab ▸ hbc)
  · exact .inr ⟨hab.trans hbc, hk.trans hk'⟩

theorem RunRecord.le_total (a b : RunRecord) : a.le b = true ∨ b.le a = true := by
  simp only [RunRecord.le_iff]
  rcases Nat.lt_trichotomy a.shard b.shard with h | h | h
  · exact Or.inl (Or.inl h)
  · rcases Fin.le_total a.key b.key with hk | hk
    · exact Or.inl (.inr ⟨h, hk⟩)
    · exact Or.inr (.inr ⟨h.symm, hk⟩)
  · exact Or.inr (Or.inl h)

theorem sortedRun_insertionSort (records : List RunRecord) :
    SortedRun (records.insertionSort fun a b => a.le b = true) := by
  have : Std.Total fun a b : RunRecord => a.le b = true := ⟨RunRecord.le_total⟩
  have : IsTrans RunRecord fun a b => a.le b = true := ⟨RunRecord.le_trans⟩
  exact pairwise_insertionSort _ records

theorem mergeRunGroup_spec {runs : List (List RunRecord)} (hsorted : ∀ run ∈ runs, SortedRun run) :
    ∃ out, mergeRunGroup runs = .ok out ∧ out.Perm runs.flatten ∧ SortedRun out := by
  have hcount : runs.flatten.length = (runs.map length).sum := length_flatten
  obtain ⟨hperm, hout⟩ := KWay.popAll_spec RunRecord.le_trans RunRecord.le_total hsorted hcount
  refine ⟨_, ?_, hperm, hout⟩
  show (throwIf _ _ >>= fun _ => _) = _
  rw [throwIf, if_neg (by rw [hperm.length_eq, hcount]; exact fun h => h rfl)]
  rfl

/-- The number of groups of a size. -/
def ceilDiv (count size : Nat) : Nat := (count + (size - 1)) / size

variable {count fanIn i passes : Nat}

theorem ceilDiv_lt (hfan : 2 ≤ fanIn) (hcount : 1 < count) : ceilDiv count fanIn < count := by
  unfold ceilDiv
  rw [Nat.div_lt_iff_lt_mul (by omega)]
  have := Nat.add_le_mul (show 2 ≤ count by omega) hfan
  omega

theorem le_ceilDiv_mul (hfan : 2 ≤ fanIn) : count ≤ ceilDiv count fanIn * fanIn := by
  have := Nat.div_add_mod (count + (fanIn - 1)) fanIn
  have hmod := mod_lt (count + (fanIn - 1)) (show 0 < fanIn by omega)
  unfold ceilDiv
  rw [mul_comm]
  omega

variable {runs : List (List RunRecord)}

/-- An output of a pass is the merge of its group. -/
theorem runGroup_eq (hfan : 2 ≤ fanIn)
    (hfits : runs.length + (fanIn - 1) < 2 ^ 64) (hi : i < ceilDiv runs.length fanIn) :
    runGroup fanIn runs i = mergeRunGroup (KWay.group fanIn runs i) := by
  -- the group starts before the last run
  have hstart : i * fanIn < runs.length := by
    have hle : (i + 1) * fanIn ≤ runs.length + (fanIn - 1) :=
      (Nat.le_div_iff_mul_le (by omega)).1 hi
    rw [Nat.succ_mul] at hle
    omega
  have hmul : checkedMul 64 i fanIn = some (i * fanIn) :=
    checkedMul_eq_some.2 ⟨by omega, rfl⟩
  have hadd : checkedAdd 64 (i * fanIn) fanIn = some (i * fanIn + fanIn) :=
    checkedAdd_eq_some.2 ⟨by omega, rfl⟩
  have htake : (runs.drop (i * fanIn)).take (min (i * fanIn + fanIn) runs.length - i * fanIn)
      = KWay.group fanIn runs i := by
    unfold KWay.group
    rw [take_eq_take_iff, length_drop]
    omega
  unfold runGroup
  rw [hmul]
  show (okOr (checkedAdd 64 (i * fanIn) fanIn) _ >>= fun _ => _) = _
  rw [hadd]
  show mergeRunGroup _ = _
  rw [htake]

theorem mergePass_spec (hfan : 2 ≤ fanIn)
    (hfits : runs.length + (fanIn - 1) < 2 ^ 64) (hsorted : ∀ run ∈ runs, SortedRun run) :
    ∃ merged, (range (ceilDiv runs.length fanIn)).mapM (runGroup fanIn runs) = .ok merged ∧
      merged.length = ceilDiv runs.length fanIn ∧ merged.flatten.Perm runs.flatten ∧
      ∀ run ∈ merged, SortedRun run := by
  have hgroup : ∀ i, ∃ out, i < ceilDiv runs.length fanIn →
      runGroup fanIn runs i = .ok out ∧ out.Perm (KWay.group fanIn runs i).flatten ∧
        SortedRun out := by
    intro i
    obtain ⟨out, hout, hperm, hs⟩ := @mergeRunGroup_spec (KWay.group fanIn runs i)
      fun run hrun => hsorted run (KWay.group_subset hrun)
    exact ⟨out, fun hi => ⟨by rw [runGroup_eq hfan hfits hi, hout], hperm, hs⟩⟩
  choose out hout using hgroup
  refine ⟨(range (ceilDiv runs.length fanIn)).map out, ?_, by simp, ?_, ?_⟩
  · exact Except.mapM_of_forall fun i hi => (hout i (mem_range.1 hi)).1
  · -- the groups together are all the runs
    have hgroups : ((range (ceilDiv runs.length fanIn)).map (KWay.group fanIn runs)).flatten
        = runs := by
      rw [KWay.flatten_groups, take_of_length_le (le_ceilDiv_mul hfan)]
    have hperm : ((range (ceilDiv runs.length fanIn)).map out).flatten.Perm
        (((range (ceilDiv runs.length fanIn)).map
          fun i => (KWay.group fanIn runs i).flatten).flatten) := by
      rw [← flatMap_def, ← flatMap_def]
      exact List.Perm.flatMap_left _ fun i hi => (hout i (mem_range.1 hi)).2.1
    refine hperm.trans (List.Perm.of_eq ?_)
    conv_rhs => rw [← hgroups]
    rw [flatten_flatten, map_map]
    rfl
  · intro run hrun
    obtain ⟨i, hi, rfl⟩ := mem_map.1 hrun
    exact (hout i (mem_range.1 hi)).2.2

/-- The passes leave at most one run, the sorted list of all records. -/
theorem mergeRuns_spec (hfan : 2 ≤ fanIn)
    (hfits : runs.length ≤ 1 ∨ runs.length + (fanIn - 1) < 2 ^ 64)
    (hpasses : runs.length ≤ passes) (hsorted : ∀ run ∈ runs, SortedRun run) :
    ∃ out, mergeRuns fanIn passes runs = .ok out ∧ (out.headD []).Perm runs.flatten ∧
      SortedRun (out.headD []) := by
  induction passes generalizing runs with
  | zero =>
    have hnil : runs = [] := length_eq_zero_iff.1 (by omega)
    subst hnil
    exact ⟨[], rfl, List.Perm.refl _, List.Pairwise.nil⟩
  | succ passes ih =>
    by_cases hone : 1 < runs.length
    · have hfits' : runs.length + (fanIn - 1) < 2 ^ 64 := hfits.resolve_left (by omega)
      obtain ⟨merged, hmap, hlen, hperm, hs⟩ := mergePass_spec hfan hfits' hsorted
      have hless := ceilDiv_lt hfan hone
      obtain ⟨out, hout, hp, hso⟩ := @ih merged (Or.inr (by omega)) (by omega) hs
      refine ⟨out, ?_, hp.trans hperm, hso⟩
      have hadd : checkedAdd 64 runs.length (fanIn - 1) = some (runs.length + (fanIn - 1)) :=
        checkedAdd_eq_some.2 ⟨hfits', rfl⟩
      unfold mergeRuns
      rw [if_pos hone, hadd]
      show ((range (ceilDiv runs.length fanIn)).mapM (runGroup fanIn runs) >>= fun _ => _) = _
      rw [hmap]
      exact hout
    · refine ⟨runs, by unfold mergeRuns; rw [if_neg hone]; rfl, ?_⟩
      match runs with
      | [] => exact ⟨List.Perm.refl _, List.Pairwise.nil⟩
      | [run] => exact ⟨by simp, hsorted run (by simp)⟩
      | _ :: _ :: _ => exact absurd (by simp) hone

end Rudis.PartitionRoot

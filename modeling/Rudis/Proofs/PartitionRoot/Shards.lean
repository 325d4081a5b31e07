import Rudis.Proofs.PartitionRoot.Runs

/-!
# `Rudis.Proofs.PartitionRoot.Shards`: the reduction of a sorted run, shard by shard

A sorted run is the concatenation of its shards. Reducing it computes the root of each shard in
turn (`reduceSortedRun_eq`), and that succeeds exactly when no two records have one key and the
eager shard roots exist (`mapM_shardRoot_eq_ok`).
-/

namespace Rudis.PartitionRoot

open List

variable {V : Type} (ops : TreeOps V)

/-! ### One shard -/

/-- The root of the sorted leaves of a shard, with the errors of the verifier. -/
def shardReduce (leaves : List (TreeKey × B256)) : Except ReconstructionError B256 := do
  let r ← (leaves.foldlM (SortedPoseidonRootReducer.push ops) .new).mapError pushError
  (r.finish ops).mapError .tree

theorem shardReduce_eq_ok {leaves : List (TreeKey × B256)} {root : B256} :
    shardReduce ops leaves = .ok root ↔ reduce ops leaves = .ok root := by
  unfold shardReduce reduce
  simp only [bind_eq_ok, mapError_eq_ok]

/-- The records of a run stand in their shard. -/
def WellSharded (records : List RunRecord) : Prop := ∀ r ∈ records, r.shard = shardIndex r.key

variable {records : List RunRecord} {shard : Nat}

/-- Further records of the current shard are pushed to its reducer. -/
theorem foldlM_reduceRecord_same (roots : List B256)
    (r : SortedPoseidonRootReducer V) (hwell : WellSharded records)
    (hshard : ∀ record ∈ records, record.shard = shard) :
    records.foldlM (reduceRecord ops) ⟨roots, some shard, r⟩ = (do
      let r' ← ((records.map RunRecord.treeLeaf).foldlM (SortedPoseidonRootReducer.push ops)
        r).mapError pushError
      pure ⟨roots, some shard, r'⟩) := by
  induction records generalizing r with
  | nil => rfl
  | cons record records ih =>
    have hrec : reduceRecord ops ⟨roots, some shard, r⟩ record = (do
        let r' ← (r.push ops record.treeLeaf).mapError pushError
        pure ⟨roots, some shard, r'⟩) := by
      unfold reduceRecord
      rw [throwIf, if_neg (not_not.2 (hwell record mem_cons_self)),
        if_pos (by rw [hshard record mem_cons_self])]
      rfl
    rw [foldlM_cons, hrec, map_cons, foldlM_cons]
    cases hpush : r.push ops record.treeLeaf with
    | error e => rfl
    | ok r' =>
      exact ih r' (fun x hx => hwell x (mem_cons_of_mem _ hx))
        fun x hx => hshard x (mem_cons_of_mem _ hx)

/-- The records of a new shard: the last shard is closed, and then this one. -/
theorem foldlM_reduceRecord_new (st : Reduction V)
    (hne : records ≠ []) (hwell : WellSharded records)
    (hshard : ∀ record ∈ records, record.shard = shard) (hnew : st.currentShard ≠ some shard) :
    (records.foldlM (reduceRecord ops) st >>= closeShard ops) = (do
      let roots ← closeShard ops st
      let root ← shardReduce ops (records.map RunRecord.treeLeaf)
      pure (roots.set shard root)) := by
  cases records with
  | nil => exact absurd rfl hne
  | cons record records =>
    have hs : record.shard = shard := hshard record mem_cons_self
    have hrec : reduceRecord ops st record = (do
        let roots ← closeShard ops st
        let r ← (SortedPoseidonRootReducer.new.push ops record.treeLeaf).mapError pushError
        pure ⟨roots, some shard, r⟩) := by
      unfold reduceRecord
      rw [throwIf, if_neg (not_not.2 (hwell record mem_cons_self)), hs, if_neg hnew]
      rfl
    rw [foldlM_cons, hrec]
    cases hclose : closeShard ops st with
    | error e => rfl
    | ok roots =>
      unfold shardReduce
      rw [map_cons, foldlM_cons]
      cases hpush : SortedPoseidonRootReducer.new.push ops record.treeLeaf with
      | error e => rfl
      | ok r =>
        show (records.foldlM (reduceRecord ops) ⟨roots, some shard, r⟩ >>= closeShard ops) = _
        rw [foldlM_reduceRecord_same ops roots r (fun x hx => hwell x (mem_cons_of_mem _ hx))
          fun x hx => hshard x (mem_cons_of_mem _ hx)]
        show _ = ((((records.map RunRecord.treeLeaf).foldlM (SortedPoseidonRootReducer.push ops)
          r).mapError pushError >>= fun r' => (r'.finish ops).mapError .tree) >>= fun root =>
            pure (roots.set shard root))
        cases (records.map RunRecord.treeLeaf).foldlM (SortedPoseidonRootReducer.push ops) r <;> rfl

theorem currentShard_of_foldlM {st st' : Reduction V}
    (h : records.foldlM (reduceRecord ops) st = .ok st') :
    st'.currentShard = st.currentShard ∨ ∃ r ∈ records, st'.currentShard = some r.shard := by
  induction records generalizing st with
  | nil => exact Or.inl (by rw [pure_eq_ok.1 h])
  | cons record records ih =>
    rw [foldlM_cons] at h
    obtain ⟨mid, hmid, h⟩ := bind_eq_ok.1 h
    have hcur : mid.currentShard = some record.shard := by
      obtain ⟨⟨⟩, -, hmid⟩ := bind_eq_ok.1 hmid
      split at hmid
      · next hsame =>
        obtain ⟨r, -, hmid⟩ := bind_eq_ok.1 hmid
        rw [pure_eq_ok.1 hmid]
        exact hsame
      · obtain ⟨roots, -, hmid⟩ := bind_eq_ok.1 hmid
        obtain ⟨r, -, hmid⟩ := bind_eq_ok.1 hmid
        rw [pure_eq_ok.1 hmid]
    rcases ih h with h | ⟨r, hr, h⟩
    · exact .inr ⟨record, mem_cons_self, h.trans hcur⟩
    · exact .inr ⟨r, mem_cons_of_mem _ hr, h⟩

/-! ### All shards -/

def belowShard (records : List RunRecord) (shard : Nat) : List RunRecord :=
  records.filter fun r => decide (r.shard < shard)

/-- In a sorted run the next shard follows the shards below it. -/
theorem belowShard_succ (hsorted : SortedRun records) (shard : Nat) :
    belowShard records (shard + 1)
      = belowShard records shard ++ records.filter fun r => r.shard == shard := by
  unfold belowShard
  induction records with
  | nil => rfl
  | cons a records ih =>
    obtain ⟨ha, htail⟩ := pairwise_cons.1 hsorted
    have hge : ∀ b ∈ records, a.shard ≤ b.shard := by
      intro b hb
      rcases RunRecord.le_iff.1 (ha b hb) with h | ⟨h, -⟩
      · exact h.le
      · exact h.le
    rcases Nat.lt_trichotomy a.shard shard with h | h | h
    · have h1 : a.shard < shard + 1 := by omega
      have h2 : (a.shard == shard) = false := by simpa using h.ne
      simp only [filter_cons, h, h1, h2, decide_true, if_true, Bool.false_eq_true, if_false,
        ih htail, cons_append]
    · -- the records after the first one of the shard are not below it
      have hnil : (records.filter fun r => decide (r.shard < shard)) = [] := by
        rw [filter_eq_nil_iff]
        intro b hb
        have := hge b hb
        simp only [decide_eq_true_eq]
        omega
      have h1 : a.shard < shard + 1 := by omega
      have h2 : ¬ a.shard < shard := by omega
      have h3 : (a.shard == shard) = true := by simpa using h
      have htail' := ih htail
      rw [hnil, nil_append] at htail'
      simp only [filter_cons, h1, h2, h3, decide_true, decide_false, if_true,
        Bool.false_eq_true, if_false, hnil, nil_append, htail']
    · have h1 : ¬ a.shard < shard + 1 := by omega
      have h2 : ¬ a.shard < shard := by omega
      have h3 : (a.shard == shard) = false := by simpa using h.ne'
      simp only [filter_cons, h1, h2, h3, decide_false, Bool.false_eq_true, if_false, ih htail]

def shardRoot (records : List RunRecord) (shard : Nat) : Except ReconstructionError B256 :=
  if (shardLeaves records shard).isEmpty then pure 0 else shardReduce ops (shardLeaves records shard)

/-- The state before the first record. -/
def Reduction.init : Reduction V where
  roots := replicate shardCount 0
  currentShard := none
  reducer := .new

/-- The shards below a bound, reduced in turn. -/
theorem foldlM_belowShard (hsorted : SortedRun records)
    (hwell : WellSharded records) (hle : shard ≤ shardCount) :
    ((belowShard records shard).foldlM (reduceRecord ops) Reduction.init >>= closeShard ops) = (do
      let roots ← (range shard).mapM (shardRoot ops records)
      pure (roots ++ replicate (shardCount - shard) 0)) := by
  induction shard with
  | zero =>
    have hnil : belowShard records 0 = [] := by
      unfold belowShard
      rw [filter_eq_nil_iff]
      intro r _
      simp
    rw [hnil]
    rfl
  | succ shard ih =>
    have ih := ih (by omega)
    have hrep : replicate (shardCount - shard) (0 : B256)
        = 0 :: replicate (shardCount - (shard + 1)) 0 := by
      rw [show shardCount - shard = shardCount - (shard + 1) + 1 by omega, replicate_succ]
    rw [belowShard_succ hsorted, foldlM_append, range_succ, mapM_append]
    by_cases hempty : (records.filter fun r => r.shard == shard) = []
    · -- a shard without records keeps the zero root
      have hroot : shardRoot ops records shard = .ok 0 := by
        unfold shardRoot shardLeaves
        rw [hempty]
        rfl
      rw [hempty]
      simp only [foldlM_nil, bind_pure, ih, mapM_cons, mapM_nil, hroot, hrep]
      cases (range shard).mapM (shardRoot ops records) with
      | error e => rfl
      | ok roots => simp [Bind.bind, Except.bind, Pure.pure, Except.pure]
    · have hroot : shardRoot ops records shard
          = shardReduce ops ((records.filter fun r => r.shard == shard).map RunRecord.treeLeaf) := by
        unfold shardRoot shardLeaves
        rw [if_neg (by simpa using hempty)]
      have hstep : ((belowShard records shard).foldlM (reduceRecord ops) Reduction.init >>= fun st =>
          (records.filter fun r => r.shard == shard).foldlM (reduceRecord ops) st >>= closeShard ops)
          = ((belowShard records shard).foldlM (reduceRecord ops) Reduction.init >>=
              closeShard ops) >>= fun roots =>
              shardRoot ops records shard >>= fun root => pure (roots.set shard root) := by
        rw [bind_assoc, hroot]
        cases hfold : (belowShard records shard).foldlM (reduceRecord ops)
          (Reduction.init : Reduction V) with
        | error e => rfl
        | ok st =>
          -- the current shard is one of those below
          have hnew : st.currentShard ≠ some shard := by
            rcases currentShard_of_foldlM ops hfold with h | ⟨r, hr, h⟩
            · rw [h]
              exact fun h => nomatch h
            · rw [h]
              intro heq
              have hlt : r.shard < shard := by simpa using (mem_filter.1 hr).2
              exact absurd (Option.some.inj heq) hlt.ne
          exact foldlM_reduceRecord_new ops st hempty
            (fun x hx => hwell x (mem_of_mem_filter hx))
            (fun x hx => by simpa using (mem_filter.1 hx).2) hnew
      rw [bind_assoc, hstep, ih]
      simp only [mapM_cons, mapM_nil]
      cases hroots : (range shard).mapM (shardRoot ops records) with
      | error e => rfl
      | ok roots =>
        have hlen : roots.length = shard := by
          have := (mapM_eq_ok.1 hroots).length_eq
          rw [length_range] at this
          exact this.symm
        cases shardRoot ops records shard with
        | error e => rfl
        | ok root =>
          show Except.ok ((roots ++ replicate (shardCount - shard) 0).set shard root)
            = .ok ((roots ++ [root]) ++ replicate (shardCount - (shard + 1)) 0)
          rw [hrep, set_append_right _ _ hlen.le, hlen, Nat.sub_self, set_cons_zero,
            append_assoc, singleton_append]

/-- The reduction of a sorted run is the reduction of its shards. -/
theorem reduceSortedRun_eq (day : WorldwideDay)
    (hsorted : SortedRun records) (hwell : WellSharded records) :
    reduceSortedRun ops day records = (do
      let roots ← (range shardCount).mapM (shardRoot ops records)
      (closeRoots ops day roots).mapError .tree) := by
  have hall : belowShard records shardCount = records := by
    unfold belowShard
    rw [filter_eq_self]
    intro r hr
    rw [hwell r hr]
    exact decide_eq_true (mod_lt _ (by decide))
  have hfold := foldlM_belowShard ops hsorted hwell (le_refl shardCount)
  rw [hall] at hfold
  unfold reduceSortedRun
  show (records.foldlM (reduceRecord ops) Reduction.init >>= fun st => closeShard ops st >>=
    fun roots => _) = _
  rw [← bind_assoc, hfold, bind_assoc]
  simp

/-! ### Against the eager roots -/

/-- The records of a run have distinct keys exactly when each shard's keys ascend. -/
theorem nodup_iff_ascending (hsorted : SortedRun records) (hwell : WellSharded records) :
    (records.map RunRecord.key).Nodup ↔
      ∀ shard, shard < shardCount → ((shardLeaves records shard).map Prod.fst).Pairwise (· < ·) := by
  have hkeys : ∀ shard, (shardLeaves records shard).map Prod.fst
      = (records.filter fun r => r.shard == shard).map RunRecord.key := by
    intro shard
    unfold shardLeaves
    rw [map_map]
    rfl
  simp only [hkeys, pairwise_map, pairwise_filter, List.Nodup]
  constructor
  · intro hnodup shard _
    refine (hsorted.and hnodup).imp fun {a b} hab ha hb => ?_
    have hshard : a.shard = b.shard := by
      rw [beq_iff_eq] at ha hb
      rw [ha, hb]
    rcases RunRecord.le_iff.1 hab.1 with h | ⟨-, hle⟩
    · exact absurd hshard h.ne
    · exact lt_of_le_of_ne hle hab.2
  · intro hasc
    rw [pairwise_iff_forall_sublist]
    intro a b hsub heq
    have ha := hwell a (hsub.subset (by simp))
    have hb := hwell b (hsub.subset (by simp))
    have hlt : a.shard < shardCount := ha ▸ mod_lt _ (by decide)
    have := pairwise_iff_forall_sublist.1 (hasc a.shard hlt) hsub (by simp)
      (by rw [ha, hb, heq]; simp)
    exact absurd heq this.ne

/-- The order of the records does not matter to an eager shard root. -/
theorem eagerShardRoot_perm {records records' : List RunRecord} (hperm : records.Perm records')
    (hnodup : (records.map RunRecord.key).Nodup) (shard : Nat) :
    eagerShardRoot ops records shard = eagerShardRoot ops records' shard := by
  have hleaves : (shardLeaves records shard).Perm (shardLeaves records' shard) :=
    (hperm.filter _).map _
  have hn : ((shardLeaves records shard).map Prod.fst).Nodup := by
    unfold shardLeaves
    rw [map_map]
    exact hnodup.sublist (filter_sublist.map _)
  have hn' := (hleaves.map Prod.fst).nodup_iff.1 hn
  have hempty : (shardLeaves records shard).isEmpty = (shardLeaves records' shard).isEmpty := by
    rw [Bool.eq_iff_iff, List.isEmpty_iff, List.isEmpty_iff]
    exact ⟨fun h => (h ▸ hleaves).symm.eq_nil, fun h => (h ▸ hleaves).eq_nil⟩
  unfold eagerShardRoot updateAll
  rw [throwIf, throwIf, if_neg (not_not.2 hn), if_neg (not_not.2 hn'), hempty,
    smtNode_perm ops hleaves hn]

/-- The shards of a sorted run reduce exactly when no two records have one key and the eager roots
exist; then they reduce to the eager roots. -/
theorem mapM_shardRoot_eq_ok {sorted records : List RunRecord} {roots : List B256}
    (hsorted : SortedRun sorted) (hwell : WellSharded sorted) (hperm : sorted.Perm records)
    (hne : ∀ r ∈ sorted, r.leaf ≠ 0) :
    (range shardCount).mapM (shardRoot ops sorted) = .ok roots ↔
      (records.map RunRecord.key).Nodup ∧
        (range shardCount).mapM (eagerShardRoot ops records) = .ok roots := by
  have hone : ∀ shard root, shardRoot ops sorted shard = .ok root ↔
      ((shardLeaves sorted shard).map Prod.fst).Pairwise (· < ·) ∧
        eagerShardRoot ops sorted shard = .ok root := by
    intro shard root
    unfold shardRoot eagerShardRoot
    cases hleaves : shardLeaves sorted shard with
    | nil => simp [Pure.pure, Except.pure]
    | cons leaf leaves =>
      rw [← hleaves, if_neg (by simp [hleaves]), if_neg (by simp [hleaves]), shardReduce_eq_ok]
      refine reduce_eq_ok ops fun e he => ?_
      obtain ⟨r, hr, rfl⟩ := mem_map.1 he
      exact hne r (mem_of_mem_filter hr)
  have hiff := nodup_iff_ascending hsorted hwell
  have hkeys : (sorted.map RunRecord.key).Nodup ↔ (records.map RunRecord.key).Nodup :=
    (hperm.map _).nodup_iff
  rw [mapM_eq_ok, mapM_eq_ok]
  constructor
  · intro h
    have hnodup : (sorted.map RunRecord.key).Nodup := by
      refine hiff.2 fun shard hshard => ?_
      obtain ⟨i, hi, hget⟩ := mem_iff_getElem.1 (mem_range.2 hshard)
      have := forall₂_iff_get.1 h
      have hroot := this.2 i hi (this.1 ▸ hi)
      simp only [get_eq_getElem, hget] at hroot
      exact ((hone shard _).1 hroot).1
    refine ⟨hkeys.1 hnodup, h.imp fun shard root hroot => ?_⟩
    rw [← eagerShardRoot_perm ops hperm hnodup]
    exact ((hone shard root).1 hroot).2
  · rintro ⟨hnodup, h⟩
    have hasc := hiff.1 (hkeys.2 hnodup)
    have hlen := h.length_eq
    rw [forall₂_iff_get] at h ⊢
    refine ⟨h.1, fun i hi hi' => ?_⟩
    have hroot := h.2 i hi hi'
    rw [← eagerShardRoot_perm ops hperm (hkeys.2 hnodup)] at hroot
    exact (hone _ _).2 ⟨hasc _ (by simpa using mem_range.1 (get_mem _ ⟨i, hi⟩)), hroot⟩

end Rudis.PartitionRoot

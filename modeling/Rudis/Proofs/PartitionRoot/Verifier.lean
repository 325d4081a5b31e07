import Rudis.Proofs.PartitionRoot.Shards

/-!
# `Rudis.Proofs.PartitionRoot.Verifier`: the bounded verifier agrees with the eager root

Between the calls the verifier holds what was pushed, as sorted full runs and a buffer with room
(`Holds`). Pushing succeeds while the keys are distinct and the count allows it, the final flush
leaves `⌈n / records_per_run⌉` runs, and then the passes and the reduction decide. Together: a
verification succeeds exactly when the count is the expected one, no two leaves share a tree key
and the eager root is the expected root (`verify_iff_eager`).
-/

namespace Rudis.PartitionRoot

open List Nat
open CompressedEntities (WwdEntityId worldwideDay)

variable {V : Type} (ops : TreeOps V)

/-! ### Flushing -/

theorem adjacentDuplicate_eq_false {records : List RunRecord}
    (h : (records.map RunRecord.key).Nodup) : adjacentDuplicate records = false := by
  induction records with
  | nil => rfl
  | cons a records ih =>
    cases records with
    | nil => rfl
    | cons b records =>
      obtain ⟨ha, htail⟩ := nodup_cons.1 (map_cons ▸ h)
      have hne : (a.key == b.key) = false := by
        rw [beq_eq_false_iff_ne]
        intro heq
        exact ha (by rw [heq, map_cons]; exact mem_cons_self)
      simp only [adjacentDuplicate, hne, Bool.false_or]
      exact ih htail

/-- The verifier holds `records`: sorted full runs, and a buffer within the bound. -/
structure Holds (e : TributePartitionExpectation) (w : TributePartitionWorkConfig)
    (records : List RunRecord) (v : BoundedTributePartitionVerifier) : Prop where
  expectation : v.expectation = e
  /-- The bounds are fixed. -/
  work : v.work = w
  pushed : v.pushedCount = records.length
  perm : (v.runs.flatten ++ v.buffered).Perm records
  sorted : ∀ run ∈ v.runs, SortedRun run
  full : v.runs.length * w.recordsPerRun + v.buffered.length = records.length
  /-- The buffer never exceeded the bound. -/
  peak : v.peakBufferedRecords ≤ w.recordsPerRun

variable {e : TributePartitionExpectation} {w : TributePartitionWorkConfig}
  {records : List RunRecord} {v : BoundedTributePartitionVerifier}

/-- A flush moves the buffer into a sorted run. -/
theorem flushRun_eq (hne : v.buffered ≠ []) (hnodup : (v.buffered.map RunRecord.key).Nodup) :
    flushRun v = .ok { v with
      buffered := []
      runs := v.runs ++ [v.buffered.insertionSort fun a b => a.le b = true] } := by
  have hperm := perm_insertionSort (fun a b : RunRecord => a.le b = true) v.buffered
  have hdup := adjacentDuplicate_eq_false ((hperm.map RunRecord.key).nodup_iff.2 hnodup)
  unfold flushRun
  rw [if_neg (by simpa using hne)]
  show (throwIf (adjacentDuplicate _ = true) _ >>= fun _ => _) = _
  rw [throwIf, hdup, if_neg Bool.false_ne_true]
  rfl

variable {v' : BoundedTributePartitionVerifier}

theorem flushRun_ok (hne : v.buffered ≠ []) (h : flushRun v = .ok v') :
    v' = { v with
      buffered := []
      runs := v.runs ++ [v.buffered.insertionSort fun a b => a.le b = true] } := by
  unfold flushRun at h
  rw [if_neg (by simpa using hne)] at h
  obtain ⟨⟨⟩, -, h⟩ := bind_eq_ok.1 h
  exact pure_eq_ok.1 h

/-- The records after a flush. -/
theorem flushed_perm :
    ((v.runs ++ [v.buffered.insertionSort fun a b => a.le b = true]).flatten).Perm
      (v.runs.flatten ++ v.buffered) := by
  rw [flatten_append, flatten_singleton]
  exact (perm_insertionSort _ _).append_left _

theorem flushed_sorted (hsorted : ∀ run ∈ v.runs, SortedRun run) :
    ∀ run ∈ v.runs ++ [v.buffered.insertionSort fun a b => a.le b = true], SortedRun run :=
  forall_mem_append.2 ⟨hsorted, forall_mem_singleton.2 (sortedRun_insertionSort v.buffered)⟩

/-! ### Pushing -/

/-- The verifier with a leaf buffered and counted. -/
def buffer (v : BoundedTributePartitionVerifier) (r : RunRecord) :
    BoundedTributePartitionVerifier :=
  { v with
    buffered := v.buffered ++ [r]
    pushedCount := v.pushedCount + 1
    peakBufferedRecords := max v.peakBufferedRecords (v.buffered ++ [r]).length }

variable {leaf : WwdEntityId × PresentLeaf}

/-- A push that succeeds buffers the leaf, and flushes a full buffer. -/
theorem push_eq_ok :
    push ops v leaf = .ok v' ↔
      worldwideDay leaf.1 = v.expectation.day ∧ v.pushedCount + 1 < 2 ^ 32 ∧
        v.pushedCount + 1 ≤ v.expectation.exactLeafCount ∧
        (if (v.buffered ++ [recordOf ops leaf]).length = v.work.recordsPerRun
          then flushRun (buffer v (recordOf ops leaf))
          else .ok (buffer v (recordOf ops leaf))) = .ok v' := by
  simp only [push, laws, checkedAdd_eq_some, not_not, not_lt, Tx.exists_unit, and_assoc,
    ↓existsAndEq, true_and]
  rfl

section

variable (hv : Holds e w records v)

include hv

/-- Buffering a record within the bound. -/
theorem Holds.buffer (hroom : v.buffered.length < w.recordsPerRun)
    (r : RunRecord) : Holds e w (records ++ [r]) (buffer v r) := by
  refine ⟨hv.expectation, hv.work, ?_, ?_, hv.sorted, ?_, ?_⟩
  · show v.pushedCount + 1 = _
    rw [hv.pushed, length_append, length_singleton]
  · show (v.runs.flatten ++ (v.buffered ++ [r])).Perm _
    rw [← append_assoc]
    exact hv.perm.append_right [r]
  · show v.runs.length * w.recordsPerRun + (v.buffered ++ [r]).length = _
    have := hv.full
    simp only [length_append, length_singleton]
    omega
  · show max v.peakBufferedRecords (v.buffered ++ [r]).length ≤ _
    simp only [length_append, length_singleton]
    exact max_le hv.peak hroom

/-- Flushing a full buffer. -/
theorem Holds.flush (hfull : v.buffered.length = w.recordsPerRun) :
    Holds e w records { v with
      buffered := []
      runs := v.runs ++ [v.buffered.insertionSort fun a b => a.le b = true] } := by
  refine ⟨hv.expectation, hv.work, hv.pushed, ?_, flushed_sorted hv.sorted, ?_, hv.peak⟩
  · show ((v.runs ++ [_]).flatten ++ []).Perm records
    rw [append_nil]
    exact flushed_perm.trans hv.perm
  · show (v.runs ++ [_]).length * w.recordsPerRun + 0 = records.length
    have := hv.full
    rw [length_append, length_singleton, succ_mul]
    omega

/-- A push keeps what the verifier holds, and leaves room. -/
theorem Holds.push (hroom : v.buffered.length < w.recordsPerRun) (h : push ops v leaf = .ok v') :
    Holds e w (records ++ [recordOf ops leaf]) v' ∧ v'.buffered.length < w.recordsPerRun := by
  obtain ⟨-, -, -, h⟩ := (push_eq_ok ops).1 h
  have hb := hv.buffer hroom (recordOf ops leaf)
  rw [hv.work] at h
  split at h
  · next hfull =>
    have hne : (PartitionRoot.buffer v (recordOf ops leaf)).buffered ≠ [] := by
      show v.buffered ++ [recordOf ops leaf] ≠ []
      simp
    rw [flushRun_ok hne h]
    exact ⟨hb.flush hfull, zero_lt_of_lt hroom⟩
  · next hpart =>
    rw [← Except.ok.inj h]
    refine ⟨hb, ?_⟩
    show (v.buffered ++ [recordOf ops leaf]).length < w.recordsPerRun
    simp only [length_append, length_singleton] at hpart ⊢
    omega

variable {leaves : List (WwdEntityId × PresentLeaf)}

/-- Pushing leaves in order. -/
theorem Holds.foldlM (hroom : v.buffered.length < w.recordsPerRun)
    (h : leaves.foldlM (PartitionRoot.push ops) v = .ok v') :
    Holds e w (records ++ leaves.map (recordOf ops)) v' ∧
      v'.buffered.length < w.recordsPerRun := by
  induction leaves generalizing v records with
  | nil =>
    rw [pure_eq_ok.1 h]
    exact ⟨by rwa [map_nil, append_nil], hroom⟩
  | cons leaf leaves ih =>
    rw [foldlM_cons] at h
    obtain ⟨mid, hpush, h⟩ := bind_eq_ok.1 h
    obtain ⟨hmid, hroom'⟩ := hv.push ops hroom hpush
    have := ih hmid hroom' h
    rwa [append_assoc, singleton_append, ← map_cons] at this

/-- Pushes of the expected day succeed while the keys are distinct and the count allows it. -/
theorem Holds.foldlM_succeeds (hroom : v.buffered.length < w.recordsPerRun)
    (hday : ∀ leaf ∈ leaves, worldwideDay leaf.1 = e.day)
    (hnodup : ((records ++ leaves.map (recordOf ops)).map RunRecord.key).Nodup)
    (hcount : records.length + leaves.length ≤ e.exactLeafCount) :
    ∃ v', leaves.foldlM (PartitionRoot.push ops) v = .ok v' := by
  induction leaves generalizing v records with
  | nil => exact ⟨v, rfl⟩
  | cons leaf leaves ih =>
    have hlt := e.exactLeafCount_lt
    rw [length_cons] at hcount
    have hb := hv.buffer hroom (recordOf ops leaf)
    have hsplit : records ++ (leaf :: leaves).map (recordOf ops)
        = (records ++ [recordOf ops leaf]) ++ leaves.map (recordOf ops) := by simp
    rw [hsplit] at hnodup
    -- the buffer is part of what is held, so a flush finds no duplicate
    have hflush : ∃ v', (if (v.buffered ++ [recordOf ops leaf]).length = v.work.recordsPerRun
          then flushRun (PartitionRoot.buffer v (recordOf ops leaf))
          else .ok (PartitionRoot.buffer v (recordOf ops leaf))) = .ok v' := by
      split
      · have hkeys : ((v.buffered ++ [recordOf ops leaf]).map RunRecord.key).Nodup := by
          have hall := (hb.perm.map RunRecord.key).nodup_iff.2
            (hnodup.sublist ((sublist_append_left _ _).map _))
          exact hall.sublist ((sublist_append_right _ _).map _)
        exact ⟨_, flushRun_eq (by show v.buffered ++ [recordOf ops leaf] ≠ []; simp) hkeys⟩
      · exact ⟨_, rfl⟩
    obtain ⟨mid, hmid⟩ := hflush
    have hpush : PartitionRoot.push ops v leaf = .ok mid := by
      refine (push_eq_ok ops).2 ⟨?_, ?_, ?_, hmid⟩
      · rw [hv.expectation]
        exact hday leaf mem_cons_self
      · rw [hv.pushed]
        omega
      · rw [hv.pushed, hv.expectation]
        omega
    obtain ⟨hvm, hroom'⟩ := hv.push ops hroom hpush
    obtain ⟨v', hfold⟩ := ih hvm hroom' (fun l hl => hday l (mem_cons_of_mem _ hl)) hnodup
      (by rw [length_append, length_singleton]; omega)
    exact ⟨v', by rw [foldlM_cons, hpush]; exact hfold⟩

/-! ### Finishing -/

theorem Holds.lastFlush (hroom : v.buffered.length < w.recordsPerRun) (h : flushRun v = .ok v') :
    v'.expectation = e ∧ v'.work = w ∧ v'.runs.flatten.Perm records ∧
      (∀ run ∈ v'.runs, SortedRun run) ∧
      v'.runs.length = ceilDiv records.length w.recordsPerRun := by
  have hfull := hv.full
  have hpos : 0 < w.recordsPerRun := zero_lt_of_lt hroom
  by_cases hempty : v.buffered = []
  · unfold flushRun at h
    rw [if_pos (by rw [hempty]; rfl)] at h
    rw [pure_eq_ok.1 h]
    have hperm := hv.perm
    rw [hempty, append_nil] at hperm
    rw [hempty, length_nil, add_zero] at hfull
    refine ⟨hv.expectation, hv.work, hperm, hv.sorted, ?_⟩
    unfold ceilDiv
    rw [← hfull, mul_comm, mul_add_div hpos, div_eq_of_lt (by omega), add_zero]
  · have hlen : 0 < v.buffered.length := length_pos_iff.2 hempty
    rw [flushRun_ok hempty h]
    refine ⟨hv.expectation, hv.work, flushed_perm.trans hv.perm, flushed_sorted hv.sorted, ?_⟩
    show (v.runs ++ [_]).length = _
    unfold ceilDiv
    rw [length_append, length_singleton, ← hfull, mul_comm, add_assoc, mul_add_div hpos]
    congr 1
    symm
    rw [Nat.div_eq_iff hpos]
    omega

/-- The last flush finds no duplicate among distinct keys. -/
theorem Holds.lastFlush_succeeds (hnodup : (records.map RunRecord.key).Nodup) :
    ∃ v', flushRun v = .ok v' := by
  by_cases hempty : v.buffered = []
  · refine ⟨v, ?_⟩
    unfold flushRun
    rw [if_pos (by rw [hempty]; rfl)]
    rfl
  · have hkeys := (hv.perm.map RunRecord.key).nodup_iff.2 hnodup
    exact ⟨_, flushRun_eq hempty (hkeys.sublist ((sublist_append_right _ _).map _))⟩

end

variable {root : B256} {day : WorldwideDay}

/-- The eager root, as the conditions under which it exists. -/
theorem eager_eq_ok (hday : ∀ leaf ∈ leaves, worldwideDay leaf.1 = day) :
    tributePartitionRootFromLeaves ops day leaves = .ok root ↔
      isValid day = true ∧ ((leaves.map (recordOf ops)).map RunRecord.key).Nodup ∧
        ∃ roots, (List.range shardCount).mapM (eagerShardRoot ops (leaves.map (recordOf ops)))
          = .ok roots ∧ closeRoots ops day roots = .ok root := by
  have hdays : (leaves.forM fun leaf => throwIf (worldwideDay leaf.1 ≠ day)
      (CollectionError.tributeDayMismatch day.val (worldwideDay leaf.1).val)) = .ok () := by
    induction leaves with
    | nil => rfl
    | cons leaf leaves ih =>
      rw [forM_eq_forM, forM_cons, throwIf, if_neg (not_not.2 (hday leaf mem_cons_self))]
      exact ih fun l hl => hday l (mem_cons_of_mem _ hl)
  unfold tributePartitionRootFromLeaves
  simp only [laws, mapError_eq_ok, hdays, not_not, Bool.not_eq_false, Tx.exists_unit, true_and]

/-- The reduction of a sorted run gives the eager root of its leaves, or fails as it does. -/
theorem reduceSortedRun_eq_ok
    {sorted : List RunRecord} (hvalid : isValid day = true)
    (hday : ∀ leaf ∈ leaves, worldwideDay leaf.1 = day) (hsorted : SortedRun sorted)
    (hperm : sorted.Perm (leaves.map (recordOf ops))) :
    reduceSortedRun ops day sorted = .ok root ↔
      tributePartitionRootFromLeaves ops day leaves = .ok root := by
  have hmem : ∀ r ∈ sorted, ∃ leaf ∈ leaves, recordOf ops leaf = r := fun r hr =>
    mem_map.1 (hperm.subset hr)
  have hwell : WellSharded sorted := by
    intro r hr
    obtain ⟨leaf, -, rfl⟩ := hmem r hr
    rfl
  have hne : ∀ r ∈ sorted, r.leaf ≠ 0 := by
    intro r hr
    obtain ⟨leaf, -, rfl⟩ := hmem r hr
    exact leaf.2.property
  rw [reduceSortedRun_eq ops day hsorted hwell, eager_eq_ok ops hday]
  simp only [bind_eq_ok, mapError_eq_ok, mapM_shardRoot_eq_ok ops hsorted hwell hperm hne, hvalid,
    true_and, and_assoc, exists_and_left]

theorem create_eq_ok :
    create e w = .ok v ↔ isValid e.day = true ∧ e.commitmentScheme = activeCommitmentScheme ∧
      (w.recordsPerRun ≠ 0 ∧ 2 ≤ w.mergeFanIn) ∧ w.recordsPerRun * recordBytes < 2 ^ 63 ∧
      v = { expectation := e, work := w, buffered := [], peakBufferedRecords := 0,
            pushedCount := 0, runs := [] } := by
  unfold create
  simp only [laws, not_not, not_or, not_le, not_lt, Bool.not_eq_false, exists_const]

theorem Holds.ofCreate (h : create e w = .ok v) :
    Holds e w [] v ∧ v.buffered.length < w.recordsPerRun := by
  obtain ⟨-, -, ⟨hpos, -⟩, -, rfl⟩ := create_eq_ok.1 h
  refine ⟨⟨rfl, rfl, rfl, List.Perm.refl _, fun _ h => absurd h not_mem_nil, ?_,
    Nat.zero_le _⟩, Nat.pos_of_ne_zero hpos⟩
  show 0 * w.recordsPerRun + 0 = 0
  omega

/-- The passes succeed on the runs of the last flush. -/
theorem mergeRuns_of_flushed {n : Nat} (hrecords : 1 ≤ w.recordsPerRun) (hfan : 2 ≤ w.mergeFanIn)
    (hfits : n ≤ w.recordsPerRun ∨ ceilDiv n w.recordsPerRun + (w.mergeFanIn - 1) < 2 ^ 64)
    (hperm : v'.runs.flatten.Perm records) (hsorted : ∀ run ∈ v'.runs, SortedRun run)
    (hlen : v'.runs.length = ceilDiv n w.recordsPerRun) :
    ∃ out, mergeRuns w.mergeFanIn v'.runs.length v'.runs = .ok out ∧
      (out.headD []).Perm records ∧ SortedRun (out.headD []) := by
  have hfits' : v'.runs.length ≤ 1 ∨ v'.runs.length + (w.mergeFanIn - 1) < 2 ^ 64 := by
    rw [hlen]
    refine hfits.imp (fun h => ?_) id
    unfold ceilDiv
    rw [← Nat.lt_succ_iff, Nat.div_lt_iff_lt_mul (by omega)]
    omega
  obtain ⟨out, hout, hp, hs⟩ := mergeRuns_spec hfan hfits' le_rfl hsorted
  exact ⟨out, hout, hp.trans hperm, hs⟩

section Verify

variable {leaves : List (WwdEntityId × PresentLeaf)}
  (hday : ∀ leaf ∈ leaves, worldwideDay leaf.1 = e.day)
  (hrecords : 1 ≤ w.recordsPerRun) (hfan : 2 ≤ w.mergeFanIn)
  (hfits : leaves.length ≤ w.recordsPerRun ∨
    ceilDiv leaves.length w.recordsPerRun + (w.mergeFanIn - 1) < 2 ^ 64)
include hday hrecords hfan hfits

/-- What a verification that succeeds has checked. -/
theorem eager_of_verify (h : verify ops e w leaves = .ok root) :
    leaves.length = e.exactLeafCount ∧
      tributePartitionRootFromLeaves ops e.day leaves = .ok e.expectedCollectionRoot := by
  simp only [verify, finish, laws, not_not] at h
  obtain ⟨start, hstart, v, hv, -, hcount', v', hflush, runs, hruns, root', hroot, -, heq, -⟩ := h
  obtain ⟨hh, hroom⟩ := (Holds.ofCreate hstart).1.foldlM ops (Holds.ofCreate hstart).2 hv
  rw [nil_append] at hh
  obtain ⟨he, hw, hperm, hsorted, hlen⟩ := hh.lastFlush hroom hflush
  rw [length_map] at hlen
  obtain ⟨out, hout, hp, hs⟩ := mergeRuns_of_flushed hrecords hfan hfits hperm hsorted hlen
  rw [hw, hout] at hruns
  obtain rfl := Except.ok.inj hruns
  rw [he] at hroot heq
  rw [heq, reduceSortedRun_eq_ok ops (create_eq_ok.1 hstart).1 hday hs hp] at hroot
  rw [hh.pushed, hh.expectation, length_map] at hcount'
  exact ⟨hcount', hroot⟩

/-- A verification against the eager root succeeds. -/
theorem verify_of_eager (hscheme : e.commitmentScheme = activeCommitmentScheme)
    (hcapacity : w.recordsPerRun * recordBytes < 2 ^ 63) (hcount : leaves.length = e.exactLeafCount)
    (hroot : tributePartitionRootFromLeaves ops e.day leaves = .ok e.expectedCollectionRoot) :
    verify ops e w leaves = .ok e.expectedCollectionRoot := by
  obtain ⟨hvalid, hnodup, -⟩ := (eager_eq_ok ops hday).1 hroot
  have hstart := create_eq_ok.2 ⟨hvalid, hscheme, ⟨by omega, hfan⟩, hcapacity, rfl⟩
  obtain ⟨h0, hroom0⟩ := Holds.ofCreate hstart
  obtain ⟨v, hv⟩ := h0.foldlM_succeeds ops hroom0 hday (by rwa [nil_append]) (by simp [hcount])
  obtain ⟨hh, hroom⟩ := h0.foldlM ops hroom0 hv
  rw [nil_append] at hh
  obtain ⟨v', hflush⟩ := hh.lastFlush_succeeds hnodup
  obtain ⟨he, hw, hperm, hsorted, hlen⟩ := hh.lastFlush hroom hflush
  rw [length_map] at hlen
  obtain ⟨out, hout, hp, hs⟩ := mergeRuns_of_flushed hrecords hfan hfits hperm hsorted hlen
  have hred := (reduceSortedRun_eq_ok ops hvalid hday hs hp).2 hroot
  rw [← hw] at hout
  subst he
  have hpushed : v.pushedCount = v.expectation.exactLeafCount := by
    rw [hh.pushed, hh.expectation, length_map, hcount]
  simp only [verify, finish, laws]
  exact ⟨_, hstart, v, hv, (), not_not.2 hpushed, v', hflush, out, hout, _, hred,
    (), fun h => h rfl, rfl⟩

end Verify

/-- A verification succeeds exactly when the count is the expected one, no two leaves share a tree
key, and the eager root of the leaves is the expected root; and the buffer stays within the bound
after every push. The sum of runs and fan-in fits 64 bits, and the buffer fits the address
space. -/
theorem verify_iff_eager (e : TributePartitionExpectation) (w : TributePartitionWorkConfig)
    (leaves : List (WwdEntityId × PresentLeaf))
    (hday : ∀ leaf ∈ leaves, worldwideDay leaf.1 = e.day)
    (hscheme : e.commitmentScheme = activeCommitmentScheme)
    (hrecords : 1 ≤ w.recordsPerRun) (hfan : 2 ≤ w.mergeFanIn)
    (hcapacity : w.recordsPerRun * recordBytes < 2 ^ 63) (hfits : leaves.length ≤ w.recordsPerRun ∨
      ceilDiv leaves.length w.recordsPerRun + (w.mergeFanIn - 1) < 2 ^ 64) :
    ((∃ root, verify ops e w leaves = .ok root) ↔
      leaves.length = e.exactLeafCount ∧ (leaves.map fun leaf => ops.treeKey leaf.1).Nodup ∧
        tributePartitionRootFromLeaves ops e.day leaves = .ok e.expectedCollectionRoot) ∧
    ∀ start pushed v, create e w = .ok start → pushed <+: leaves →
      pushed.foldlM (push ops) start = .ok v →
        v.buffered.length ≤ w.recordsPerRun ∧ v.peakBufferedRecords ≤ w.recordsPerRun := by
  refine ⟨⟨?_, ?_⟩, ?_⟩
  · rintro ⟨root, h⟩
    obtain ⟨hcount, hroot⟩ := eager_of_verify ops hday hrecords hfan hfits h
    have hnodup := ((eager_eq_ok ops hday).1 hroot).2.1
    rw [map_map] at hnodup
    exact ⟨hcount, hnodup, hroot⟩
  · rintro ⟨hcount, -, hroot⟩
    exact ⟨_, verify_of_eager ops hday hrecords hfan hfits hscheme hcapacity hcount hroot⟩
  · intro start pushed v hstart _ hv
    obtain ⟨h0, hroom0⟩ := Holds.ofCreate hstart
    obtain ⟨hh, hroom⟩ := h0.foldlM ops hroom0 hv
    exact ⟨hroom.le, hh.peak⟩

/-! ### Two leaves -/

/-- A tree whose nodes are the sums of their leaves. -/
def sumOps : TreeOps Nat where
  zero := 0
  ofLeaf := BitVec.toNat
  merge := fun _ _ a b => a + b
  checkedRoot := fun v => .ok (BitVec.ofNat 256 v)
  treeKey := id
  aggregateShardRoots := fun roots => .ok (roots.foldl (· + ·) 0)
  collectionRoot := fun _ top => .ok top
  merge_zero := fun _ _ => rfl

/-- A tribute of the first of January 2026. -/
def newYearTribute (k : Fin 16) : WwdEntityId :=
  ⟨20260101 * 2 ^ 224 + k.val, by have := k.isLt; omega⟩

/-- Two tributes, the larger key first. -/
def twoTributes : List (WwdEntityId × PresentLeaf) :=
  [(newYearTribute 5, ⟨7, by decide⟩), (newYearTribute 2, ⟨4, by decide⟩)]

/-- The expectation of their root. -/
def twoTributesExpectation : TributePartitionExpectation where
  day := ⟨20260101, by decide⟩
  exactLeafCount := 2
  expectedCollectionRoot := BitVec.ofNat 256 11
  commitmentScheme := activeCommitmentScheme
  exactLeafCount_lt := by decide

theorem twoTributes_day :
    ∀ leaf ∈ twoTributes, worldwideDay leaf.1 = twoTributesExpectation.day :=
  forall_mem_cons.2 ⟨rfl, forall_mem_singleton.2 rfl⟩

theorem twoTributes_verified :
    ∃ root, verify sumOps twoTributesExpectation ⟨1, 2⟩ twoTributes = .ok root :=
  (verify_iff_eager sumOps twoTributesExpectation ⟨1, 2⟩ twoTributes twoTributes_day rfl
    (by decide) (by decide) (by decide) (Or.inr (by decide))).1.2
      ⟨rfl, by decide +kernel, by decide +kernel⟩

/-- With the largest fan-in the sum of two runs and the fan-in leaves 64 bits, and the verification
of the same leaves against the same root fails. -/
theorem widestFanIn_fails :
    twoTributes.length = twoTributesExpectation.exactLeafCount ∧
      (twoTributes.map fun leaf => sumOps.treeKey leaf.1).Nodup ∧
      tributePartitionRootFromLeaves sumOps twoTributesExpectation.day twoTributes
        = .ok twoTributesExpectation.expectedCollectionRoot ∧
      verify sumOps twoTributesExpectation ⟨1, 2 ^ 64 - 1⟩ twoTributes = .error .integerOverflow :=
  ⟨rfl, by decide +kernel, by decide +kernel, by decide +kernel⟩

end Rudis.PartitionRoot

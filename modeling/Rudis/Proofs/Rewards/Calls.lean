import Rudis.Proofs.Rewards.Settlement

/-!
# `Rudis.Proofs.Rewards.Calls`: what a successful call leaves

Each call of the fee windows that succeeds leaves a world that is a function of the one it started
in: `World.participate`, `World.lateCredit`, `World.escrow`, `World.finalize` and, for a settlement,
`World.settled`. One lemma per call says so; the lemmas after it read off the parts of the world
that the call touches.
-/

namespace Rudis.Rewards

open Tx

variable {w w' : World} {fbHash h : B256} {day k : Nat} {voter : Address} {u : Unit}

/-! ### Participation -/

/-- The world after one participation: an uncounted voter is counted on the day and marked. -/
def World.participate (w : World) (fbHash : B256) (day : Nat) (voter : Address) : World :=
  if (w.rewards.window fbHash).participationCounted voter = true then w
  else (w.mapDay day (·.count voter)).mapWindow fbHash (·.markCounted voter)

theorem eq_of_recordRewardParticipation (hok : Ok (recordRewardParticipation fbHash day voter) w u w') :
    w' = w.participate fbHash day voter := by
  simp only [recordRewardParticipation, readWindow, writeDay, writeWindow, rules, ok_when] at hok
  unfold World.participate
  rcases hok with ⟨hnew, -, -, -, -, rfl⟩ | ⟨hold, rfl⟩
  · rw [if_neg (by simp [hnew])]
  · rw [if_pos (by simpa using hold)]

/-- Whether or not the voter was counted before, it is marked after, and only the day book changes
besides. -/
theorem participate_eq (w : World) (fbHash : B256) (day : Nat) (voter : Address) :
    ∃ books, w.participate fbHash day voter = { w with rewards := { w.rewards with
      window := update w.rewards.window fbHash ((w.rewards.window fbHash).markCounted voter)
      day := books } } := by
  unfold World.participate
  split
  · rename_i hcounted
    have hmark : (w.rewards.window fbHash).markCounted voter = w.rewards.window fbHash := by
      rw [Window.markCounted, ← hcounted, update_eq_self]
    exact ⟨w.rewards.day, by rw [hmark, update_eq_self]⟩
  · exact ⟨_, rfl⟩

/-- The participations of a list of voters touch the block's window and the day books only. -/
theorem participateAll_eq (fbHash : B256) (day : Nat) (voters : List Address) : ∀ w : World, ∃ books,
    voters.foldl (·.participate fbHash day ·) w = { w with rewards := { w.rewards with
      window := update w.rewards.window fbHash
        (voters.foldl Window.markCounted (w.rewards.window fbHash))
      day := books } } := by
  induction voters with
  | nil =>
    intro w
    exact ⟨w.rewards.day, by simp [update_eq_self]⟩
  | cons v voters ih =>
    intro w
    obtain ⟨books, hstep⟩ := participate_eq w fbHash day v
    obtain ⟨books', hrest⟩ := ih (w.participate fbHash day v)
    refine ⟨books', ?_⟩
    rw [List.foldl_cons, hrest, hstep]
    simp

/-! ### Credits and escrow -/

/-- The world after a credit of a voter at a distance. -/
def World.lateCredit (w : World) (fbHash : B256) (voter : Address) (k : Nat) : World :=
  if (w.rewards.guard fbHash).feeSettled = true then w
  else (if 0 < k then w.participate fbHash (w.rewards.window fbHash).pendingRewardDay voter
    else w).mapWindow fbHash (·.credit voter k)

theorem eq_of_recordLateCredit (hok : Ok (recordLateCredit fbHash voter k) w u w') :
    w' = w.lateCredit fbHash voter k ∧ ((w.rewards.guard fbHash).feeSettled = false → 0 < k →
      (w.rewards.window fbHash).pendingRewardDay ≠ 0) := by
  simp only [recordLateCredit, recordLateParticipation, enterCredit, readWindow, writeWindow,
    rules, ok_when] at hok
  unfold World.lateCredit
  rcases hok with ⟨hopen, -, t, hpart, -, rfl⟩ | ⟨hsettled, rfl⟩
  · rw [if_neg (by simp [hopen])]
    rcases hpart with ⟨hk, hday, hpart⟩ | ⟨hk, rfl⟩
    · rw [if_pos hk, eq_of_recordRewardParticipation hpart]
      exact ⟨rfl, fun _ _ => hday⟩
    · rw [if_neg hk]
      exact ⟨rfl, fun _ hk' => absurd hk' hk⟩
  · have hsettled' : (w'.rewards.guard fbHash).feeSettled = true := by simpa using hsettled
    rw [if_pos hsettled']
    exact ⟨rfl, fun hopen => absurd hopen hsettled⟩

def World.escrow (w : World) (fbNumber : Nat) (fbHash : B256) (feeSum : Nat) (binding : Binding)
    (baseVoters : List Address) : World :=
  if (w.rewards.guard fbHash).feeSettled = true then w
  else (w.mapWindow fbHash fun window =>
    baseVoters.foldl (·.credit · 0) { window with pendingFees := feeSum }).setBinding fbNumber binding

theorem mapWindow_mapWindow (w : World) (fbHash : B256) (f g : Window → Window) :
    (w.mapWindow fbHash f).mapWindow fbHash g = w.mapWindow fbHash (g ∘ f) := by
  simp [World.mapWindow]

theorem mapWindow_id (w : World) (fbHash : B256) : w.mapWindow fbHash id = w := by
  simp [World.mapWindow]

/-- Crediting base voters one after the other folds their credits into the open window. -/
theorem lateCredit_foldl (voters : List Address) : ∀ w : World,
    (w.rewards.guard fbHash).feeSettled = false →
      voters.foldl (·.lateCredit fbHash · 0) w =
        w.mapWindow fbHash fun window => voters.foldl (·.credit · 0) window := by
  induction voters with
  | nil =>
    intro w _
    exact (mapWindow_id w fbHash).symm
  | cons v voters ih =>
    intro w hopen
    have hcredit : w.lateCredit fbHash v 0 = w.mapWindow fbHash (·.credit v 0) := by
      rw [World.lateCredit, if_neg (by simp [hopen]), if_neg (lt_irrefl 0)]
    rw [List.foldl_cons, hcredit, ih (w.mapWindow fbHash (·.credit v 0)) hopen, mapWindow_mapWindow]
    rfl

theorem eq_of_escrowBlockFee {fbNumber feeSum committeeSize epoch view parentView : Nat}
    {committeeSetHash : B256} {baseVoters : List Address}
    (hok : Ok (escrowBlockFee fbNumber fbHash feeSum committeeSize epoch view parentView
      committeeSetHash baseVoters) w u w') :
    w' = w.escrow fbNumber fbHash feeSum
      ⟨fbHash, committeeSize, epoch, committeeSetHash, view, parentView⟩ baseVoters := by
  simp only [escrowBlockFee, writeWindow, writeBinding, rules, ok_when] at hok
  unfold World.escrow
  rcases hok with ⟨hopen, hloop⟩ | ⟨hsettled, rfl⟩
  · have hfold := Ok.forM_eq_foldl (·.lateCredit fbHash · 0)
      (fun v s s' hs => (eq_of_recordLateCredit hs).1) hloop
    rw [lateCredit_foldl baseVoters _ (by exact hopen)] at hfold
    rw [if_neg (by simp [hopen]), hfold]
    simp [World.mapWindow, World.setBinding]
  · rw [if_pos (by simpa using hsettled)]

/-! ### The finalized-metadata hook -/

/-- The day book with the fees of a block and the close of its window. -/
def DayBook.accumulate (d : DayBook) (closesAt fee : Nat) : DayBook :=
  { d with lastWindowClose := max d.lastWindowClose closesAt, feeSumRaw := d.feeSumRaw + fee }

/-- The world after the first-sight part of the hook. -/
def World.countBlock (w : World) (fbNumber : Nat) (fbHash : B256) (fee day : Nat) : World :=
  if (w.rewards.guard fbHash).metadataCounted = true then w
  else ((w.mapWindow fbHash ({ · with pendingRewardDay := day })).mapDay day
    (·.accumulate (fbNumber + lateFinalizeWindowK) fee)).mapGuard fbHash
      ({ · with metadataCounted := true })

theorem eq_of_countBlock {metadata : FinalizedMetadata} {fee : Nat}
    (hnew : (w.rewards.guard metadata.finalizedBlockHash).metadataCounted = false)
    (hok : Ok (countBlock metadata fee day) w u w') :
    w' = w.countBlock metadata.finalizedBlockNumber metadata.finalizedBlockHash fee day := by
  simp only [countBlock, writeWindow, writeDay, writeGuard, rules, okOr_eq_ok,
    checkedAdd_eq_some] at hok
  obtain ⟨-, -, rfl⟩ := hok
  rw [World.countBlock, if_neg (by simp [hnew])]
  simp [World.mapDay, World.mapWindow, World.mapGuard, DayBook.accumulate]

/-- The block in the ring cell that the next one takes. -/
def World.evictee (w : World) : B256 :=
  w.rewards.blockGuardRing (w.rewards.blockGuardRingSeq % blockGuardRetain)

/-- The world with the guards of the evicted block freed. -/
def World.evict (w : World) (fbHash : B256) : World :=
  if w.evictee ≠ 0 ∧ w.evictee ≠ fbHash then w.mapGuard w.evictee fun _ => .empty else w

/-- The world after the guard ring took a block. -/
def World.prune (w : World) (fbHash : B256) : World :=
  (w.evict fbHash).enterRing (w.rewards.blockGuardRingSeq % blockGuardRetain) fbHash
    (w.rewards.blockGuardRingSeq + 1)

theorem eq_of_pruneBlockGuards (hok : Ok (pruneBlockGuards fbHash) w u w') : w' = w.prune fbHash := by
  simp only [pruneBlockGuards, writeGuard, rules, ok_when, okOr_eq_ok, checkedAdd_eq_some] at hok
  unfold World.prune World.evict
  obtain ⟨t, ⟨hne, hother, rfl⟩ | ⟨hkeep, rfl⟩, -, rfl⟩ := hok
  · exact congrArg (World.enterRing · _ _ _) (if_pos (by exact ⟨hne, hother⟩)).symm
  · exact congrArg (World.enterRing · _ _ _) (if_neg (by exact hkeep)).symm

/-- The binding a delivery writes. -/
def FinalizedMetadata.binding (metadata : FinalizedMetadata) : Binding :=
  ⟨metadata.finalizedBlockHash, min metadata.orderedCommittee.length (2 ^ 32 - 1),
    metadata.finalizedEpoch, metadata.committeeSetHash, metadata.finalizedView, metadata.parentView⟩

/-- The world after the hook's accounting, before the guard ring moves. -/
def World.account (w : World) (metadata : FinalizedMetadata) (fee day : Nat)
    (voters : List Address) : World :=
  (voters.foldl (·.participate metadata.finalizedBlockHash day ·)
    (((w.openDays day).countBlock metadata.finalizedBlockNumber metadata.finalizedBlockHash fee
      day).escrow metadata.finalizedBlockNumber metadata.finalizedBlockHash fee metadata.binding
        voters)).observeDay day

/-- The world after the hook. -/
def World.finalize (w : World) (metadata : FinalizedMetadata) (fee day : Nat)
    (voters : List Address) : World :=
  if (w.rewards.guard metadata.finalizedBlockHash).metadataCounted = true then
    w.account metadata fee day voters
  else (w.account metadata fee day voters).prune metadata.finalizedBlockHash

theorem eq_of_onFinalizedMetadata {metadata : FinalizedMetadata} {fee timestamp : Nat}
    {voters : List Address} (hok : Ok (onFinalizedMetadata metadata fee timestamp voters) w u w') :
    w' = w.finalize metadata fee (timestampToDateKey timestamp) voters := by
  simp only [onFinalizedMetadata, rules] at hok
  obtain ⟨t, hcount, t', hescrow, t'', hloop, hprune⟩ := hok
  have hpart := Ok.forM_eq_foldl (·.participate metadata.finalizedBlockHash
    (timestampToDateKey timestamp) ·) (fun v s s' hs => eq_of_recordRewardParticipation hs) hloop
  have ht : t = (w.openDays (timestampToDateKey timestamp)).countBlock metadata.finalizedBlockNumber
      metadata.finalizedBlockHash fee (timestampToDateKey timestamp) := by
    rcases ok_when.mp hcount with ⟨hnew, h⟩ | ⟨hold, rfl⟩
    · exact eq_of_countBlock hnew h
    · have hcounted : (w.rewards.guard metadata.finalizedBlockHash).metadataCounted = true := by
        simpa using hold
      exact (if_pos hcounted).symm
  rw [World.finalize, World.account, ← ht, FinalizedMetadata.binding, ← eq_of_escrowBlockFee hescrow,
    ← hpart]
  rcases ok_when.mp hprune with ⟨hnew, h⟩ | ⟨hold, rfl⟩
  · rw [if_neg (by simp [hnew]), eq_of_pruneBlockGuards h]
  · rw [if_pos (by simpa using hold)]

/-! ### What the hook touches -/

section Finalize

variable (w : World) (fbNumber : Nat) (fbHash : B256) (fee day : Nat) (voters : List Address)

theorem countBlock_eq : ∃ books, w.countBlock fbNumber fbHash fee day =
    { w with rewards := { w.rewards with
      window := update w.rewards.window fbHash
        (if (w.rewards.guard fbHash).metadataCounted = true then w.rewards.window fbHash
          else { w.rewards.window fbHash with pendingRewardDay := day })
      guard := update w.rewards.guard fbHash
        { w.rewards.guard fbHash with metadataCounted := true }
      day := books } } := by
  unfold World.countBlock
  split
  · rename_i hcounted
    have hmark : { w.rewards.guard fbHash with metadataCounted := true } = w.rewards.guard fbHash := by
      rw [← hcounted]
    exact ⟨w.rewards.day, by rw [hmark, update_eq_self, update_eq_self]⟩
  · exact ⟨_, rfl⟩

theorem escrow_eq (binding : Binding) : w.escrow fbNumber fbHash fee binding voters =
    { w with rewards := { w.rewards with
      window := update w.rewards.window fbHash
        (if (w.rewards.guard fbHash).feeSettled = true then w.rewards.window fbHash
          else voters.foldl (·.credit · 0) { w.rewards.window fbHash with pendingFees := fee })
      binding := if (w.rewards.guard fbHash).feeSettled = true then w.rewards.binding
        else update w.rewards.binding fbNumber binding } } := by
  unfold World.escrow
  split
  · rw [update_eq_self]
  · rfl

/-- The window of a delivered block: its day on first sight, its escrow and base credits while it is
unsettled, and the marks of its voters. -/
def Window.deliver (window : Window) (guard : BlockGuard) (fee day : Nat) (voters : List Address) :
    Window :=
  voters.foldl Window.markCounted
    (if guard.feeSettled = true then
      if guard.metadataCounted = true then window else { window with pendingRewardDay := day }
    else voters.foldl (·.credit · 0)
      { (if guard.metadataCounted = true then window else { window with pendingRewardDay := day })
        with pendingFees := fee })

variable (metadata : FinalizedMetadata)

/-- The accounting of a delivery touches the window and the guards of its block, the binding of its
number and the day books. -/
theorem account_eq : ∃ books last observed, w.account metadata fee day voters =
    { w with rewards := { w.rewards with
      window := update w.rewards.window metadata.finalizedBlockHash
        ((w.rewards.window metadata.finalizedBlockHash).deliver
          (w.rewards.guard metadata.finalizedBlockHash) fee day voters)
      guard := update w.rewards.guard metadata.finalizedBlockHash
        { w.rewards.guard metadata.finalizedBlockHash with metadataCounted := true }
      binding := if (w.rewards.guard metadata.finalizedBlockHash).feeSettled = true then
          w.rewards.binding
        else update w.rewards.binding metadata.finalizedBlockNumber metadata.binding
      day := books
      lastSettledUtcDay := last
      maxObservedFinalizedDay := observed } } := by
  unfold World.account
  obtain ⟨books, hcount⟩ := countBlock_eq (w.openDays day) metadata.finalizedBlockNumber
    metadata.finalizedBlockHash fee day
  rw [hcount, escrow_eq]
  obtain ⟨books', hpart⟩ := participateAll_eq metadata.finalizedBlockHash day voters _
  rw [hpart]
  refine ⟨books', (w.openDays day).rewards.lastSettledUtcDay,
    max w.rewards.maxObservedFinalizedDay day, ?_⟩
  simp only [World.observeDay, World.openDays, update_self, update_idem, Window.deliver]
  rfl

/-- The guard ring touches neither windows nor bindings nor balances. -/
theorem prune_frame (w : World) (fbHash : B256) :
    (w.prune fbHash).rewards.window = w.rewards.window ∧
      (w.prune fbHash).rewards.binding = w.rewards.binding ∧ (w.prune fbHash).balance = w.balance := by
  unfold World.prune World.evict
  split <;> exact ⟨rfl, rfl, rfl⟩

theorem finalize_window : (w.finalize metadata fee day voters).rewards.window =
    update w.rewards.window metadata.finalizedBlockHash
      ((w.rewards.window metadata.finalizedBlockHash).deliver
        (w.rewards.guard metadata.finalizedBlockHash) fee day voters) := by
  obtain ⟨books, last, observed, haccount⟩ := account_eq w fee day voters metadata
  have hwindow := congrArg (·.rewards.window) haccount
  unfold World.finalize
  split
  · exact hwindow
  · exact (prune_frame _ _).1.trans hwindow

theorem finalize_binding : (w.finalize metadata fee day voters).rewards.binding =
    if (w.rewards.guard metadata.finalizedBlockHash).feeSettled = true then w.rewards.binding
    else update w.rewards.binding metadata.finalizedBlockNumber metadata.binding := by
  obtain ⟨books, last, observed, haccount⟩ := account_eq w fee day voters metadata
  have hbinding := congrArg (·.rewards.binding) haccount
  unfold World.finalize
  split
  · exact hbinding
  · exact (prune_frame _ _).2.1.trans hbinding

/-- The guards after a delivery: those of the evicted block are free, those of the delivered one say
that it was counted. -/
theorem finalize_guard (h : B256) : (w.finalize metadata fee day voters).rewards.guard h =
    if (w.rewards.guard metadata.finalizedBlockHash).metadataCounted = false ∧ h = w.evictee ∧
      h ≠ 0 ∧ h ≠ metadata.finalizedBlockHash then .empty
    else if h = metadata.finalizedBlockHash then
      { w.rewards.guard metadata.finalizedBlockHash with metadataCounted := true }
    else w.rewards.guard h := by
  obtain ⟨books, last, observed, haccount⟩ := account_eq w fee day voters metadata
  have hguard : (w.account metadata fee day voters).rewards.guard h =
      if h = metadata.finalizedBlockHash then
        { w.rewards.guard metadata.finalizedBlockHash with metadataCounted := true }
      else w.rewards.guard h := by
    rw [haccount]
    exact update_apply ..
  have hevictee : (w.account metadata fee day voters).evictee = w.evictee := by
    rw [haccount]
    rfl
  unfold World.finalize
  split
  · rename_i hcounted
    rw [if_neg (by simp [hcounted]), hguard]
  · rename_i hcounted
    show ((w.account metadata fee day voters).evict metadata.finalizedBlockHash).rewards.guard h = _
    have hnew : (w.rewards.guard metadata.finalizedBlockHash).metadataCounted = false := by
      simpa using hcounted
    rw [World.evict, hevictee]
    split
    · rename_i hev
      show update (w.account metadata fee day voters).rewards.guard w.evictee .empty h = _
      by_cases heq : h = w.evictee
      · rw [if_pos ⟨hnew, heq, heq ▸ hev.1, heq ▸ hev.2⟩, heq, update_self]
      · have hkeep : ¬ ((w.rewards.guard metadata.finalizedBlockHash).metadataCounted = false ∧
            h = w.evictee ∧ h ≠ 0 ∧ h ≠ metadata.finalizedBlockHash) := fun hall => heq hall.2.1
        rw [if_neg hkeep, update_of_ne heq, hguard]
    · rename_i hnone
      have hkeep : ¬ ((w.rewards.guard metadata.finalizedBlockHash).metadataCounted = false ∧
          h = w.evictee ∧ h ≠ 0 ∧ h ≠ metadata.finalizedBlockHash) :=
        fun hall => hnone (hall.2.1 ▸ hall.2.2)
      rw [if_neg hkeep, hguard]

end Finalize

/-! ### Settlement -/

/-- A matured settlement does nothing, meets a settled block, or pays a window out. -/
theorem settleMatured_cases {gate : MetadosisGate} {currentBlock windowK : Nat} {result : Nat × Nat}
    (hok : Ok (settleMatured gate currentBlock windowK) w result w') :
    (w' = w ∧ result = (0, 0)) ∨
      ∃ t, (w.rewards.binding (currentBlock - windowK)).fbHash ≠ 0 ∧
        Ok (settleWindow gate (w.rewards.binding (currentBlock - windowK)).fbHash
          (w.rewards.binding (currentBlock - windowK)).committeeSize) w result t ∧
        w' = t.setBinding (currentBlock - windowK) .empty := by
  simp only [settleMatured, writeBinding, ok_ite, rules, ↓existsAndEq] at hok
  rcases hok with ⟨-, rfl, rfl⟩ | ⟨-, ⟨-, rfl, rfl⟩ | ⟨hbound, t, hsettle, rfl⟩⟩
  · exact .inl ⟨rfl, rfl⟩
  · exact .inl ⟨rfl, rfl⟩
  · exact .inr ⟨t, hbound, hsettle, rfl⟩

end Rudis.Rewards

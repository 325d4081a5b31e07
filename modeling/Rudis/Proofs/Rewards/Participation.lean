import Rudis.Lib.Sums
import Rudis.Proofs.Rewards.Windows

/-!
# `Rudis.Proofs.Rewards.Participation`: each block is counted once

`participations` collects the block and voter pairs that the deliveries and late credits of a run
name, `deliveries` the blocks delivered. `Counted` says that the day books are exactly the books of
these two histories: a voter's count of a day is the number of distinct blocks of that day it was
credited for, the total is the sum of the counts, the fees are those of the distinct blocks, and the
voter list has every voter once, in the order of its first credit.

`settle_window` frees the marks that keep a voter from being counted twice, while the guards of the
block stay for another 64 blocks. A delivery that comes back in between counts its voters again
(`counted_twice_after_settlement`). `counted_of_run` says that this is the only way to lose the
count: the books are right in every run whose deliveries find the marks of the voters they name.
-/

namespace Rudis.Rewards

open List
open Runs

/-! ### Histories -/

/-- The block and voter pairs an operation credits. A settled block takes no late credit. -/
def Op.participations (op : Op) (w : World) : List (B256 × Address) :=
  match op with
  | .onFinalizedMetadata h voters => voters.map (h, ·.address)
  | .recordLateCredit h voter _ =>
    if (w.rewards.guard h).feeSettled = true then [] else [(h, voter.address)]
  | _ => []

/-- The block an operation delivers. -/
def Op.deliveries : Op → List B256
  | .onFinalizedMetadata h _ => [h]
  | _ => []

variable (chain : B256 → FinalizedBlock)

/-- The pairs a step credits, when its call goes through. -/
def newParticipations (op : Op) (w : World) : List (B256 × Address) :=
  if op.succeeds chain w then op.participations w else []

/-- The block a step delivers, when its call goes through. -/
def newDeliveries (op : Op) (w : World) : List B256 :=
  if op.succeeds chain w then op.deliveries else []

/-- The block and voter pairs credited in a run. -/
def participations : List Op → World → List (B256 × Address) :=
  collect (step chain) (newParticipations chain)

/-- The blocks delivered in a run. -/
def deliveries : List Op → World → List B256 := collect (step chain) (newDeliveries chain)

/-! ### The books of a history -/

/-- The distinct pairs of a day, in the order they came. -/
def pairsOf (pairs : List (B256 × Address)) (day : Nat) : List (B256 × Address) :=
  (firstSeen pairs).filter fun e => (chain e.1).day = day

/-- The day books are those of the pairs credited and the blocks delivered. -/
structure Counted (pairs : List (B256 × Address)) (blocks : List B256) (w : World) : Prop where
  participation : ∀ day v, (w.rewards.day day).participation v =
    ((pairsOf chain pairs day).filter fun e => e.2 = v).length
  total : ∀ day, (w.rewards.day day).totalParticipation = ∑ v, (w.rewards.day day).participation v
  fees : ∀ day, (w.rewards.day day).feeSumRaw =
    (((firstSeen blocks).filter fun h => (chain h).day = day).map
      fun h => (chain h).validatorFeeSum).sum
  voters : ∀ day, Listed (w.rewards.day day).voterAt (w.rewards.day day).voterCount
    (firstSeen ((pairsOf chain pairs day).map Prod.snd)) 0

variable {chain} {pairs : List (B256 × Address)} {blocks : List B256} {w w' : World} {h : B256}
  {v : Address}

theorem pairsOf_concat_of_mem (hmem : (h, v) ∈ pairs) (day : Nat) :
    pairsOf chain (pairs ++ [(h, v)]) day = pairsOf chain pairs day := by
  rw [pairsOf, firstSeen_concat_of_mem hmem, pairsOf]

theorem pairsOf_concat_of_notMem (hnot : (h, v) ∉ pairs) (day : Nat) :
    pairsOf chain (pairs ++ [(h, v)]) day =
      if (chain h).day = day then pairsOf chain pairs day ++ [(h, v)] else pairsOf chain pairs day := by
  rw [pairsOf, firstSeen_concat_of_notMem hnot, filter_append]
  by_cases hday : (chain h).day = day
  · simp [hday, pairsOf]
  · simp [hday, pairsOf]

section

variable (hc : Counted chain pairs blocks w)

include hc

/-- A known pair leaves the books as they are. -/
theorem Counted.of_mem (hmem : (h, v) ∈ pairs) : Counted chain (pairs ++ [(h, v)]) blocks w := by
  refine ⟨fun day v' => ?_, hc.total, hc.fees, fun day => ?_⟩
  · rw [pairsOf_concat_of_mem hmem]
    exact hc.participation day v'
  · rw [pairsOf_concat_of_mem hmem]
    exact hc.voters day

/-- A voter has a participation exactly when some pair of the day names it. -/
theorem Counted.participation_eq_zero_iff (day : Nat) :
    (w.rewards.day day).participation v = 0 ↔ v ∉ (pairsOf chain pairs day).map Prod.snd := by
  rw [hc.participation, length_eq_zero_iff, filter_eq_nil_iff]
  constructor
  · intro hall hmem
    obtain ⟨e, he, rfl⟩ := mem_map.mp hmem
    simpa using hall e he
  · intro hnot e he
    simpa using fun heq : e.2 = v => hnot (heq ▸ mem_map_of_mem he)

/-- Counting a new pair on its block's day enters it into the books. -/
theorem Counted.count (hnot : (h, v) ∉ pairs) :
    Counted chain (pairs ++ [(h, v)]) blocks (w.mapDay (chain h).day (·.count v)) := by
  have hday : ∀ day, (w.mapDay (chain h).day (·.count v)).rewards.day day =
      if day = (chain h).day then (w.rewards.day (chain h).day).count v else w.rewards.day day :=
    fun day => update_apply ..
  refine ⟨fun day v' => ?_, fun day => ?_, fun day => ?_, fun day => ?_⟩
  · rw [hday, pairsOf_concat_of_notMem hnot]
    by_cases heq : day = (chain h).day
    · subst heq
      rw [if_pos rfl, if_pos rfl, filter_append, length_append, ← hc.participation]
      show update (w.rewards.day (chain h).day).participation v _ v' = _
      by_cases hv : v' = v
      · subst hv
        simp
      · rw [update_of_ne hv]
        simp [Ne.symm hv]
    · rw [if_neg heq, if_neg (Ne.symm heq)]
      exact hc.participation day v'
  · rw [hday]
    split
    · rename_i heq
      have hsum := Sums.sum_update (w.rewards.day (chain h).day).participation v
        ((w.rewards.day (chain h).day).participation v + 1)
      have htotal := hc.total (chain h).day
      show (w.rewards.day (chain h).day).totalParticipation + 1 =
        ∑ v', update (w.rewards.day (chain h).day).participation v _ v'
      omega
    · exact hc.total day
  · rw [← hc.fees]
    exact field_update DayBook.feeSumRaw (by rfl) day
  · rw [hday, pairsOf_concat_of_notMem hnot]
    by_cases heq : day = (chain h).day
    · subst heq
      rw [if_pos rfl, if_pos rfl, map_append, map_singleton]
      have hlisted := hc.voters (chain h).day
      unfold DayBook.count
      by_cases hzero : (w.rewards.day (chain h).day).participation v = 0
      · rw [firstSeen_concat_of_notMem ((hc.participation_eq_zero_iff _).mp hzero), if_pos hzero,
          if_pos hzero]
        exact hlisted.push v
      · have hmem : v ∈ (pairsOf chain pairs (chain h).day).map Prod.snd := by
          by_contra hnot'
          exact hzero ((hc.participation_eq_zero_iff _).mpr hnot')
        rw [firstSeen_concat_of_mem hmem, if_neg hzero, if_neg hzero]
        exact hlisted
    · rw [if_neg heq, if_neg (Ne.symm heq)]
      exact hc.voters day

/-- Books that agree on every day book agree on the count. -/
theorem Counted.congr (hday : w'.rewards.day = w.rewards.day) : Counted chain pairs blocks w' := by
  constructor <;> rw [hday]
  exacts [hc.participation, hc.total, hc.fees, hc.voters]

end

/-! ### The ledger -/

variable (chain) in
/-- What a run keeps besides the books: a mark belongs to a credited pair, a credited pair has its
mark as long as its block is open, and only delivered blocks are counted or open. -/
structure Ledger (pairs : List (B256 × Address)) (blocks : List B256) (w : World) : Prop where
  books : Counted chain pairs blocks w
  marks : ∀ h v, (w.rewards.window h).participationCounted v = true → (h, v) ∈ pairs
  kept : ∀ h v, (h, v) ∈ pairs → (w.rewards.window h).participationCounted v = true ∨
    (w.rewards.window h).pendingRewardDay = 0
  opened : ∀ h, (w.rewards.window h).pendingRewardDay ≠ 0 →
    (w.rewards.window h).pendingRewardDay = (chain h).day ∧ h ∈ blocks
  known : ∀ h v, (h, v) ∈ pairs → h ∈ blocks
  counted : ∀ h, (w.rewards.guard h).metadataCounted = true → h ∈ blocks

/-- A participation sets one mark. -/
theorem participate_counted_iff (w : World) (h : B256) (day : Nat) (v : Address) (h' : B256)
    (v' : Address) :
    ((w.participate h day v).rewards.window h').participationCounted v' = true ↔
      (h' = h ∧ v' = v) ∨ (w.rewards.window h').participationCounted v' = true := by
  obtain ⟨books, hpart⟩ := participate_eq w h day v
  rw [hpart]
  show (update w.rewards.window h _ h').participationCounted v' = true ↔ _
  by_cases hh : h' = h
  · subst hh
    rw [update_self]
    by_cases hv : v' = v
    · simp [Window.markCounted, hv]
    · simp [Window.markCounted, hv]
  · rw [update_of_ne hh]
    simp [hh]

/-- A participation opens no window and touches no guard. -/
theorem participate_frame (w : World) (h : B256) (day : Nat) (v : Address) :
    (∀ h', ((w.participate h day v).rewards.window h').pendingRewardDay =
        (w.rewards.window h').pendingRewardDay) ∧
      (w.participate h day v).rewards.guard = w.rewards.guard := by
  obtain ⟨books, hpart⟩ := participate_eq w h day v
  rw [hpart]
  exact ⟨field_update Window.pendingRewardDay rfl, rfl⟩

section

variable (hl : Ledger chain pairs blocks w)

include hl

/-- One participation of a delivered block, whose mark is there if the pair is known. -/
theorem Ledger.participate (hblock : h ∈ blocks)
    (hmark : (h, v) ∈ pairs → (w.rewards.window h).participationCounted v = true) :
    Ledger chain (pairs ++ [(h, v)]) blocks (w.participate h (chain h).day v) := by
  obtain ⟨hopen, hguard⟩ := participate_frame w h (chain h).day v
  have hmem : ∀ e, e ∈ pairs ++ [(h, v)] ↔ e ∈ pairs ∨ e = (h, v) := by simp
  refine ⟨?_, fun h' v' hm => ?_, fun h' v' hp => ?_, fun h' hday => ?_, fun h' v' hp => ?_, ?_⟩
  · unfold World.participate
    split
    · rename_i hcounted
      exact hl.books.of_mem (hl.marks h v hcounted)
    · rename_i hcounted
      exact (hl.books.count fun hp => hcounted (hmark hp)).congr rfl
  · rw [hmem]
    rcases (participate_counted_iff ..).mp hm with ⟨rfl, rfl⟩ | hold
    · exact .inr rfl
    · exact .inl (hl.marks h' v' hold)
  · rw [hopen, participate_counted_iff]
    rcases (hmem _).mp hp with hold | hnew
    · exact (hl.kept h' v' hold).imp_left .inr
    · cases hnew
      exact .inl (.inl ⟨rfl, rfl⟩)
  · rw [hopen] at hday ⊢
    exact hl.opened h' hday
  · rcases (hmem _).mp hp with hold | hnew
    · exact hl.known h' v' hold
    · cases hnew
      exact hblock
  · rw [hguard]
    exact hl.counted

omit hl in
/-- The participations of a list of voters, whose marks are there for the pairs that are known. -/
theorem Ledger.participateAll (hblock : h ∈ blocks) (voters : List Address) :
    ∀ {pairs : List (B256 × Address)} {w : World}, Ledger chain pairs blocks w →
      (∀ v ∈ voters, (h, v) ∈ pairs → (w.rewards.window h).participationCounted v = true) →
      Ledger chain (pairs ++ voters.map (h, ·)) blocks
        (voters.foldl (·.participate h (chain h).day ·) w) := by
  induction voters with
  | nil =>
    intro pairs w hl _
    simpa using hl
  | cons v voters ih =>
    intro pairs w hl hmark
    rw [map_cons, append_cons]
    refine ih (hl.participate hblock (hmark v mem_cons_self)) fun v' hv' hp => ?_
    rw [participate_counted_iff]
    rcases mem_append.mp hp with hold | hnew
    · exact .inr (hmark v' (mem_cons_of_mem v hv') hold)
    · cases mem_singleton.mp hnew
      exact .inl ⟨rfl, rfl⟩

/-- A change that touches no day book, mark, open day or guard keeps the ledger. -/
theorem Ledger.congr (hday : w'.rewards.day = w.rewards.day)
    (hmarks : ∀ h, (w'.rewards.window h).participationCounted =
      (w.rewards.window h).participationCounted)
    (hopen : ∀ h, (w'.rewards.window h).pendingRewardDay = (w.rewards.window h).pendingRewardDay)
    (hguard : ∀ h, (w'.rewards.guard h).metadataCounted = true →
      (w.rewards.guard h).metadataCounted = true) : Ledger chain pairs blocks w' := by
  refine ⟨hl.books.congr hday, fun h v hm => ?_, fun h v hp => ?_, fun h hd => ?_, hl.known,
    fun h hg => hl.counted h (hguard h hg)⟩
  · rw [hmarks] at hm
    exact hl.marks h v hm
  · rw [hmarks, hopen]
    exact hl.kept h v hp
  · rw [hopen] at hd ⊢
    exact hl.opened h hd

omit hl in
/-- Credits leave the marks and the open day of a window. -/
theorem creditAll_frame (voters : List Address) : ∀ window : Window,
    (voters.foldl (·.credit · 0) window).participationCounted = window.participationCounted ∧
      (voters.foldl (·.credit · 0) window).pendingRewardDay = window.pendingRewardDay := by
  induction voters with
  | nil => exact fun _ => ⟨rfl, rfl⟩
  | cons v voters ih =>
    intro window
    obtain ⟨hmarks, hopen⟩ := ih (window.credit v 0)
    exact ⟨hmarks.trans (credit_participationCounted ..), hopen.trans (credit_pendingRewardDay ..)⟩

theorem Ledger.escrow (n : Nat) (h : B256) (fee : Nat) (binding : Binding) (voters : List Address) :
    Ledger chain pairs blocks (w.escrow n h fee binding voters) := by
  rw [escrow_eq]
  have hframe := creditAll_frame voters { w.rewards.window h with pendingFees := fee }
  refine hl.congr rfl (field_update Window.participationCounted ?_)
    (field_update Window.pendingRewardDay ?_) fun _ hg => hg
  · split
    · rfl
    · exact hframe.1
  · split
    · rfl
    · exact hframe.2

omit hl in
/-- A delivered block the guards do not know is new, so its fees are added once. -/
theorem Counted.accumulate (hc : Counted chain pairs blocks w) (hnew : h ∉ blocks) (closesAt : Nat) :
    Counted chain pairs (blocks ++ [h])
      (w.mapDay (chain h).day (·.accumulate closesAt (chain h).validatorFeeSum)) := by
  have hkept {γ : Type} (field : DayBook → γ) (hfield : ∀ b n fee, field (b.accumulate n fee) = field b)
      (day : Nat) : field ((w.mapDay (chain h).day
        (·.accumulate closesAt (chain h).validatorFeeSum)).rewards.day day) =
      field (w.rewards.day day) := field_update field (hfield ..) day
  have hpart := hkept DayBook.participation fun _ _ _ => rfl
  refine ⟨fun day v => ?_, fun day => ?_, fun day => ?_, fun day => ?_⟩
  · rw [hpart, hc.participation]
  · rw [hpart, hkept DayBook.totalParticipation fun _ _ _ => rfl, hc.total]
  · show (update w.rewards.day (chain h).day _ day).feeSumRaw = _
    rw [firstSeen_concat_of_notMem hnew, filter_append, map_append, sum_append, ← hc.fees]
    by_cases heq : day = (chain h).day
    · subst heq
      simp [DayBook.accumulate]
    · simp [heq, Ne.symm heq]
  · rw [hkept DayBook.voterAt fun _ _ _ => rfl, hkept DayBook.voterCount fun _ _ _ => rfl]
    exact hc.voters day

/-- The first-sight part of a delivery within the retention of the guards. -/
theorem Ledger.countBlock (n : Nat)
    (hretained : h ∈ blocks → (w.rewards.guard h).metadataCounted = true) :
    Ledger chain pairs (blocks ++ [h])
      (w.countBlock n h (chain h).validatorFeeSum (chain h).day) := by
  unfold World.countBlock
  split
  · -- A counted block is in the history already.
    rename_i hcounted
    have hmem : h ∈ blocks := hl.counted h hcounted
    refine ⟨⟨hl.books.participation, hl.books.total, fun day => ?_, hl.books.voters⟩, hl.marks,
      hl.kept, fun h' hd => ?_, fun h' v hp => ?_, fun h' hg => ?_⟩
    · rw [firstSeen_concat_of_mem hmem]
      exact hl.books.fees day
    · exact (hl.opened h' hd).imp_right (mem_append_left _)
    · exact mem_append_left _ (hl.known h' v hp)
    · exact mem_append_left _ (hl.counted h' hg)
  · rename_i hcounted
    have hnew : h ∉ blocks := fun hmem => hcounted (hretained hmem)
    have hwindow : ∀ h', (((w.mapWindow h ({ · with pendingRewardDay := (chain h).day })).mapDay
        (chain h).day (·.accumulate (n + lateFinalizeWindowK) (chain h).validatorFeeSum)).mapGuard h
          ({ · with metadataCounted := true })).rewards.window h' =
        if h' = h then { w.rewards.window h with pendingRewardDay := (chain h).day }
        else w.rewards.window h' :=
      fun h' => update_apply ..
    refine ⟨(hl.books.accumulate hnew _).congr rfl, fun h' v hm => ?_, fun h' v hp => ?_,
      fun h' hd => ?_, fun h' v hp => mem_append_left _ (hl.known h' v hp), fun h' hg => ?_⟩
    · refine hl.marks h' v (Eq.trans ?_ hm)
      exact (field_update (Window.participationCounted · v) (by rfl) h').symm
    · -- No pair of a new block is known, so its fresh day disturbs none.
      have hne : h' ≠ h := by
        rintro rfl
        exact hnew (hl.known h' v hp)
      rw [hwindow, if_neg hne]
      exact hl.kept h' v hp
    · rw [hwindow] at hd ⊢
      split
      · rename_i heq
        exact ⟨heq ▸ rfl, heq ▸ mem_append_right _ mem_cons_self⟩
      · rename_i hne
        rw [if_neg hne] at hd
        exact (hl.opened h' hd).imp_right (mem_append_left _)
    · by_cases heq : h' = h
      · exact heq ▸ mem_append_right _ mem_cons_self
      · refine mem_append_left _ (hl.counted h' ?_)
        have hg' : (update w.rewards.guard h _ h').metadataCounted = true := hg
        rwa [update_of_ne heq] at hg'

/-- The guard ring only clears guards. -/
theorem Ledger.prune (h : B256) : Ledger chain pairs blocks (w.prune h) := by
  unfold World.prune World.evict
  split
  · refine hl.congr rfl (fun _ => rfl) (fun _ => rfl) fun h' hg => ?_
    have hg' : (update w.rewards.guard w.evictee BlockGuard.empty h').metadataCounted = true := hg
    by_cases heq : h' = w.evictee
    · rw [heq, update_self] at hg'
      cases hg'
    · rwa [update_of_ne heq] at hg'
  · exact hl.congr rfl (fun _ => rfl) (fun _ => rfl) fun _ hg => hg

/-- A delivery within the retention of the guards, which finds the marks of the voters it names. -/
theorem Ledger.finalize (voters : List Address)
    (hretained : h ∈ blocks → (w.rewards.guard h).metadataCounted = true)
    (hmark : ∀ v ∈ voters, (h, v) ∈ pairs → (w.rewards.window h).participationCounted v = true) :
    Ledger chain (pairs ++ voters.map (h, ·)) (blocks ++ [h])
      (w.finalize ((chain h).metadata h) (chain h).validatorFeeSum (chain h).day voters) := by
  have hdays : Ledger chain pairs blocks (w.openDays (chain h).day) :=
    hl.congr rfl (fun _ => rfl) (fun _ => rfl) fun _ hg => hg
  have hcounted := hdays.countBlock (chain h).number hretained
  have hescrowed := hcounted.escrow (chain h).number h (chain h).validatorFeeSum
    ((chain h).metadata h).binding voters
  -- Neither the first sight nor the escrow changes a mark.
  have hmarks : ∀ v, ((((w.openDays (chain h).day).countBlock (chain h).number h
      (chain h).validatorFeeSum (chain h).day).escrow (chain h).number h (chain h).validatorFeeSum
        ((chain h).metadata h).binding voters).rewards.window h).participationCounted v =
      (w.rewards.window h).participationCounted v := by
    intro v
    obtain ⟨books, hcount⟩ := countBlock_eq (w.openDays (chain h).day) (chain h).number h
      (chain h).validatorFeeSum (chain h).day
    rw [hcount, escrow_eq]
    simp only [update_self]
    split
    · split <;> rfl
    · rw [(creditAll_frame voters _).1]
      split <;> rfl
  have hparts := hescrowed.participateAll (mem_append_right _ mem_cons_self) voters
    fun v hv hp => (hmarks v).trans (hmark v hv hp)
  have haccount : Ledger chain (pairs ++ voters.map (h, ·)) (blocks ++ [h])
      (w.account ((chain h).metadata h) (chain h).validatorFeeSum (chain h).day voters) :=
    hparts.congr rfl (fun _ => rfl) (fun _ => rfl) fun _ hg => hg
  unfold World.finalize
  split
  · exact haccount
  · exact haccount.prune h

/-- A late credit of an open block counts its voter on the block's day. -/
theorem Ledger.lateCredit {k : Nat} (hk : 0 < k) (hopen : (w.rewards.guard h).feeSettled = false)
    (hday : (w.rewards.window h).pendingRewardDay ≠ 0) :
    Ledger chain (pairs ++ [(h, v)]) blocks (w.lateCredit h v k) := by
  obtain ⟨heq, hblock⟩ := hl.opened h hday
  rw [World.lateCredit, if_neg (by simp [hopen]), if_pos hk, heq]
  have hpart := hl.participate (v := v) hblock fun hp => (hl.kept h v hp).resolve_right hday
  exact hpart.congr rfl (field_update Window.participationCounted (credit_participationCounted ..))
    (field_update Window.pendingRewardDay (credit_pendingRewardDay ..)) fun _ hg => hg

/-- A settlement closes the block and clears marks, so every pair of the block stays accounted
for. -/
theorem Ledger.settled (h : B256) (paid : Address → Nat)
    (residue : Nat) : Ledger chain pairs blocks (w.settled h paid residue) := by
  have hwindow : ∀ h', (w.settled h paid residue).rewards.window h' =
      if h' = h then (w.rewards.window h).free else w.rewards.window h' :=
    fun h' => update_apply ..
  refine ⟨hl.books.congr rfl, fun h' v hm => ?_, fun h' v hp => ?_, fun h' hd => ?_, hl.known,
    fun h' hg => ?_⟩
  · rw [hwindow] at hm
    split at hm
    · rename_i heq
      subst heq
      have hclear := (Window.Reflects.clear_range (w.rewards.window h')
        (w.rewards.window h').lateVoterCount).2.2 v
      have hm' : ((List.range (w.rewards.window h').lateVoterCount).foldl Window.clearVoter
        (w.rewards.window h')).participationCounted v = true := hm
      rw [hclear] at hm'
      split at hm'
      · cases hm'
      · exact hl.marks h' v hm'
    · exact hl.marks h' v hm
  · rw [hwindow]
    split
    · exact .inr rfl
    · exact hl.kept h' v hp
  · rw [hwindow] at hd ⊢
    split
    · rename_i heq
      rw [if_pos heq] at hd
      exact absurd rfl hd
    · rename_i hne
      rw [if_neg hne] at hd
      exact hl.opened h' hd
  · refine hl.counted h' (Eq.trans ?_ hg)
    exact (field_update BlockGuard.metadataCounted (by rfl) h').symm

/-! ### Runs -/

/-- A step that cannot lose a count. A delivery comes within the retention of the guards, and every
voter it names that was credited for the block before still has its mark. A late credit has a
positive distance: voters at distance zero enter through a delivery. -/
def Op.Remembers (pairs : List (B256 × Address)) (blocks : List B256) (op : Op) (w : World) : Prop :=
  match op with
  | .onFinalizedMetadata h voters =>
    (h ∈ blocks → (w.rewards.guard h).metadataCounted = true) ∧
      ∀ v ∈ voters, (h, v.address) ∈ pairs →
        (w.rewards.window h).participationCounted v.address = true
  | .recordLateCredit _ _ k => 0 < k
  | _ => True

/-- Every step of a run remembers, after a given history. -/
def Remembers (chain : B256 → FinalizedBlock) :
    List (B256 × Address) → List B256 → List Op → World → Prop
  | _, _, [], _ => True
  | pairs, blocks, op :: ops, w => op.Remembers pairs blocks w ∧
    Remembers chain (pairs ++ newParticipations chain op w) (blocks ++ newDeliveries chain op w) ops
      (step chain op w)

omit hl in
theorem Ledger.empty (balance : Address → Nat) (total : Nat) :
    Ledger chain [] [] (.fresh balance total) where
  books := by
    refine ⟨fun _ _ => rfl, fun _ => ?_, fun _ => rfl, fun _ => Listed.nil 0⟩
    show 0 = ∑ _ : Address, 0
    rw [Finset.sum_const_zero]
  marks h v hm := by cases hm
  kept h v hp := by cases hp
  opened h hd := absurd rfl hd
  known h v hp := by cases hp
  counted h hg := by cases hg

theorem Ledger.step {op : Op} (hop : op.Remembers pairs blocks w) :
    Ledger chain (pairs ++ newParticipations chain op w) (blocks ++ newDeliveries chain op w)
      (Rewards.step chain op w) := by
  unfold newParticipations newDeliveries
  cases hs : op.succeeds chain w with
  | false =>
    rw [step_of_fails hs]
    simpa using hl
  | true =>
    have hok := step_of_succeeds hs
    rw [if_pos rfl, if_pos rfl]
    cases op with
    | onFinalizedMetadata h voters =>
      rw [eq_of_onFinalizedMetadata hok]
      have hdone := hl.finalize (voters.map (·.address)) hop.1 fun v hv hp => by
        obtain ⟨voter, hvoter, rfl⟩ := mem_map.mp hv
        exact hop.2 voter hvoter hp
      rw [map_map] at hdone
      exact hdone
    | escrowBlockFee n h fee size e v pv set voters =>
      rw [eq_of_escrowBlockFee hok]
      show Ledger chain (pairs ++ []) (blocks ++ []) _
      rw [append_nil, append_nil]
      exact hl.escrow ..
    | recordLateCredit h voter k =>
      obtain ⟨heq, hday⟩ := eq_of_recordLateCredit hok
      rw [heq]
      show Ledger chain (pairs ++ if _ then [] else _) (blocks ++ []) _
      rw [append_nil]
      split
      · rename_i hsettled
        rw [append_nil, World.lateCredit, if_pos hsettled]
        exact hl
      · rename_i hsettled
        have hopen : (w.rewards.guard h).feeSettled = false := by simpa using hsettled
        exact hl.lateCredit hop hopen (hday hopen hop)
    | settleMatured gate current windowK =>
      show Ledger chain (pairs ++ []) (blocks ++ []) _
      rw [append_nil, append_nil]
      rcases settle_cases hok with ⟨n, hsame | hclear⟩ | ⟨h, n, paid, residue, -, hset⟩
      · rw [hsame]
        exact hl
      · rw [hclear]
        exact hl.congr rfl (fun _ => rfl) (fun _ => rfl) fun _ hg => hg
      · rw [hset]
        exact (hl.settled h paid residue).congr rfl (fun _ => rfl) (fun _ => rfl) fun _ hg => hg

end

/-- A run that remembers keeps the ledger. -/
theorem Ledger.run : ∀ {ops : List Op} {pairs : List (B256 × Address)} {blocks : List B256}
    {w : World}, Ledger chain pairs blocks w → Remembers chain pairs blocks ops w →
      Ledger chain (pairs ++ participations chain ops w) (blocks ++ deliveries chain ops w)
        (run (Rewards.step chain) ops w) := by
  intro ops
  induction ops with
  | nil =>
    intro pairs blocks w hl _
    rw [participations, deliveries, collect_nil, collect_nil, append_nil, append_nil]
    exact hl
  | cons op ops ih =>
    intro pairs blocks w hl hr
    rw [participations, deliveries, collect_cons, collect_cons, ← append_assoc, ← append_assoc]
    exact ih (hl.step hr.1) hr.2

/-- In every run whose steps remember, the day books count each credited block of a voter once and
each delivered block's fees once. -/
theorem counted_of_run {ops : List Op} {balance : Address → Nat} {total : Nat}
    (h : Remembers chain [] [] ops (.fresh balance total)) :
    Counted chain (participations chain ops (.fresh balance total))
      (deliveries chain ops (.fresh balance total))
      (run (step chain) ops (.fresh balance total)) :=
  ((Ledger.empty balance total).run h).books

/-- One voter in the certificate and one late voter, each counted once. -/
theorem counted_of_sampleWindow :
    Counted sampleChain (participations sampleChain sampleWindow sampleGenesis)
      (deliveries sampleChain sampleWindow sampleGenesis)
      (run (step sampleChain) sampleWindow sampleGenesis) := by
  refine counted_of_run ⟨⟨fun hmem => ?_, fun _ _ hmem => ?_⟩, ?_, trivial⟩
  · cases hmem
  · cases hmem
  · exact Nat.one_pos

/-- The sample block is delivered, settled at the close of its window and delivered again. -/
def sampleReplay : List Op :=
  [sampleDelivery [firstVoter], .settleMatured (.ok ()) 4 3, sampleDelivery [firstVoter]]

theorem participations_sampleReplay :
    participations sampleChain sampleReplay sampleGenesis = [(7, 1), (7, 1)] := by
  have hfirst : (sampleDelivery [firstVoter]).succeeds sampleChain sampleGenesis = true := by
    decide +kernel
  have hsettle : (Op.settleMatured (.ok ()) 4 3).succeeds sampleChain
      (step sampleChain (sampleDelivery [firstVoter]) sampleGenesis) = true := by decide +kernel
  have hagain : (sampleDelivery [firstVoter]).succeeds sampleChain
      (step sampleChain (.settleMatured (.ok ()) 4 3)
        (step sampleChain (sampleDelivery [firstVoter]) sampleGenesis)) = true := by decide +kernel
  rw [sampleReplay, participations, collect_cons, collect_cons, collect_cons,
    collect_nil, newParticipations, newParticipations, newParticipations, hfirst, hsettle, hagain]
  rfl

/-- Within the retention of its guards, a block that comes back after its settlement counts its
voter a second time. -/
theorem counted_twice_after_settlement :
    ((run (step sampleChain) (sampleReplay.take 2) sampleGenesis).rewards.guard
      7).metadataCounted = true ∧ ((run (step sampleChain) sampleReplay sampleGenesis).rewards.day
      20240101).participation 1 = 2 ∧
    ¬ Counted sampleChain (participations sampleChain sampleReplay sampleGenesis)
      (deliveries sampleChain sampleReplay sampleGenesis)
      (run (step sampleChain) sampleReplay sampleGenesis) := by
  have htwice : ((run (step sampleChain) sampleReplay sampleGenesis).rewards.day
      20240101).participation 1 = 2 := by decide +kernel
  refine ⟨by decide +kernel, htwice, fun hc => ?_⟩
  have hone := hc.participation 20240101 1
  rw [htwice, participations_sampleReplay] at hone
  exact absurd hone (by decide +kernel)

end Rudis.Rewards

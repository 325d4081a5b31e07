import Rudis.Lib.FirstSeen
import Rudis.Proofs.Rewards.Calls

/-!
# `Rudis.Proofs.Rewards.Windows`: a block's window over whole runs

`credits` collects the credits that the successful calls of a run made for a block. `Reflects` says
that a window is exactly the record of a list of credits: it lists the credited voters in the order
they came, holds the smallest distance of each and marks no other voter as counted. Every call
keeps it while the block is unsettled (`reflects_of_ok`), so it holds in every run in which the guard
ring keeps the block (`reflects_of_run`).

`settlement_of_run` is the consequence for a settlement: every credited voter is paid by its
smallest distance alone, the payouts and the burned residue are the escrow, the window is gone, and
the block is never paid again.
-/

namespace Rudis.Rewards

open List
open Runs
open Tx

/-! ### One credit -/

section Credit

variable (window : Window) (v : Address) (k : Nat)

/-- A credit keeps the smaller distance of the voter and leaves the others. -/
theorem credit_kPlus1 (v' : Address) :
    (window.credit v k).lateVoterKPlus1 v' =
      if v' = v then
        if window.lateVoterKPlus1 v = 0 then k + 1 else min (window.lateVoterKPlus1 v) (k + 1)
      else window.lateVoterKPlus1 v' := by
  unfold Window.credit
  by_cases hv : v' = v
  · subst hv
    split
    · simp [*]
    · split
      · simp only [update_self, if_true, *]
        omega
      · simp only [if_true, *]
        omega
  · split
    · simp [hv]
    · split <;> simp [hv]

theorem credit_participationCounted :
    (window.credit v k).participationCounted = window.participationCounted := by
  unfold Window.credit
  split
  · rfl
  · split <;> rfl

theorem credit_pendingRewardDay :
    (window.credit v k).pendingRewardDay = window.pendingRewardDay := by
  unfold Window.credit
  split
  · rfl
  · split <;> rfl

end Credit

/-! ### A window is the record of its credits -/

structure Window.Reflects (window : Window) (credits : List (Address × Nat)) : Prop where
  listed : Listed window.lateVoterAt window.lateVoterCount (firstSeen (credits.map Prod.fst)) 0
  absent : ∀ v, window.lateVoterKPlus1 v = 0 ↔ v ∉ credits.map Prod.fst
  least : ∀ v k, window.lateVoterKPlus1 v = k + 1 → IsLeast {k | (v, k) ∈ credits} k
  counted : ∀ v, window.participationCounted v = true → v ∈ credits.map Prod.fst

namespace Window.Reflects

variable {window : Window} {credits : List (Address × Nat)} {v : Address} {k : Nat}

theorem empty : Window.empty.Reflects [] where
  listed := Listed.nil 0
  absent v := by simp [Window.empty]
  least v k h := by simp [Window.empty] at h
  counted v h := by simp [Window.empty] at h

/-- One more credit keeps the smallest distance: the new one when it is smaller, else the old. -/
theorem isLeast_concat {k₀ : Nat} (h : IsLeast {k | (v, k) ∈ credits} k₀) :
    IsLeast {k' | (v, k') ∈ credits ++ [(v, k)]} (min k₀ k) := by
  constructor
  · rcases Nat.le_total k₀ k with hle | hle
    · rw [Nat.min_eq_left hle]
      exact mem_append_left _ h.1
    · rw [Nat.min_eq_right hle]
      exact mem_append_right _ mem_cons_self
  · intro k' hk'
    rcases mem_append.mp hk' with hold | hnew
    · exact le_trans (min_le_left ..) (h.2 hold)
    · obtain rfl : k' = k := by simpa using hnew
      exact min_le_right ..

/-- A credit enters the record. -/
theorem credit (h : window.Reflects credits) (v : Address) (k : Nat) :
    (window.credit v k).Reflects (credits ++ [(v, k)]) := by
  have hvoters : (credits ++ [(v, k)]).map Prod.fst = credits.map Prod.fst ++ [v] := by simp
  refine ⟨?_, fun v' => ?_, fun v' k' hk' => ?_, fun v' hv' => ?_⟩
  · rw [hvoters]
    by_cases hnew : v ∈ credits.map Prod.fst
    · rw [firstSeen_concat_of_mem hnew, Window.credit, if_neg (by rwa [h.absent v, not_not])]
      split
      · exact h.listed
      · exact h.listed
    · rw [firstSeen_concat_of_notMem hnew, Window.credit, if_pos ((h.absent v).mpr hnew)]
      exact h.listed.push v
  · rw [credit_kPlus1, hvoters]
    by_cases hv : v' = v
    · subst hv
      simp only [if_true, mem_append, mem_singleton, or_true, not_true_eq_false, iff_false]
      split <;> omega
    · simp [hv, h.absent v']
  · rw [credit_kPlus1] at hk'
    by_cases hv : v' = v
    · subst hv
      rw [if_pos rfl] at hk'
      split at hk'
      · -- A first credit is the only one.
        rename_i hzero
        obtain rfl : k' = k := by omega
        refine ⟨by simp, fun k'' hk'' => ?_⟩
        rcases mem_append.mp hk'' with hold | hlast
        · exact absurd (mem_map_of_mem hold) ((h.absent v').mp hzero)
        · exact (by simpa using hlast : k'' = k').ge
      · rename_i hpos
        obtain ⟨k₀, hk₀⟩ := exists_eq_succ_of_ne_zero hpos
        have hmin : min k₀ k = k' := by omega
        exact hmin ▸ isLeast_concat (h.least v' k₀ hk₀)
    · rw [if_neg hv] at hk'
      simpa [hv] using h.least v' k' hk'
  · rw [credit_participationCounted] at hv'
    rw [hvoters]
    exact mem_append_left _ (h.counted v' hv')

/-- Base voters enter the record at distance zero. -/
theorem creditAll (voters : List Address) :
    ∀ {window : Window} {credits : List (Address × Nat)}, window.Reflects credits →
      (voters.foldl (·.credit · 0) window).Reflects (credits ++ voters.map (·, 0)) := by
  induction voters with
  | nil =>
    intro window credits h
    simpa using h
  | cons v voters ih =>
    intro window credits h
    rw [map_cons, append_cons]
    exact ih (h.credit v 0)

/-- Marking a credited voter as counted keeps the record. -/
theorem markCounted (h : window.Reflects credits) (hv : v ∈ credits.map Prod.fst) :
    (window.markCounted v).Reflects credits := by
  refine ⟨h.listed, h.absent, h.least, fun v' hv' => ?_⟩
  by_cases heq : v' = v
  · exact heq ▸ hv
  · exact h.counted v' (by simpa [Window.markCounted, heq] using hv')

theorem markAll (voters : List Address) :
    ∀ {window : Window}, window.Reflects credits → (∀ v ∈ voters, v ∈ credits.map Prod.fst) →
      (voters.foldl Window.markCounted window).Reflects credits := by
  induction voters with
  | nil => exact fun h _ => h
  | cons v voters ih =>
    intro window h hv
    exact ih (h.markCounted (hv v mem_cons_self)) fun v' hv' => hv v' (mem_cons_of_mem v hv')

/-- An unsettled delivery enters its voters into the record. -/
theorem deliver {guard : BlockGuard} (h : window.Reflects credits) (hopen : guard.feeSettled = false)
    (fee day : Nat) (voters : List Address) :
    (window.deliver guard fee day voters).Reflects (credits ++ voters.map (·, 0)) := by
  rw [Window.deliver, if_neg (by simp [hopen])]
  refine markAll voters (creditAll voters ?_) ?_
  · split <;> exact ⟨h.listed, h.absent, h.least, h.counted⟩
  · intro v hv
    rw [map_append, mem_append]
    exact .inr (mem_map.mpr ⟨(v, 0), mem_map.mpr ⟨v, hv, rfl⟩, rfl⟩)

/-- A credit and a mark do not see each other. -/
theorem credit_markCounted (window : Window) (v : Address) (k : Nat) :
    (window.markCounted v).credit v k = (window.credit v k).markCounted v := by
  unfold Window.credit Window.markCounted
  split <;> [rfl; (split <;> rfl)]

/-- A map that is cleared at the keys of `m` cells, cleared at one more. -/
theorem update_cleared {β : Type} {cell : Nat → Address} {f g : Address → β} {z : β} {m : Nat}
    (h : ∀ v, f v = if ∃ i < m, cell i = v then z else g v) (v : Address) :
    update f (cell m) z v = if ∃ i < m + 1, cell i = v then z else g v := by
  simp only [Nat.lt_succ_iff_lt_or_eq, or_and_right, exists_or, exists_eq_left]
  by_cases hv : v = cell m
  · rw [hv, update_self, if_pos (.inr rfl)]
  · rw [update_of_ne hv, h]
    simp only [Ne.symm hv, or_false]

/-- The clearing loop after `m` rounds: the first `m` cells and the slots of their voters are zero,
everything else is as it was. -/
theorem clear_range (window : Window) (m : Nat) :
    (∀ i, ((List.range m).foldl Window.clearVoter window).lateVoterAt i =
        if i < m then 0 else window.lateVoterAt i) ∧
      (∀ v, ((List.range m).foldl Window.clearVoter window).lateVoterKPlus1 v =
        if ∃ i < m, window.lateVoterAt i = v then 0 else window.lateVoterKPlus1 v) ∧
      ∀ v, ((List.range m).foldl Window.clearVoter window).participationCounted v =
        if ∃ i < m, window.lateVoterAt i = v then false else window.participationCounted v := by
  induction m with
  | zero => simp
  | succ m ih =>
    obtain ⟨hcell, hdist, hcount⟩ := ih
    rw [range_succ, foldl_append]
    simp only [foldl_cons, foldl_nil, Window.clearVoter]
    -- Round `m` reads its own cell, which the earlier rounds left alone.
    have hread : ((List.range m).foldl Window.clearVoter window).lateVoterAt m =
        window.lateVoterAt m := by
      rw [hcell, if_neg (lt_irrefl m)]
    rw [hread]
    refine ⟨fun i => ?_, update_cleared hdist, update_cleared hcount⟩
    by_cases hi : i = m
    · subst hi
      simp
    · rw [update_of_ne hi, hcell]
      simp only [Nat.lt_succ_iff_lt_or_eq, hi, or_false]

/-- Freeing a window that is the record of its credits empties it. -/
theorem free_eq_empty (h : window.Reflects credits) : window.free = .empty := by
  obtain ⟨hcell, hdist, hcount⟩ := clear_range window window.lateVoterCount
  refine Window.ext rfl rfl rfl (funext fun i => ?_) (funext fun v => ?_) (funext fun v => ?_)
  · refine (hcell i).trans ?_
    split
    · rfl
    · rename_i hlt
      exact h.listed.cell_of_le (by omega)
  · refine (hdist v).trans ?_
    split
    · rfl
    · rename_i hnone
      exact (h.absent v).mpr fun hv => hnone (h.listed.exists_cell (mem_firstSeen.mpr hv))
  · refine (hcount v).trans ?_
    split
    · rfl
    · rename_i hnone
      exact Bool.eq_false_iff.mpr fun hv =>
        hnone (h.listed.exists_cell (mem_firstSeen.mpr (h.counted v hv)))

end Window.Reflects

/-! ### The credits of a run -/

/-- The credits an operation asks for: base voters at distance zero, a late voter at its own. -/
def Op.credits (fbHash : B256) : Op → List (Address × Nat)
  | .onFinalizedMetadata h voters => if h = fbHash then voters.map (·.address, 0) else []
  | .escrowBlockFee _ h _ _ _ _ _ _ voters => if h = fbHash then voters.map (·.address, 0) else []
  | .recordLateCredit h voter k => if h = fbHash then [(voter.address, k)] else []
  | .settleMatured .. => []

/-- The operation frees the guards of the block. -/
def Op.evicts (fbHash : B256) (op : Op) (w : World) : Bool :=
  match op with
  | .onFinalizedMetadata h _ =>
    !(w.rewards.guard h).metadataCounted && w.evictee == fbHash && fbHash != h
  | _ => false

variable (chain : B256 → FinalizedBlock)

/-- The call goes through. -/
def Op.succeeds (op : Op) (w : World) : Bool := ((op.call chain).run w).1.isOk

/-- The credits made for a block by the successful calls of a run. -/
def credits (fbHash : B256) : List Op → World → List (Address × Nat) :=
  collect (step chain) fun op w => if op.succeeds chain w then op.credits fbHash else []

variable {chain} {op : Op} {w w' : World} {fbHash : B256} {cs : List (Address × Nat)}

theorem step_of_succeeds (h : op.succeeds chain w = true) :
    Ok (op.call chain) w () (step chain op w) := by
  obtain ⟨_, hok⟩ := ok_of_isOk h
  have hcheck : (checkpoint (op.call chain)).run w = _ := ok_checkpoint.mpr hok
  rw [step, hcheck]
  exact hok

theorem step_of_fails (h : op.succeeds chain w = false) : step chain op w = w := by
  rcases step_cases chain op w with hok | hsame
  · have htrue : op.succeeds chain w = true := by rw [Op.succeeds, hok]; rfl
    rw [htrue] at h
    cases h
  · exact hsame

/-- A credit touches neither guards nor bindings. In the window of an unsettled block a late one
marks the voter as counted first. -/
theorem lateCredit_frame (w : World) (h : B256) (v : Address) (k : Nat) :
    (w.lateCredit h v k).rewards.guard = w.rewards.guard ∧
      (w.lateCredit h v k).rewards.binding = w.rewards.binding ∧
      (w.lateCredit h v k).rewards.window = if (w.rewards.guard h).feeSettled = true then
        w.rewards.window else update w.rewards.window h ((if 0 < k then
          (w.rewards.window h).markCounted v else w.rewards.window h).credit v k) := by
  unfold World.lateCredit
  split
  · exact ⟨rfl, rfl, rfl⟩
  · split
    · obtain ⟨books, hpart⟩ := participate_eq w h (w.rewards.window h).pendingRewardDay v
      rw [hpart]
      simp [World.mapWindow]
    · exact ⟨rfl, rfl, rfl⟩

/-- A settlement leaves the world, up to a cleared binding, or settles one unsettled block. -/
theorem settle_cases {gate : MetadosisGate} {current windowK : Nat}
    (hok : Ok ((Op.settleMatured gate current windowK).call chain) w () w') :
    (∃ n, w' = w ∨ w' = w.setBinding n .empty) ∨
      ∃ h n paid residue, (w.rewards.guard h).feeSettled = false ∧
        w' = (w.settled h paid residue).setBinding n .empty := by
  simp only [Op.call, rules] at hok
  obtain ⟨result, t, hok, rfl⟩ := hok
  rcases settleMatured_cases hok with ⟨rfl, -⟩ | ⟨t, -, hsettle, rfl⟩
  · exact .inl ⟨0, .inl rfl⟩
  · rcases settleWindow_cases hsettle with ⟨-, -, rfl⟩ | ⟨hopen, -, paid, rfl⟩
    · exact .inl ⟨_, .inr rfl⟩
    · exact .inr ⟨_, _, paid, _, hopen, rfl⟩

/-- While the ring keeps a block, a settled block stays settled. -/
theorem settled_of_ok (hok : Ok (op.call chain) w () w') (hkeep : op.evicts fbHash w = false)
    (hs : (w.rewards.guard fbHash).feeSettled = true) :
    (w'.rewards.guard fbHash).feeSettled = true := by
  cases op with
  | onFinalizedMetadata h voters =>
    rw [eq_of_onFinalizedMetadata hok, finalize_guard]
    split
    · rename_i hev
      simp only [Op.evicts, Bool.and_eq_false_iff, Bool.not_eq_eq_eq_not, Bool.not_false,
        beq_eq_false_iff_ne, bne_eq_false_iff_eq] at hkeep
      rcases hkeep with (hc | hc) | hc
      · exact absurd (hc.symm.trans hev.1) (by simp)
      · exact absurd hev.2.1.symm hc
      · exact absurd hc hev.2.2.2
    · split
      · rename_i heq
        exact heq ▸ hs
      · exact hs
  | escrowBlockFee n h fee size e v pv set voters =>
    rw [eq_of_escrowBlockFee hok, escrow_eq]
    exact hs
  | recordLateCredit h voter k =>
    rw [(eq_of_recordLateCredit hok).1, (lateCredit_frame ..).1]
    exact hs
  | settleMatured gate current windowK =>
    rcases settle_cases hok with ⟨n, rfl | rfl⟩ | ⟨h, n, paid, residue, -, rfl⟩
    · exact hs
    · exact hs
    · show (update w.rewards.guard h _ fbHash).feeSettled = true
      by_cases heq : fbHash = h
      · rw [heq, update_self]
      · rw [update_of_ne heq]
        exact hs

/-- While a block is unsettled, a call extends the record of its window by the credits it makes. -/
theorem reflects_of_ok (hok : Ok (op.call chain) w () w') (hkeep : op.evicts fbHash w = false)
    (hopen : (w'.rewards.guard fbHash).feeSettled = false)
    (h : (w.rewards.window fbHash).Reflects cs) :
    (w'.rewards.window fbHash).Reflects (cs ++ op.credits fbHash) := by
  have hopen₀ : (w.rewards.guard fbHash).feeSettled = false := by
    by_contra hs
    rw [settled_of_ok hok hkeep (by simpa using hs)] at hopen
    cases hopen
  cases op with
  | onFinalizedMetadata h' voters =>
    rw [eq_of_onFinalizedMetadata hok, finalize_window]
    show (update w.rewards.window h' _ fbHash).Reflects (cs ++ if h' = fbHash then _ else [])
    by_cases heq : h' = fbHash
    · subst heq
      rw [update_self, if_pos rfl]
      have hrecord := h.deliver hopen₀ (chain h').validatorFeeSum
        (timestampToDateKey (chain h').timestamp) (voters.map (·.address))
      rw [map_map] at hrecord
      exact hrecord
    · rw [update_of_ne (Ne.symm heq), if_neg heq, append_nil]
      exact h
  | escrowBlockFee n h' fee size e v pv set voters =>
    rw [eq_of_escrowBlockFee hok, escrow_eq]
    show (update w.rewards.window h' _ fbHash).Reflects (cs ++ if h' = fbHash then _ else [])
    by_cases heq : h' = fbHash
    · subst heq
      rw [update_self, if_pos rfl, if_neg (by simp [hopen₀])]
      have hescrowed : ({ w.rewards.window h' with pendingFees := fee } : Window).Reflects cs :=
        ⟨h.listed, h.absent, h.least, h.counted⟩
      have hrecord := Window.Reflects.creditAll (voters.map (·.address)) hescrowed
      rw [map_map] at hrecord
      exact hrecord
    · rw [update_of_ne (Ne.symm heq), if_neg heq, append_nil]
      exact h
  | recordLateCredit h' voter k =>
    rw [(eq_of_recordLateCredit hok).1, (lateCredit_frame ..).2.2]
    by_cases heq : h' = fbHash
    · subst heq
      rw [if_neg (by simp [hopen₀]), update_self, Op.credits, if_pos rfl]
      have hrecord := h.credit voter.address k
      split
      · rw [Window.Reflects.credit_markCounted]
        exact hrecord.markCounted (by simp)
      · exact hrecord
    · rw [Op.credits, if_neg heq, append_nil]
      split
      · exact h
      · rwa [update_of_ne (Ne.symm heq)]
  | settleMatured gate current windowK =>
    rw [Op.credits, append_nil]
    rcases settle_cases hok with ⟨n, rfl | rfl⟩ | ⟨h', n, paid, residue, -, rfl⟩
    · exact h
    · exact h
    · have hne : fbHash ≠ h' := by
        rintro rfl
        have hs : (update w.rewards.guard fbHash
          { w.rewards.guard fbHash with feeSettled := true } fbHash).feeSettled = false := hopen
        rw [update_self] at hs
        cases hs
      show (update w.rewards.window h' _ fbHash).Reflects cs
      rw [update_of_ne hne]
      exact h

/-- While the ring keeps a block, its settlement is never undone. -/
theorem settled_of_run {ops : List Op}
    (hkeep : Along (step chain) (fun op w => op.evicts fbHash w = false) ops w)
    (hs : (w.rewards.guard fbHash).feeSettled = true) :
    ((run (step chain) ops w).rewards.guard fbHash).feeSettled = true := by
  refine run_inv (fun w => (w.rewards.guard fbHash).feeSettled = true) ?_ hkeep hs
  intro op w hkeep hs
  rcases step_cases chain op w with hok | hsame
  · exact settled_of_ok hok hkeep hs
  · exact hsame.symm ▸ hs

/-- In every run in which the ring keeps a block, the window of the block is the record of the
credits made for it until it is settled. -/
theorem reflects_of_run : ∀ {ops : List Op} {w : World} {cs : List (Address × Nat)},
    Along (step chain) (fun op w => op.evicts fbHash w = false) ops w →
      ((run (step chain) ops w).rewards.guard fbHash).feeSettled = false →
      (w.rewards.window fbHash).Reflects cs →
      ((run (step chain) ops w).rewards.window fbHash).Reflects
        (cs ++ credits chain fbHash ops w) := by
  intro ops
  induction ops with
  | nil =>
    intro w cs _ _ h
    rw [credits, collect_nil, append_nil]
    exact h
  | cons op ops ih =>
    intro w cs hkeep hopen h
    -- Had this step settled the block, it would be settled at the end of the run.
    have hopen' : ((step chain op w).rewards.guard fbHash).feeSettled = false := by
      by_contra hs
      rw [run_cons, settled_of_run hkeep.2 (by simpa using hs)] at hopen
      cases hopen
    rw [credits, collect_cons, ← append_assoc]
    refine ih hkeep.2 hopen ?_
    cases hok : op.succeeds chain w with
    | true => exact reflects_of_ok (step_of_succeeds hok) hkeep.1 hopen' h
    | false =>
      show ((step chain op w).rewards.window fbHash).Reflects (cs ++ [])
      rw [step_of_fails hok, append_nil]
      exact h

/-! ### Settling a block -/

/-- No credit goes to the Rewards precompile. -/
theorem ne_rewards_of_mem_credits : ∀ {ops : List Op} {w : World} {v : Address} {k : Nat},
    (v, k) ∈ credits chain fbHash ops w → v ≠ rewardsAddress := by
  intro ops
  induction ops with
  | nil =>
    intro w v k hmem
    cases hmem
  | cons op ops ih =>
    intro w v k hmem
    rw [credits, collect_cons, mem_append] at hmem
    rcases hmem with hop | hrest
    · split at hop
      · cases op with
        | onFinalizedMetadata h voters | escrowBlockFee n h fee size e v pv set voters =>
          rw [Op.credits] at hop
          split at hop
          · obtain ⟨voter, -, heq⟩ := mem_map.mp hop
            cases heq
            exact voter.ne_rewards
          · cases hop
        | recordLateCredit h voter k' =>
          rw [Op.credits] at hop
          split at hop
          · cases mem_singleton.mp hop
            exact voter.ne_rewards
          · cases hop
        | settleMatured gate current windowK => cases hop
      · cases hop
    · exact ih hrest

/-- Committee sizes are `u32`s. -/
theorem committeeSize_lt_of_run (ops : List Op) (balance : Address → Nat) (total : Nat) : ∀ n,
    ((run (step chain) ops (.fresh balance total)).rewards.binding n).committeeSize < 2 ^ 32 := by
  refine run_inv (P := fun _ _ => True)
    (fun w => ∀ n, (w.rewards.binding n).committeeSize < 2 ^ 32) ?_
    (along_of_forall (fun _ _ => trivial) ops (World.fresh balance total))
    fun n => (by decide : 0 < 2 ^ 32)
  intro op w _ h n
  rcases step_cases chain op w with hok | hsame
  · cases op with
    | onFinalizedMetadata h' voters =>
      rw [eq_of_onFinalizedMetadata hok, finalize_binding]
      split
      · exact h n
      · rw [update_apply]
        split
        · show min _ (2 ^ 32 - 1) < 2 ^ 32
          omega
        · exact h n
    | escrowBlockFee n' h' fee size e v pv set voters =>
      rw [eq_of_escrowBlockFee hok, escrow_eq]
      show ((if _ then _ else _ : Nat → Binding) n).committeeSize < 2 ^ 32
      split
      · exact h n
      · rw [update_apply]
        split
        · exact size.toNat_lt
        · exact h n
    | recordLateCredit h' voter k =>
      rw [(eq_of_recordLateCredit hok).1, (lateCredit_frame ..).2.1]
      exact h n
    | settleMatured gate current windowK =>
      have hclear : ∀ m, (update w.rewards.binding m Binding.empty n).committeeSize < 2 ^ 32 := by
        intro m
        rw [update_apply]
        split
        · show 0 < 2 ^ 32
          decide
        · exact h n
      rcases settle_cases hok with ⟨m, hsame | hclr⟩ | ⟨h', m, paid, residue, -, hset⟩
      · rw [hsame]
        exact h n
      · rw [hclr]
        exact hclear m
      · rw [hset]
        exact hclear m
  · rw [hsame]
    exact h n

/-- The distinct voters credited for a block in a run. -/
def creditedVoters (chain : B256 → FinalizedBlock) (fbHash : B256) (ops : List Op) (w : World) :
    List Address :=
  firstSeen ((credits chain fbHash ops w).map Prod.fst)

/-- A settlement of a block with the given credits, escrow and committee size: every credited voter
gets the share of its smallest distance, no other account but the escrow's moves, the payouts and
the burned residue are the escrow, and nothing is left of the window. -/
structure Settlement (fbHash : B256) (fbNumber committeeSize : Nat) (credits : List (Address × Nat))
    (w w' : World) (distributed residue : Nat) : Prop where
  paid : ∀ v k, IsLeast {k | (v, k) ∈ credits} k → w'.balance v = w.balance v +
    (w.rewards.window fbHash).pendingFees * decayWeight k / (committeeSize * lateFinalizeWMax)
  others : ∀ a, a ≠ rewardsAddress → a ∉ credits.map Prod.fst → w'.balance a = w.balance a
  parity : distributed + residue = (w.rewards.window fbHash).pendingFees
  escrow : w'.balance rewardsAddress + (w.rewards.window fbHash).pendingFees =
    w.balance rewardsAddress
  window : w'.rewards.window fbHash = .empty
  binding : w'.rewards.binding fbNumber = .empty
  settled : (w'.rewards.guard fbHash).feeSettled = true

section Settle

variable {gate : MetadosisGate} {size n distributed residue : Nat} {t : World}

/-- The denominator does not saturate for a committee that fits a `u32`. -/
theorem fixedDenominator_eq (hsize : size < 2 ^ 32) :
    fixedDenominator size = size * lateFinalizeWMax := by
  unfold fixedDenominator lateFinalizeWMax
  omega

/-- The share of a voter is that of its smallest distance. -/
theorem share_of_isLeast {window : Window} {v : Address} {k : Nat} (h : window.Reflects cs)
    (hk : IsLeast {k | (v, k) ∈ cs} k) :
    window.share size v = window.pendingFees * decayWeight k / fixedDenominator size := by
  have hpos : window.lateVoterKPlus1 v ≠ 0 := by
    rw [ne_eq, h.absent, not_not]
    exact mem_map_of_mem hk.1
  obtain ⟨k₀, hk₀⟩ := exists_eq_succ_of_ne_zero hpos
  have heq : k₀ = k := (h.least v k₀ hk₀).unique hk
  rw [Window.share, if_neg hpos, hk₀, Nat.succ_sub_one, heq]

/-- The voters of a record are distinct, and none of them is the escrow account. -/
theorem Window.Reflects.cells {window : Window} (h : window.Reflects cs)
    (hne : ∀ v k, (v, k) ∈ cs → v ≠ rewardsAddress) :
    (List.range window.lateVoterCount).map window.lateVoterAt = firstSeen (cs.map Prod.fst) ∧
      ∀ idx ∈ List.range window.lateVoterCount, rewardsAddress ≠ window.lateVoterAt idx := by
  have hmap := h.listed.map_range
  refine ⟨hmap, fun idx hidx heq => ?_⟩
  have hmem : window.lateVoterAt idx ∈ firstSeen (cs.map Prod.fst) :=
    hmap ▸ mem_map_of_mem hidx
  obtain ⟨⟨v, k⟩, hcredit, hv⟩ := mem_map.mp (mem_firstSeen.mp hmem)
  exact hne v k hcredit (hv.trans heq.symm)

/-- Paying out a window that is the record of its credits settles the block. -/
theorem settlement_of_reflects (h : (w.rewards.window fbHash).Reflects cs)
    (hne : ∀ v k, (v, k) ∈ cs → v ≠ rewardsAddress) (hsize : size < 2 ^ 32)
    (hok : Ok (payWindow gate fbHash size) w (distributed, residue) t) :
    Settlement fbHash n size cs w (t.setBinding n .empty) distributed residue := by
  obtain ⟨-, hsum, -, -, paid, hloop, hburn, rfl⟩ := (ok_payWindow rfl).mp hok
  obtain ⟨hcells, hself⟩ := h.cells hne
  obtain ⟨hescrow, hother⟩ :=
    payVoters_balance rfl (by rw [hcells]; exact nodup_firstSeen _) hself hloop
  rw [hcells] at hother
  have hbal : ∀ a, a ≠ rewardsAddress →
      ((w.settled fbHash paid residue).setBinding n .empty).balance a = paid a :=
    fun a ha => update_of_ne ha ..
  refine ⟨fun v k hk => ?_, fun a ha hnot => ?_, hsum, ?_, ?_, ?_, ?_⟩
  · have hv := hne v k hk.1
    rw [hbal v hv, ← fixedDenominator_eq hsize, ← share_of_isLeast h hk]
    refine (hother v hv).trans ?_
    rw [if_pos (mem_firstSeen.mpr (mem_map_of_mem hk.1))]
  · rw [hbal a ha]
    refine (hother a ha).trans ?_
    rw [if_neg (mt mem_firstSeen.mp hnot), add_zero]
  · -- The loop took `distributed` from the escrow account and the burn took `residue`.
    show update paid rewardsAddress (paid rewardsAddress - residue) rewardsAddress + _ = _
    rw [update_self]
    have hescrow' : paid rewardsAddress + distributed = w.balance rewardsAddress := hescrow
    omega
  · show update w.rewards.window fbHash (w.rewards.window fbHash).free fbHash = _
    rw [update_self, h.free_eq_empty]
  · show update w.rewards.binding n Binding.empty n = _
    rw [update_self]
  · show (update w.rewards.guard fbHash _ fbHash).feeSettled = true
    rw [update_self]

/-- No share exceeds an equal part of the escrow. -/
theorem share_le (window : Window) (v : Address) (hsize : size < 2 ^ 32) :
    window.share size v ≤ window.pendingFees / size := by
  unfold Window.share
  split
  · exact Nat.zero_le _
  · rw [fixedDenominator_eq hsize]
    calc window.pendingFees * decayWeight (window.lateVoterKPlus1 v - 1) / (size * lateFinalizeWMax)
        ≤ window.pendingFees * lateFinalizeWMax / (size * lateFinalizeWMax) :=
          Nat.div_le_div_right (Nat.mul_le_mul_left _ (decayWeight_le _))
      _ = window.pendingFees / size := Nat.mul_div_mul_right _ _ (by decide)

/-- A committee cannot be paid more than the escrow. -/
theorem sum_share_le (window : Window) (hsize : size < 2 ^ 32) (voters : List Address)
    (hlen : voters.length ≤ size) : (voters.map (window.share size)).sum ≤ window.pendingFees := by
  have hbound : (voters.map (window.share size)).sum ≤
      (voters.map (window.share size)).length • (window.pendingFees / size) := by
    refine sum_le_card_nsmul _ _ fun x hx => ?_
    obtain ⟨v, -, rfl⟩ := mem_map.mp hx
    exact share_le window v hsize
  rw [length_map, Nat.nsmul_eq_mul] at hbound
  calc (voters.map (window.share size)).sum
      ≤ voters.length * (window.pendingFees / size) := hbound
    _ ≤ size * (window.pendingFees / size) := Nat.mul_le_mul_right _ hlen
    _ ≤ window.pendingFees := Nat.mul_div_le ..

/-- A window that is the record of at most a committee of voters can be paid out of an escrow that
is there. -/
theorem payWindow_succeeds (h : (w.rewards.window fbHash).Reflects cs)
    (hne : ∀ v k, (v, k) ∈ cs → v ≠ rewardsAddress) (hsize : size < 2 ^ 32) (hpos : size ≠ 0)
    (hlen : (firstSeen (cs.map Prod.fst)).length ≤ size)
    (hmul : (w.rewards.window fbHash).pendingFees * lateFinalizeWMax < 2 ^ 256)
    (hcover : (w.rewards.window fbHash).pendingFees ≤ w.balance rewardsAddress)
    (hroom : ∀ v k, (v, k) ∈ cs → w.balance v + (w.rewards.window fbHash).pendingFees < 2 ^ 256)
    (htotal : w.totalUnallocated + (w.rewards.window fbHash).pendingFees < 2 ^ 256) :
    ∃ d r t, Ok (payWindow (.ok ()) fbHash size) w (d, r) t := by
  generalize hwindow : w.rewards.window fbHash = window at *
  obtain ⟨hcells, hself⟩ := h.cells hne
  have hmap : (List.range window.lateVoterCount).map (fun idx =>
      window.share size (window.lateVoterAt idx)) =
        (firstSeen (cs.map Prod.fst)).map (window.share size) := by
    rw [← hcells, map_map]
    rfl
  have hsum := sum_share_le window hsize _ hlen
  rw [← hmap] at hsum
  have hrange : 0 + ((List.range window.lateVoterCount).map fun idx =>
      window.share size (window.lateVoterAt idx)).sum < 2 ^ 256 := by omega
  have hfits : ∀ idx ∈ List.range window.lateVoterCount, w.balance (window.lateVoterAt idx) +
      window.share size (window.lateVoterAt idx) < 2 ^ 256 := by
    intro idx hidx
    have hmem : window.lateVoterAt idx ∈ firstSeen (cs.map Prod.fst) :=
      hcells ▸ mem_map_of_mem hidx
    obtain ⟨⟨v, k⟩, hcredit, hv⟩ := mem_map.mp (mem_firstSeen.mp hmem)
    have hshare := share_le window (window.lateVoterAt idx) hsize
    have hpart := Nat.div_le_self window.pendingFees size
    have hv' : w.balance (window.lateVoterAt idx) = w.balance v := by rw [← hv]
    have := hroom v k hcredit
    omega
  obtain ⟨d, t, hloop⟩ := payVoters_succeeds hmul hwindow
    (by rw [hcells]; exact nodup_firstSeen _) hself (hsum.trans hcover) hfits hrange
  obtain ⟨hd, paid, rfl⟩ := payVoters_frame hwindow hloop
  obtain ⟨hescrow, -⟩ :=
    payVoters_balance hwindow (by rw [hcells]; exact nodup_firstSeen _) hself hloop
  have hescrow' : paid rewardsAddress + d = w.balance rewardsAddress := hescrow
  refine ⟨d, window.pendingFees - d, _, (ok_payWindow hwindow).mpr
    ⟨?_, by omega, by omega, fun _ => ⟨rfl, by omega⟩, paid, hloop, by omega, rfl⟩⟩
  rw [fixedDenominator_eq hsize]
  exact Nat.mul_ne_zero hpos (by decide)

end Settle

/-- At the close of its window an unsettled bound block is paid out and its binding is cleared. -/
theorem ok_settleMatured {n : Nat} (windowK : Nat) (hn : n ≠ 0) (hne : fbHash ≠ 0)
    (hbound : (w.rewards.binding n).fbHash = fbHash)
    (hopen : (w.rewards.guard fbHash).feeSettled = false) (gate : MetadosisGate)
    (result : Nat × Nat) (w' : World) :
    Ok (settleMatured gate (n + windowK) windowK) w result w' ↔
      ∃ t, Ok (payWindow gate fbHash (w.rewards.binding n).committeeSize) w result t ∧
        w' = t.setBinding n .empty := by
  subst hbound
  have hmature : ¬ (n + windowK < windowK ∨ n = 0) := by omega
  simp only [settleMatured, writeBinding, Nat.add_sub_cancel, ok_ite, rules, ↓existsAndEq,
    hmature, hne, false_and, not_false_eq_true, false_or]
  constructor
  · rintro ⟨t, hok, rfl⟩
    exact ⟨t, (settleWindow_of_unsettled hopen).symm.trans hok, rfl⟩
  · rintro ⟨t, hok, rfl⟩
    exact ⟨t, (settleWindow_of_unsettled hopen).trans hok, rfl⟩

/-- Settling a block of any run, with the guard ring keeping the block. Every settlement that goes
through is a `Settlement` by the credits of the run, and no later settlement pays the block again.
With at most a committee of voters credited, an escrow that is there and no overflow, it does go
through. -/
theorem settlement_of_run {before : List Op} {balance : Address → Nat} {total n : Nat}
    (hkeep : Along (step chain) (fun op w => op.evicts fbHash w = false) before
      (.fresh balance total))
    (hw : w = run (step chain) before (.fresh balance total)) (hn : n ≠ 0) (hne : fbHash ≠ 0)
    (hbound : (w.rewards.binding n).fbHash = fbHash)
    (hopen : (w.rewards.guard fbHash).feeSettled = false) (windowK : Nat) :
    (∀ gate distributed residue w',
      Ok (settleMatured gate (n + windowK) windowK) w (distributed, residue) w' →
        Settlement fbHash n (w.rewards.binding n).committeeSize
          (credits chain fbHash before (.fresh balance total)) w w' distributed residue ∧
        ∀ after, Along (step chain) (fun op w => op.evicts fbHash w = false) after w' →
          ∀ gate' size', (settleWindow gate' fbHash size').run (run (step chain) after w') =
            (.ok (0, 0), run (step chain) after w')) ∧
    ((creditedVoters chain fbHash before (.fresh balance total)).length ≤
        (w.rewards.binding n).committeeSize → (w.rewards.binding n).committeeSize ≠ 0 →
      (w.rewards.window fbHash).pendingFees * lateFinalizeWMax < 2 ^ 256 →
      (w.rewards.window fbHash).pendingFees ≤ w.balance rewardsAddress →
      (∀ v ∈ creditedVoters chain fbHash before (.fresh balance total),
        w.balance v + (w.rewards.window fbHash).pendingFees < 2 ^ 256) →
      w.totalUnallocated + (w.rewards.window fbHash).pendingFees < 2 ^ 256 →
      ∃ distributed residue w',
        Ok (settleMatured (.ok ()) (n + windowK) windowK) w (distributed, residue) w') := by
  have hrecord : (w.rewards.window fbHash).Reflects
      (credits chain fbHash before (.fresh balance total)) := by
    subst hw
    exact reflects_of_run hkeep hopen Window.Reflects.empty
  have hsize : (w.rewards.binding n).committeeSize < 2 ^ 32 :=
    hw ▸ committeeSize_lt_of_run before balance total n
  have hvoters : ∀ v k, (v, k) ∈ credits chain fbHash before (.fresh balance total) →
      v ≠ rewardsAddress := fun v k hmem => ne_rewards_of_mem_credits hmem
  have hsettle := ok_settleMatured (w := w) windowK hn hne hbound hopen
  refine ⟨fun gate distributed residue w' hok => ?_, fun hlen hpos hmul hcover hroom htotal => ?_⟩
  · obtain ⟨t, hpay, rfl⟩ := (hsettle gate _ w').mp hok
    have hdone := settlement_of_reflects (n := n) hrecord hvoters hsize hpay
    exact ⟨hdone, fun after hkeep' gate' size' =>
      settleWindow_of_settled (settled_of_run hkeep' hdone.settled)⟩
  · obtain ⟨d, r, t, hpay⟩ := payWindow_succeeds hrecord hvoters hsize hpos hlen hmul hcover
      (fun v k hmem => hroom v (mem_firstSeen.mpr (mem_map_of_mem hmem))) htotal
    exact ⟨d, r, _, (hsettle _ _ _).mpr ⟨t, hpay, rfl⟩⟩

/-- The sample block with one voter in its certificate and one late voter. -/
def sampleWindow : List Op := [sampleDelivery [firstVoter], .recordLateCredit 7 secondVoter 1]

/-- Both calls go through: two voters are credited, at distances zero and one. -/
theorem credits_sampleWindow :
    credits sampleChain 7 sampleWindow sampleGenesis = [(1, 0), (2, 1)] := by
  have hdelivery : (sampleDelivery [firstVoter]).succeeds sampleChain sampleGenesis = true := by
    decide +kernel
  have hcredit : (Op.recordLateCredit 7 secondVoter 1).succeeds sampleChain
      (step sampleChain (sampleDelivery [firstVoter]) sampleGenesis) = true := by decide +kernel
  rw [sampleWindow, credits, collect_cons, collect_cons, collect_nil, hdelivery, hcredit]
  rfl

theorem settlement_of_sampleWindow :
    ∃ distributed residue w',
      Ok (settleMatured (.ok ()) 4 3) (run (step sampleChain) sampleWindow sampleGenesis)
        (distributed, residue) w' ∧
      Settlement 7 1 2 [(1, 0), (2, 1)]
        (run (step sampleChain) sampleWindow sampleGenesis) w' distributed residue := by
  have hkeep : Along (step sampleChain) (fun op w => op.evicts 7 w = false) sampleWindow
      sampleGenesis := ⟨by decide +kernel, by decide +kernel, trivial⟩
  obtain ⟨w, hw⟩ : ∃ w, w = run (step sampleChain) sampleWindow sampleGenesis := ⟨_, rfl⟩
  obtain ⟨hsize, hbound, hopen, hfees, hcover, hfirst, hsecond, htotal⟩ :
      (w.rewards.binding 1).committeeSize = 2 ∧ (w.rewards.binding 1).fbHash = 7 ∧
      (w.rewards.guard 7).feeSettled = false ∧
      (w.rewards.window 7).pendingFees = 2 * nativeUnitsPerProtocolUnit ∧
      w.balance rewardsAddress = 2 * nativeUnitsPerProtocolUnit ∧ w.balance 1 = 0 ∧
      w.balance 2 = 0 ∧ w.totalUnallocated = 0 := by
    rw [hw]
    decide +kernel
  have hvoters : creditedVoters sampleChain 7 sampleWindow sampleGenesis = [1, 2] := by
    rw [creditedVoters, credits_sampleWindow]
    decide
  have hroom : ∀ v ∈ creditedVoters sampleChain 7 sampleWindow sampleGenesis,
      w.balance v + (w.rewards.window 7).pendingFees < 2 ^ 256 := by
    rw [hvoters, hfees, forall_mem_cons, forall_mem_singleton, hfirst, hsecond]
    decide
  obtain ⟨hpaid, hgo⟩ :=
    settlement_of_run hkeep hw Nat.one_ne_zero (by decide) hbound hopen 3
  obtain ⟨d, r, w', hok⟩ := hgo (le_of_eq ((congrArg List.length hvoters).trans hsize.symm))
    (by rw [hsize]; decide) (by rw [hfees]; decide) (by rw [hfees, hcover]) hroom
    (by rw [hfees, htotal]; decide)
  have hdone := (hpaid _ d r w' hok).1
  rw [hsize] at hdone
  rw [← hw, ← credits_sampleWindow]
  exact ⟨d, r, w', hok, hdone⟩

end Rudis.Rewards

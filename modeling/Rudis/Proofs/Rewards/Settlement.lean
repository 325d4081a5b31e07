import Rudis.Spec.Rewards

/-!
# `Rudis.Proofs.Rewards.Settlement`: what one settlement pays, burns and recycles

`payVoters_frame` follows the payout loop: it only moves native value, and the sum it returns is the
sum of the shares of the listed voters. `ok_payWindow` says what a settlement does to every part of
the world, and `payVoters_succeeds` when its payouts go through.

`headroom_iff` is about units. The residue is burned in native units and credited to PromisLimit as
it stands, in a field of six-decimal protocol units, so the headroom a settlement creates is what
the burned value is worth only when nothing is burned. Only the full weight pays, so that is a
question of how many voters are credited and whether they can share the fees evenly.
-/

namespace Rudis.Rewards

open List
open Tx

/-! ### Native value -/

variable {balance balance' : Address → Nat} {src dst : Address} {amount : Nat} {u : Unit}

/-- A transfer moves the amount and touches no third account. -/
theorem transferBalance_balance (hne : src ≠ dst)
    (h : Ok (transferBalance src dst amount) balance u balance') :
    balance' src + amount = balance src ∧ balance' dst = balance dst + amount ∧
      ∀ a, a ≠ src → a ≠ dst → balance' a = balance a := by
  obtain ⟨hle, -, rfl⟩ := ok_transferBalance.mp h
  unfold moveBalance
  refine ⟨?_, ?_, fun a hsrc hdst => ?_⟩
  · rw [update_of_ne hne, update_self]
    omega
  · rw [update_self, update_of_ne hne.symm]
  · rw [update_of_ne hdst, update_of_ne hsrc]

/-! ### The shares of a window -/

def Window.share (window : Window) (committeeSize : Nat) (voter : Address) : Nat :=
  if window.lateVoterKPlus1 voter = 0 then 0
  else window.pendingFees * decayWeight (window.lateVoterKPlus1 voter - 1) /
    fixedDenominator committeeSize

/-- A voter credited at an inclusion distance of full weight, which the first three are. -/
def Window.credited (window : Window) (voter : Address) : Bool :=
  0 < window.lateVoterKPlus1 voter ∧ window.lateVoterKPlus1 voter ≤ 3

/-- How many voters of the window are credited at full weight. -/
def Window.creditedCount (window : Window) : Nat :=
  (List.range window.lateVoterCount).countP fun idx => window.credited (window.lateVoterAt idx)

/-- A credited voter gets one part of the fees, the others get nothing. -/
theorem Window.share_eq (window : Window) {size : Nat} (hsize : size < 2 ^ 64) (voter : Address) :
    window.share size voter = if window.credited voter then window.pendingFees / size else 0 := by
  have hden : fixedDenominator size = size * 100 := by
    rw [fixedDenominator, lateFinalizeWMax]
    omega
  have hpart := Nat.mul_div_mul_right window.pendingFees size (show 0 < 100 by decide)
  rw [share, hden]
  unfold credited decayWeight lateFinalizeDecay
  rcases window.lateVoterKPlus1 voter with _ | _ | _ | _ | _ | k <;> simp [hpart]

/-- The payouts are one part of the fees for each credited voter. -/
theorem Window.sum_share (window : Window) {size : Nat} (hsize : size < 2 ^ 64) :
    ((List.range window.lateVoterCount).map
      fun idx => window.share size (window.lateVoterAt idx)).sum =
        window.creditedCount * (window.pendingFees / size) := by
  rw [creditedCount]
  induction List.range window.lateVoterCount with
  | nil => simp
  | cons idx l ih =>
    rw [map_cons, sum_cons, ih, window.share_eq hsize, countP_cons, add_mul]
    split <;> simp_all
    omega

theorem decayWeight_le (k : Nat) : decayWeight k ≤ lateFinalizeWMax := by
  unfold decayWeight lateFinalizeDecay lateFinalizeWMax
  rcases k with _ | _ | _ | _ | k <;> simp

variable {gate : MetadosisGate} {fbHash : B256} {size distributed distributed' residue idx : Nat}
  {w w' : World}

/-- One payout adds the voter's share to the distributed sum. A share of zero moves nothing, any
other is one transfer. -/
theorem payVoter_cases {window : Window} (hw : w.rewards.window fbHash = window)
    (h : Ok (payVoter fbHash window.pendingFees (fixedDenominator size) distributed idx) w
      distributed' w') :
    distributed' = distributed + window.share size (window.lateVoterAt idx) ∧
      ((window.share size (window.lateVoterAt idx) = 0 ∧ w' = w) ∨
        ∃ balance, Ok (transferBalance rewardsAddress (window.lateVoterAt idx)
          (window.share size (window.lateVoterAt idx))) w.balance () balance ∧
          w' = { w with balance }) := by
  simp only [payVoter, readWindow, rules, ok_ite, okOr_eq_ok, onBalances, ok_zoom,
    ↓existsAndEq, hw] at h
  unfold Window.share
  rcases h with ⟨hzero, rfl, rfl⟩ | ⟨hpos, product, hmul, h⟩
  · have hshare : (if window.lateVoterKPlus1 (window.lateVoterAt idx) = 0 then 0
        else window.pendingFees * decayWeight (window.lateVoterKPlus1 (window.lateVoterAt idx) - 1) /
          fixedDenominator size) = 0 := by
      rcases hzero with hk | hweight
      · rw [if_pos hk]
      · rw [hweight, mul_zero, Nat.zero_div, ite_self]
    rw [hshare]
    exact ⟨rfl, .inl ⟨rfl, rfl⟩⟩
  · rw [not_or] at hpos
    rw [if_neg hpos.1]
    obtain ⟨-, rfl⟩ := checkedMul_eq_some.mp hmul
    rcases h with ⟨hzero, rfl, rfl⟩ | ⟨-, balance, ht, hadd⟩
    · rw [hzero]
      exact ⟨rfl, .inl ⟨rfl, rfl⟩⟩
    · obtain ⟨-, rfl⟩ := checkedAdd_eq_some.mp hadd.1
      exact ⟨rfl, .inr ⟨balance, ht, hadd.2⟩⟩

/-- A payout goes through when the escrow account covers it and no balance overflows. -/
theorem payVoter_succeeds {window : Window} (distributed : Nat) (hw : w.rewards.window fbHash = window)
    (hne : rewardsAddress ≠ window.lateVoterAt idx)
    (hmul : window.pendingFees * lateFinalizeWMax < 2 ^ 256)
    (hcover : window.share size (window.lateVoterAt idx) ≤ w.balance rewardsAddress)
    (hroom : w.balance (window.lateVoterAt idx) + window.share size (window.lateVoterAt idx) < 2 ^ 256)
    (hsum : distributed + window.share size (window.lateVoterAt idx) < 2 ^ 256) :
    ∃ d t, Ok (payVoter fbHash window.pendingFees (fixedDenominator size) distributed idx) w d t := by
  simp only [payVoter, readWindow, rules, ok_ite, okOr_eq_ok, onBalances, ok_zoom,
    ↓existsAndEq, hw, checkedMul_eq_some, checkedAdd_eq_some]
  unfold Window.share at hcover hroom hsum
  by_cases hzero : window.lateVoterKPlus1 (window.lateVoterAt idx) = 0 ∨
      decayWeight (window.lateVoterKPlus1 (window.lateVoterAt idx) - 1) = 0
  · exact ⟨distributed, w, .inl ⟨hzero, rfl, rfl⟩⟩
  · have hprod : window.pendingFees *
        decayWeight (window.lateVoterKPlus1 (window.lateVoterAt idx) - 1) < 2 ^ 256 :=
      lt_of_le_of_lt (Nat.mul_le_mul_left _ (decayWeight_le _)) hmul
    rw [if_neg (not_or.mp hzero).1] at hcover hroom hsum
    by_cases hshare : window.pendingFees *
        decayWeight (window.lateVoterKPlus1 (window.lateVoterAt idx) - 1) / fixedDenominator size = 0
    · exact ⟨distributed, w, .inr ⟨hzero, hprod, .inl ⟨hshare, rfl, rfl⟩⟩⟩
    · exact ⟨_, _, .inr ⟨hzero, hprod, .inr ⟨hshare, _,
        ok_transferBalance.mpr ⟨hcover, by rwa [update_of_ne hne.symm], rfl⟩, hsum, rfl, rfl⟩⟩⟩

/-! ### The payout loop -/

section Loop

variable {window : Window} {l : List Nat}

/-- The payout loop only moves native value, and returns the sum of the shares. -/
theorem payVoters_frame (hw : w.rewards.window fbHash = window)
    (h : Ok (l.foldlM (payVoter fbHash window.pendingFees (fixedDenominator size)) 0) w
      distributed w') :
    distributed = (l.map fun idx => window.share size (window.lateVoterAt idx)).sum ∧
      ∃ balance, w' = { w with balance } := by
  refine Ok.foldlM_visited (fun seen d s =>
    d = (seen.map fun idx => window.share size (window.lateVoterAt idx)).sum ∧
      ∃ balance, s = { w with balance }) ?_ h ⟨rfl, w.balance, rfl⟩
  rintro seen idx rest - d d' s s' ⟨rfl, balance, rfl⟩ hpay
  obtain ⟨rfl, ⟨-, rfl⟩ | ⟨balance', -, rfl⟩⟩ := payVoter_cases (by exact hw) hpay
  · exact ⟨by simp, balance, rfl⟩
  · exact ⟨by simp, balance', rfl⟩

/-- The payout loop takes the distributed sum from the escrow account and gives every listed voter
its share. -/
theorem payVoters_balance (hw : w.rewards.window fbHash = window)
    (hnd : (l.map window.lateVoterAt).Nodup)
    (hne : ∀ idx ∈ l, rewardsAddress ≠ window.lateVoterAt idx)
    (h : Ok (l.foldlM (payVoter fbHash window.pendingFees (fixedDenominator size)) 0) w
      distributed w') :
    w'.balance rewardsAddress + distributed = w.balance rewardsAddress ∧
      ∀ a, a ≠ rewardsAddress → w'.balance a =
        w.balance a + if a ∈ l.map window.lateVoterAt then window.share size a else 0 := by
  have hframe := Ok.foldlM_visited (fun seen d s => s.rewards = w.rewards ∧
    s.balance rewardsAddress + d = w.balance rewardsAddress ∧
      ∀ a, a ≠ rewardsAddress → s.balance a =
        w.balance a + if a ∈ seen.map window.lateVoterAt then window.share size a else 0) ?_ h
    ⟨rfl, rfl, fun a _ => by simp⟩
  · exact hframe.2
  rintro seen idx rest rfl d d' s s' ⟨hsame, hescrow, hother⟩ hpay
  have hself : rewardsAddress ≠ window.lateVoterAt idx := hne idx (by simp)
  -- The voter of this round was not paid before: the list has no repetition.
  have hfresh : window.lateVoterAt idx ∉ seen.map window.lateVoterAt := by
    rw [map_append, map_cons, nodup_append] at hnd
    intro hmem
    exact hnd.2.2 _ hmem _ mem_cons_self rfl
  obtain ⟨rfl, ⟨hzero, rfl⟩ | ⟨balance, ht, rfl⟩⟩ := payVoter_cases (by rw [hsame, hw]) hpay
  · refine ⟨hsame, by rw [hzero, add_zero]; exact hescrow, fun a ha => ?_⟩
    rw [hother a ha]
    by_cases hidx : a = window.lateVoterAt idx
    · subst hidx
      simp [hfresh, hzero]
    · simp [hidx]
  · obtain ⟨hpaid, hgot, hrest⟩ := transferBalance_balance hself ht
    refine ⟨hsame, ?_, fun a ha => ?_⟩
    · show balance rewardsAddress + _ = _
      omega
    · show balance a = _
      by_cases hidx : a = window.lateVoterAt idx
      · subst hidx
        rw [hgot, hother _ ha]
        simp [hfresh]
      · rw [hrest a ha hidx, hother a ha]
        simp [hidx]

/-- The payout loop goes through when the escrow account covers all shares and no balance
overflows. -/
theorem payVoters_succeeds (hmul : window.pendingFees * lateFinalizeWMax < 2 ^ 256) :
    ∀ {l : List Nat} {w : World} {distributed : Nat}, w.rewards.window fbHash = window →
      (l.map window.lateVoterAt).Nodup → (∀ idx ∈ l, rewardsAddress ≠ window.lateVoterAt idx) →
      (l.map fun idx => window.share size (window.lateVoterAt idx)).sum ≤ w.balance rewardsAddress →
      (∀ idx ∈ l, w.balance (window.lateVoterAt idx) +
        window.share size (window.lateVoterAt idx) < 2 ^ 256) →
      distributed + (l.map fun idx => window.share size (window.lateVoterAt idx)).sum < 2 ^ 256 →
      ∃ d t, Ok (l.foldlM (payVoter fbHash window.pendingFees (fixedDenominator size)) distributed)
        w d t := by
  intro l
  induction l with
  | nil =>
    intro w distributed _ _ _ _ _ _
    exact ⟨distributed, w, by simp⟩
  | cons idx l ih =>
    intro w distributed hw hnd hne hcover hroom hsum
    rw [map_cons, nodup_cons] at hnd
    rw [map_cons, sum_cons] at hcover hsum
    have hself := hne idx mem_cons_self
    obtain ⟨d, t, hpay⟩ := payVoter_succeeds distributed hw hself hmul
      (by omega) (hroom idx mem_cons_self) (by omega)
    obtain ⟨hd, ht⟩ := payVoter_cases hw hpay
    have hne' : ∀ i ∈ l, window.lateVoterAt i ≠ window.lateVoterAt idx :=
      fun i hi heq => hnd.1 (heq ▸ mem_map_of_mem hi)
    -- What the first payout leaves: the same window, the escrow less one share, the others' balances.
    have hleft : t.rewards = w.rewards ∧
        t.balance rewardsAddress = w.balance rewardsAddress -
          window.share size (window.lateVoterAt idx) ∧
        ∀ i ∈ l, t.balance (window.lateVoterAt i) = w.balance (window.lateVoterAt i) := by
      rcases ht with ⟨hzero, rfl⟩ | ⟨balance, htr, rfl⟩
      · exact ⟨rfl, by omega, fun _ _ => rfl⟩
      · obtain ⟨hpaid, -, hrest⟩ := transferBalance_balance hself htr
        refine ⟨rfl, ?_, fun i hi => ?_⟩
        · show balance rewardsAddress = _
          omega
        · exact hrest _ (hne i (mem_cons_of_mem idx hi)).symm (hne' i hi)
    obtain ⟨hsame, hescrow, hother⟩ := hleft
    have hsum' : d + (l.map fun i => window.share size (window.lateVoterAt i)).sum < 2 ^ 256 := by
      omega
    obtain ⟨d', t', hrest⟩ := ih (w := t) (by rw [hsame, hw]) hnd.2
      (fun i hi => hne i (mem_cons_of_mem idx hi)) (by omega)
      (fun i hi => by rw [hother i hi]; exact hroom i (mem_cons_of_mem idx hi)) hsum'
    exact ⟨d', t', by
      rw [foldlM_cons, ok_bind]
      exact ⟨d, t, hpay, hrest⟩⟩

end Loop

/-! ### Residue and settlement -/

/-- The residue leaves the escrow account and enters PromisLimit, number for number. -/
theorem ok_burnResidue :
    Ok (burnResidue gate residue) w u w' ↔
      (residue ≠ 0 → gate = .ok () ∧ w.totalUnallocated + residue < 2 ^ 256) ∧
        residue ≤ w.balance rewardsAddress ∧
        w' = ⟨w.rewards, update w.balance rewardsAddress
          (w.balance rewardsAddress - residue), w.totalUnallocated + residue⟩ := by
  simp only [burnResidue, dispatchLateSettlementResidueAt, applyLateSettlementHeadroom, ok_when,
    onBalances, onPromisLimit, rules, ok_zoom, PromisLimit.ok_checkedAddCarryOver, decreaseBalance,
    not_lt]
  by_cases hzero : residue = 0
  · subst hzero
    simp [update_eq_self]
  · simp only [hzero, ne_eq, not_false_eq_true, true_and, false_and, or_false,
      true_imp_iff]
    constructor
    · rintro ⟨hle, hgate, hroom, rfl⟩
      exact ⟨⟨hgate, hroom⟩, hle, rfl⟩
    · rintro ⟨⟨hgate, hroom⟩, hle, rfl⟩
      exact ⟨hle, hgate, hroom, rfl⟩

/-- The world after a settlement: the payouts and the burn are made, the block is marked settled and
its window is freed. -/
def World.settled (w : World) (fbHash : B256) (paid : Address → Nat) (residue : Nat) : World :=
  ((⟨w.rewards, update paid rewardsAddress (paid rewardsAddress - residue),
    w.totalUnallocated + residue⟩ : World).mapGuard fbHash ({ · with feeSettled := true })).mapWindow
      fbHash (·.free)

/-- A settlement pays the shares and burns what is left of the escrow. -/
theorem ok_payWindow {window : Window} (hw : w.rewards.window fbHash = window) :
    Ok (payWindow gate fbHash size) w (distributed, residue) w' ↔
      fixedDenominator size ≠ 0 ∧ distributed + residue = window.pendingFees ∧
      window.pendingFees < 2 ^ 256 ∧
      (residue ≠ 0 → gate = .ok () ∧ w.totalUnallocated + residue < 2 ^ 256) ∧
      ∃ paid, Ok ((List.range window.lateVoterCount).foldlM
          (payVoter fbHash window.pendingFees (fixedDenominator size)) 0) w distributed
            { w with balance := paid } ∧
        residue ≤ paid rewardsAddress ∧ w' = w.settled fbHash paid residue := by
  simp only [payWindow, readWindow, writeGuard, writeWindow, rules, okOr_eq_ok,
    checkedSub_eq_some, ok_burnResidue, checkedAdd_eq_some, ↓existsAndEq, hw, Prod.mk.injEq]
  constructor
  · rintro ⟨hsize, t, hloop, hle, hgate, hburn, hmax, hsum, rfl, rfl⟩
    obtain ⟨-, paid, rfl⟩ := payVoters_frame hw hloop
    exact ⟨hsize, hsum, hsum ▸ hmax, hgate, paid, hloop, hburn, rfl⟩
  · rintro ⟨hsize, hsum, hmax, hgate, paid, hloop, hburn, rfl⟩
    obtain rfl : residue = window.pendingFees - distributed := by omega
    exact ⟨hsize, { w with balance := paid }, hloop, by omega, hgate, hburn, by omega, hsum, rfl, rfl⟩

/-- A settled block is not paid again. -/
theorem settleWindow_of_settled (h : (w.rewards.guard fbHash).feeSettled = true) :
    (settleWindow gate fbHash size).run w = (.ok (0, 0), w) := by
  rw [settleWindow, Tx.run_reads_bind, if_pos h, Tx.run_pure]

/-- An unsettled block is paid out. -/
theorem settleWindow_of_unsettled (h : (w.rewards.guard fbHash).feeSettled = false) :
    (settleWindow gate fbHash size).run w = (payWindow gate fbHash size).run w := by
  rw [settleWindow, Tx.run_reads_bind, h]
  rfl

/-- A settlement meets a settled block, or pays the window out. -/
theorem settleWindow_cases {result : Nat × Nat}
    (h : Ok (settleWindow gate fbHash size) w result w') :
    ((w.rewards.guard fbHash).feeSettled = true ∧ result = (0, 0) ∧ w' = w) ∨
      ((w.rewards.guard fbHash).feeSettled = false ∧ result.1 + result.2 =
        (w.rewards.window fbHash).pendingFees ∧ ∃ paid, w' = w.settled fbHash paid result.2) := by
  cases hs : (w.rewards.guard fbHash).feeSettled with
  | true =>
    have hsame := (settleWindow_of_settled hs).symm.trans h
    simp only [Prod.mk.injEq, Except.ok.injEq] at hsame
    exact .inl ⟨rfl, hsame.1.symm, hsame.2.symm⟩
  | false =>
    have hpay : Ok (payWindow gate fbHash size) w result w' :=
      (settleWindow_of_unsettled hs).symm.trans h
    obtain ⟨-, hsum, -, -, paid, -, -, hw'⟩ := (ok_payWindow rfl).mp hpay
    exact .inr ⟨rfl, hsum, paid, hw'⟩

/-! ### Units -/

/-- The headroom credited for a burned residue is what the residue is worth: its value in protocol
units, rounded down, so that it converts back to at most the residue. -/
def HeadroomBacked (credited residue : Nat) : Prop :=
  credited = nativeToProtocolFloor residue ∧
    ∃ native, checkedProtocolToNative credited = some native ∧ native ≤ residue

theorem headroomBacked_self_iff : HeadroomBacked residue residue ↔ residue = 0 := by
  constructor
  · rintro ⟨hfloor, -⟩
    by_contra hpos
    -- A positive amount of native units is worth fewer protocol units.
    have hlt : residue / nativeUnitsPerProtocolUnit < residue :=
      Nat.div_lt_self (Nat.pos_of_ne_zero hpos) (by decide)
    exact absurd hfloor hlt.ne'
  · rintro rfl
    exact ⟨rfl, 0, rfl, le_refl 0⟩

/-- Even parts use up the whole when there is a part for each member. -/
theorem mul_div_eq_self_iff {c n fees : Nat} (hc : c ≤ n) :
    c * (fees / n) = fees ↔ fees = 0 ∨ c = n ∧ n ∣ fees := by
  have hle := Nat.mul_le_mul_right (fees / n) hc
  have hfees := Nat.mul_div_le fees n
  constructor
  · intro heq
    refine or_iff_not_imp_left.mpr fun hne => ?_
    have hn : n * (fees / n) = fees := by omega
    refine ⟨Nat.eq_of_mul_eq_mul_right (Nat.pos_of_ne_zero fun hzero => hne ?_) (heq.trans hn.symm),
      fees / n, hn.symm⟩
    rw [← hn, hzero, mul_zero]
  · rintro (rfl | ⟨rfl, hdvd⟩)
    · rw [Nat.zero_div, mul_zero]
    · exact Nat.mul_div_cancel' hdvd

/-- A settlement credits the residue itself, so its headroom is never backed when it burns
something. Nothing is burned exactly when the block was settled before, has no fees, or has the
whole committee credited and fees it can share evenly. -/
theorem headroom_iff (h : Ok (settleWindow gate fbHash size) w (distributed, residue) w') :
    w.totalUnallocated ≤ w'.totalUnallocated ∧
      (residue ≠ 0 → ¬ HeadroomBacked (w'.totalUnallocated - w.totalUnallocated) residue) ∧
      (size < 2 ^ 64 → (w.rewards.window fbHash).creditedCount ≤ size →
        (HeadroomBacked (w'.totalUnallocated - w.totalUnallocated) residue ↔
          (w.rewards.guard fbHash).feeSettled = true ∨
            (w.rewards.window fbHash).pendingFees = 0 ∨
              (w.rewards.window fbHash).creditedCount = size ∧
                size ∣ (w.rewards.window fbHash).pendingFees)) := by
  cases hsettled : (w.rewards.guard fbHash).feeSettled with
  | true =>
    have hsame := (settleWindow_of_settled hsettled).symm.trans h
    simp only [Prod.mk.injEq, Except.ok.injEq] at hsame
    obtain ⟨⟨rfl, rfl⟩, rfl⟩ := hsame
    simp [headroomBacked_self_iff]
  | false =>
    have hpay : Ok (payWindow gate fbHash size) w (distributed, residue) w' :=
      (settleWindow_of_unsettled hsettled).symm.trans h
    obtain ⟨-, hsum, -, -, paid, hloop, -, rfl⟩ := (ok_payWindow rfl).mp hpay
    have hdist := (payVoters_frame rfl hloop).1
    have hcredit : (w.settled fbHash paid residue).totalUnallocated =
        w.totalUnallocated + residue := rfl
    rw [hcredit, Nat.add_sub_cancel_left, headroomBacked_self_iff]
    refine ⟨Nat.le_add_right .., id, fun hsize hcount => ?_⟩
    rw [Window.sum_share _ hsize] at hdist
    rw [← mul_div_eq_self_iff hcount]
    simp only [Bool.false_eq_true, false_or]
    omega

/-- With the whole committee present nothing is burned. -/
theorem headroom_of_full_attendance :
    HeadroomBacked (((settleWindow (.ok ()) 7 2).run
      (step sampleChain (sampleDelivery [firstVoter, secondVoter]) sampleGenesis)).2.totalUnallocated -
        (step sampleChain (sampleDelivery [firstVoter, secondVoter]) sampleGenesis).totalUnallocated)
      0 := by
  have hrun : ((settleWindow (.ok ()) 7 2).run
      (step sampleChain (sampleDelivery [firstVoter, secondVoter]) sampleGenesis)).1 =
        .ok (2 * nativeUnitsPerProtocolUnit, 0) := by decide +kernel
  exact ((headroom_iff (Prod.ext hrun rfl)).2.2 (by decide) (by decide +kernel)).mpr
    (.inr (.inr (by decide +kernel)))

/-- One of two voters is absent: its protocol unit of fees is burned and counted as `10 ^ 12`
protocol units of headroom. -/
theorem headroom_of_half_attendance :
    ((settleWindow (.ok ()) 7 2).run
      (step sampleChain (sampleDelivery [firstVoter]) sampleGenesis)).1 =
        .ok (nativeUnitsPerProtocolUnit, nativeUnitsPerProtocolUnit) ∧
    ((settleWindow (.ok ()) 7 2).run
      (step sampleChain (sampleDelivery [firstVoter]) sampleGenesis)).2.totalUnallocated =
        (step sampleChain (sampleDelivery [firstVoter]) sampleGenesis).totalUnallocated +
          nativeUnitsPerProtocolUnit ∧ nativeToProtocolFloor nativeUnitsPerProtocolUnit = 1 ∧
    ¬ HeadroomBacked nativeUnitsPerProtocolUnit nativeUnitsPerProtocolUnit :=
  ⟨by decide +kernel, by decide +kernel, by decide, by rw [headroomBacked_self_iff]; decide⟩

end Rudis.Rewards

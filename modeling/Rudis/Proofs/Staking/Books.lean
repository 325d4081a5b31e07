import Rudis.Lib.Sums
import Rudis.Proofs.Staking.Calls
import Rudis.Proofs.Staking.Queue

/-!
# `Rudis.Proofs.Staking.Books`: the books of the Staking contract

`Books s lists held` says that the contract's own records balance against the native value `held`
it owns: the total is the sum of the stakes, and what is held is the total plus what waits in the
queue. Each ledger effect of a call has one lemma that says how `held` has to move with it.
-/

namespace Rudis.Staking

open List Finset

def bonded (s : Store) : Nat := ∑ a, s.stakeAmount a

def queued (s : Store) : Nat := ∑ i ∈ range s.unbondingCount, (s.entries i).amount

/-- The records of the contract balance against what it holds. -/
structure Books (s : Store) (lists : Address → List Nat) (held : Nat) : Prop where
  queue : Queue s lists
  /-- A claimed entry is worth nothing. -/
  cleared : ∀ i < s.unbondingCount, (s.entries i).validator = 0 → (s.entries i).amount = 0
  total : s.totalStaked = bonded s
  held_eq : held = s.totalStaked + queued s

/-- Stakes and total are not part of the queue. -/
theorem Queue.setBonded {s : Store} {lists : Address → List Nat} (h : Queue s lists)
    (v : Address) (stake total : Nat) : Queue (s.setBonded v stake total) lists :=
  ⟨h.count_lt, h.seg, h.decreasing, h.below, h.owner, h.listed, h.zero⟩

namespace Books

variable {s : Store} {lists : Address → List Nat} {held : Nat}

variable (h : Books s lists held)

include h

variable (v : Address)

theorem stake_le : s.stakeAmount v ≤ s.totalStaked :=
  h.total ▸ Sums.le_sum s.stakeAmount v

omit h in
/-- Writing one stake moves the sum by the difference. -/
theorem bonded_setBonded (s : Store) (v : Address) (stake total : Nat) :
    bonded (s.setBonded v stake total) + s.stakeAmount v = bonded s + stake :=
  Sums.sum_update s.stakeAmount v stake

variable {amount : Nat}

/-- Value that comes in is bonded. -/
theorem stake (hroom : held + amount < 2 ^ 256) :
    Books (s.setBonded v (wrappingAdd 256 (s.stakeAmount v) amount)
      (wrappingAdd 256 s.totalStaked amount)) lists (held + amount) := by
  have hheld := h.held_eq
  have hle := h.stake_le v
  have hstake : wrappingAdd 256 (s.stakeAmount v) amount = s.stakeAmount v + amount :=
    wrappingAdd_eq (by omega)
  have htotal : wrappingAdd 256 s.totalStaked amount = s.totalStaked + amount :=
    wrappingAdd_eq (by omega)
  rw [hstake, htotal]
  have hsum := bonded_setBonded s v (s.stakeAmount v + amount) (s.totalStaked + amount)
  have htot := h.total
  refine ⟨h.queue.setBonded v _ _, h.cleared, ?_, ?_⟩
  · show s.totalStaked + amount = _
    omega
  · show held + amount = s.totalStaked + amount + queued s
    omega

theorem burnBonded (hle : amount ≤ s.stakeAmount v) :
    Books (s.setBonded v (s.stakeAmount v - amount) (s.totalStaked - amount)) lists
      (held - amount) := by
  have hsum := bonded_setBonded s v (s.stakeAmount v - amount) (s.totalStaked - amount)
  have htot := h.total
  have hheld := h.held_eq
  refine ⟨h.queue.setBonded v _ _, h.cleared, ?_, ?_⟩
  · show s.totalStaked - amount = bonded (s.setBonded v _ _)
    omega
  · show held - amount = s.totalStaked - amount + queued s
    omega

/-- Queued value is owed. -/
theorem enqueue {v : Address} (hv : v ≠ 0)
    (hamount : amount ≠ 0) (completeTime : Nat) (hroom : s.unbondingCount + 1 < 2 ^ 32) :
    Books (s.enqueueUnbonding v amount completeTime)
      (update lists v (s.unbondingCount :: lists v)) (held + amount) := by
  have hheld := h.held_eq
  have hqueue := h.queue.enqueue hv hamount completeTime hroom
  rw [enqueueUnbonding_eq hamount hroom] at hqueue ⊢
  refine ⟨hqueue, fun i hi hzero => ?_, h.total, ?_⟩
  · by_cases hlast : i = s.unbondingCount
    · subst hlast
      exact absurd (by simpa using hzero) hv
    · have hlt : i < s.unbondingCount := by
        have : i < s.unbondingCount + 1 := hi
        omega
      simp only [update_of_ne hlast] at hzero ⊢
      exact h.cleared i hlt hzero
  · have hpush : ∑ i ∈ range (s.unbondingCount + 1),
        (update s.entries s.unbondingCount
          ⟨v, amount, completeTime, s.perValUnbondingHead v⟩ i).amount = queued s + amount := by
      rw [queued, ← Sums.sum_range_push]
      refine sum_congr rfl fun i _ => ?_
      by_cases hlast : i = s.unbondingCount <;> simp [hlast]
    show held + amount = s.totalStaked + ∑ i ∈ range (s.unbondingCount + 1), _
    rw [hpush]
    omega

/-- Bonded value moves into the queue. -/
theorem unbond {v : Address} (hv : v ≠ 0)
    (hamount : amount ≠ 0) (hle : amount ≤ s.stakeAmount v) (completeTime : Nat)
    (hroom : s.unbondingCount + 1 < 2 ^ 32) :
    Books ((s.setBonded v (s.stakeAmount v - amount)
      (s.totalStaked - amount)).enqueueUnbonding v amount completeTime)
      (update lists v (s.unbondingCount :: lists v)) held := by
  have hstake := h.stake_le v
  have hheld := h.held_eq
  have hback : held - amount + amount = held := by omega
  exact hback ▸ (h.burnBonded v hle).enqueue hv hamount completeTime hroom

/-- The queue is worth at least any part of one list. -/
theorem amountAt_le {v : Address} {l : List Nat}
    (hl : l.Sublist (lists v)) : amountAt s.entries l ≤ queued s := by
  have hlow := Sums.sum_range_lower (f := fun i => (s.entries i).amount)
    (g := fun i => if i ∈ l then 0 else (s.entries i).amount)
    (n := s.unbondingCount) (fun i => (s.entries i).amount)
    ((h.queue.nodup v).sublist hl) (fun i hi => h.queue.below v i (hl.subset hi))
    (fun i hi => by simp [hi]) (fun i hi => by simp [hi])
  unfold amountAt queued
  omega

/-- Mature entries are paid out. -/
theorem claim {timestamp : Nat} {c : ClaimState}
    (hc : Claimed s.entries timestamp (lists v) c) (hqueue : Queue { s with
        entries := c.terminate
        perValUnbondingHead := update s.perValUnbondingHead v c.newHead }
      (update lists v ((lists v).filter (!mature s.entries timestamp ·)))) :
    Books { s with
        entries := c.terminate
        perValUnbondingHead := update s.perValUnbondingHead v c.newHead }
      (update lists v ((lists v).filter (!mature s.entries timestamp ·)))
      (held - amountAt s.entries ((lists v).filter (mature s.entries timestamp))) := by
  have hheld := h.held_eq
  refine ⟨hqueue, fun i hi hzero => ?_, h.total, ?_⟩
  · by_cases hmem : i ∈ lists v
    · cases hm : mature s.entries timestamp i with
      | true => simp [hc.paid i hmem hm, UnbondingEntry.empty]
      | false =>
        have hkept := hc.kept_fields hmem hm
        show (c.terminate i).amount = 0
        rw [hkept.2]
        exact h.cleared i hi (hkept.1.symm.trans hzero)
    · simp only [hc.other i hmem] at hzero ⊢
      exact h.cleared i hi hzero
  · have hlow : ∑ i ∈ range s.unbondingCount, (c.terminate i).amount +
        amountAt s.entries ((lists v).filter (mature s.entries timestamp)) = queued s := by
      refine Sums.sum_range_lower (fun i => (s.entries i).amount)
        ((h.queue.nodup v).filter _) (fun i hi => ?_) (fun i hi => ?_) (fun i hi => ?_)
      · exact h.queue.below v i (mem_filter.mp hi).1
      · by_cases hmem : i ∈ lists v
        · have hm : mature s.entries timestamp i = false := by
            simpa [hmem] using fun hm => hi (mem_filter.mpr ⟨hmem, hm⟩)
          exact (hc.kept_fields hmem hm).2
        · rw [hc.other i hmem]
      · obtain ⟨hmem, hm⟩ := mem_filter.mp hi
        simp [hc.paid i hmem hm, UnbondingEntry.empty]
    show held - _ = s.totalStaked + ∑ i ∈ range s.unbondingCount, (c.terminate i).amount
    omega

variable {percent : Nat}

omit h in
/-- A percentage of an amount is at most the amount, even when the product wraps. -/
theorem mul_percent_le (hpercent : percent ≤ 100) (amount : Nat) :
    wrappingMul 256 amount percent / 100 ≤ amount := by
  have hmod : wrappingMul 256 amount percent ≤ amount * percent := mod_le _ _
  have hmul : amount * percent ≤ amount * 100 := Nat.mul_le_mul_left amount hpercent
  omega

omit h in
/-- A slash takes at most the amount. -/
theorem slashOf_le (hpercent : percent ≤ 100) (e : UnbondingEntry) :
    slashOf percent e ≤ e.amount := by
  unfold slashOf
  split
  · exact Nat.zero_le _
  · exact mul_percent_le hpercent e.amount

/-- Slashing the bonded part burns at most the stake. -/
theorem slashBonded (hpercent : percent ≤ 100) (hlt : s.totalStaked < 2 ^ 256) :
    Books (Staking.slashBonded s v percent).1 lists
      (held - (Staking.slashBonded s v percent).2) ∧
      (Staking.slashBonded s v percent).2 ≤ s.stakeAmount v := by
  rw [slashBonded_eq]
  split
  · exact ⟨h, Nat.zero_le _⟩
  · have hle := mul_percent_le hpercent (s.stakeAmount v)
    refine ⟨?_, hle⟩
    rw [wrappingSub_eq (hle.trans (h.stake_le v)) hlt]
    exact h.burnBonded v hle

/-- What a slash takes from one list is covered by the queue. -/
theorem sum_slashOf_le (hpercent : percent ≤ 100) :
    ((lists v).map fun i => slashOf percent (s.entries i)).sum ≤ queued s :=
  (List.sum_le_sum fun i _ => slashOf_le hpercent (s.entries i)).trans
    (h.amountAt_le (List.Sublist.refl (lists v)))

/-- Queued value is burned. -/
theorem slashQueue (v : Address) (time : Nat) (hpercent : percent ≤ 100) :
    Books { s with entries := slashAt percent time (lists v) s.entries } lists
      (held - ((lists v).map fun i => slashOf percent (s.entries i)).sum) := by
  have hheld := h.held_eq
  have hfields := slashAt_fields percent time (lists v) s.entries
  refine ⟨h.queue.slash v percent time, fun i hi hzero => ?_, h.total, ?_⟩
  · have hold := h.cleared i hi ((hfields i).1.symm.trans hzero)
    show (slashAt percent time (lists v) s.entries i).amount = 0
    rw [(hfields i).2.2]
    split <;> omega
  · have hlow : ∑ i ∈ range s.unbondingCount,
        (slashAt percent time (lists v) s.entries i).amount +
        ((lists v).map fun i => slashOf percent (s.entries i)).sum = queued s := by
      refine Sums.sum_range_lower (fun i => slashOf percent (s.entries i)) (h.queue.nodup v)
        (h.queue.below v) (fun i hi => ?_) (fun i hi => ?_)
      · rw [(hfields i).2.2, if_neg hi]
      · have hle := slashOf_le hpercent (s.entries i)
        rw [(hfields i).2.2, if_pos hi]
        omega
    show held - _ = s.totalStaked + ∑ i ∈ range s.unbondingCount,
      (slashAt percent time (lists v) s.entries i).amount
    omega

/-- Only worthless entries are trimmed. -/
theorem trim (ops : Nat) :
    Books { s with unbondingCount := trimTail s.entries ops s.unbondingCount } lists held := by
  have hle := trimTail_le s.entries ops s.unbondingCount
  refine ⟨h.queue.trim ops, fun i hi => h.cleared i (lt_of_lt_of_le hi hle), h.total, ?_⟩
  have hsum := Sums.sum_range_trim (f := fun i => (s.entries i).amount) hle
    fun i hge hlt => h.cleared i hlt (validator_of_trimmed hge hlt)
  show held = s.totalStaked + ∑ i ∈ range (trimTail s.entries ops s.unbondingCount), _
  rw [hsum]
  exact h.held_eq

end Books

end Rudis.Staking

import Rudis.Spec.Staking

/-!
# `Rudis.Proofs.Staking.Calls`: what each Staking call does

One inversion lemma per call: under which conditions it succeeds, and the world it leaves. A call
on ValidatorSet changes neither the Staking storage nor the balances, so the effect of a Staking
call on the ledger stands in these lemmas alone.
-/

namespace Rudis.Staking

open Tx

variable {X : Externals} {env : BlockEnv} {w w' : World} {u : Unit}

/-! ### Pieces -/

@[simp] theorem ok_onValidatorSet {α : Type} {m : Call ValidatorSet.Store α} {a : α} :
    Ok (onValidatorSet m) w a w' ↔
      ∃ vs, Ok m w.validatorSet a vs ∧ w' = { w with validatorSet := vs } := ok_zoom

@[simp] theorem ok_writeStaking {f : Store → Store} :
    Ok (writeStaking f) w u w' ↔ w' = { w with staking := f w.staking } := ok_modify

/-- The Staking storage with one validator's stake and the total written. -/
def Store.setBonded (s : Store) (validator : Address) (stake total : Nat) : Store :=
  { s with stakeAmount := update s.stakeAmount validator stake, totalStaked := total }

variable {amount : Nat} {address caller dst src : Address}

theorem ok_onBalances_transfer :
    Ok (onBalances (transferBalance src dst amount)) w u w' ↔
      amount ≤ w.balance src ∧
      update w.balance src (w.balance src - amount) dst + amount < 2 ^ 256 ∧
      w' = { w with balance := moveBalance w.balance src dst amount } := by
  simp only [onBalances, ok_zoom, ok_transferBalance, and_assoc, ↓existsAndEq, true_and]

theorem ok_onBalances_burn :
    Ok (onBalances (decreaseBalance address amount)) w u w' ↔
      amount ≤ w.balance address ∧
      w' = { w with
        balance := update w.balance address (w.balance address - amount) } := by
  simp [onBalances, ok_zoom, decreaseBalance]

/-! ### Calls -/

theorem ok_stake {caller validator : Address} :
    Ok (stake X caller validator amount) w u w' ↔
      amount ≠ 0 ∧ caller = validator ∧
      checkMaxStakePercent w.staking (wrappingAdd 256 (w.staking.stakeAmount validator) amount)
        amount = .ok () ∧
      ∃ vs, Ok (ValidatorSet.recordStakeIncrease X validator
          (wrappingAdd 256 (w.staking.stakeAmount validator) amount) w.staking.configMinStake)
          w.validatorSet () vs ∧
        w' = { w with
          staking := w.staking.setBonded validator
            (wrappingAdd 256 (w.staking.stakeAmount validator) amount)
            (wrappingAdd 256 w.staking.totalStaked amount)
          validatorSet := vs } := by
  simp [stake, writeStake, writeTotalStaked, Store.setBonded]

theorem ok_unstake :
    Ok (unstake X env caller amount) w u w' ↔
      amount ≠ 0 ∧ amount ≤ w.staking.stakeAmount caller ∧
      ∃ completeTime, checkedCompleteTime env.timestamp w.staking.configUnbondingPeriod =
          .ok completeTime ∧
      ∃ vs, Ok (ValidatorSet.recordUnstake X env caller (w.staking.stakeAmount caller - amount)
          w.staking.configMinStake completeTime) w.validatorSet () vs ∧
        w' = { w with
          staking := (w.staking.setBonded caller (w.staking.stakeAmount caller - amount)
            (wrappingSub 256 w.staking.totalStaked amount)).enqueueUnbonding caller amount
              completeTime
          validatorSet := vs } := by
  simp [unstake, writeStake, writeTotalStaked, Store.setBonded]

variable {validator : Address}

/-- Completing an exit changes ValidatorSet alone. -/
theorem ok_finalizeInactiveIfComplete :
    Ok (finalizeInactiveIfComplete X validator) w u w' ↔
      ∃ complete vs, unbondingComplete X w validator = .ok complete ∧
        Ok (when (complete = true) (ValidatorSet.completeUnbonding X validator))
          w.validatorSet () vs ∧
        w' = { w with validatorSet := vs } := by
  simp [finalizeInactiveIfComplete, ok_when]

theorem ok_claimUnbonded :
    Ok (claimUnbonded X env caller) w u w' ↔
      ∃ c, claimLoop env.timestamp walkFuel ⟨w.staking.entries, 0, 0, 0⟩
          (w.staking.perValUnbondingHead caller) = .ok c ∧
      ∃ w₁ w₂, w₁ = { w with staking := { w.staking with
          entries := c.terminate
          perValUnbondingHead :=
            update w.staking.perValUnbondingHead caller c.newHead } } ∧
        Ok (when (c.totalClaimable ≠ 0)
          (onBalances (transferBalance stakingAddress caller c.totalClaimable))) w₁ () w₂ ∧
        Ok (finalizeInactiveIfComplete X caller) w₂ () w' := by
  simp [claimUnbonded]

/-- A slash of the bonded part writes the stake and the total. -/
theorem slashBonded_eq (s : Store) (validator : Address) (percent : Nat) :
    slashBonded s validator percent =
      if s.stakeAmount validator = 0 then (s, 0)
      else (s.setBonded validator
          (s.stakeAmount validator - wrappingMul 256 (s.stakeAmount validator) percent / 100)
          (wrappingSub 256 s.totalStaked (wrappingMul 256 (s.stakeAmount validator) percent / 100)),
        wrappingMul 256 (s.stakeAmount validator) percent / 100) := rfl

/-- A slash of the bonded part leaves the queue. -/
theorem slashBonded_frame (s : Store) (validator : Address) (percent : Nat) :
    (slashBonded s validator percent).1.entries = s.entries ∧
      (slashBonded s validator percent).1.perValUnbondingHead = s.perValUnbondingHead ∧
      (slashBonded s validator percent).1.unbondingCount = s.unbondingCount := by
  rw [slashBonded_eq]
  split <;> exact ⟨rfl, rfl, rfl⟩

variable {deadline percent slash slashed stake timestamp total : Nat}

theorem ok_slashStake :
    Ok (slashStake X env validator percent) w total w' ↔
      percent ≤ 100 ∧
      ∃ queued, slashQueue env (slashBonded w.staking validator percent).1 validator percent
          (slashBonded w.staking validator percent).2 = .ok (queued, total) ∧
      ∃ w₁, Ok (when (total ≠ 0) (onBalances (decreaseBalance stakingAddress total)))
          { w with staking := queued } () w₁ ∧
      ∃ vs, Ok (ValidatorSet.recordStakeSlash X env validator (w₁.staking.stakeAmount validator)
          w₁.staking.configMinStake none) w₁.validatorSet () vs ∧
        w' = { w₁ with validatorSet := vs } := by
  simp [slashStake]

theorem ok_slashQueue {s s' : Store} :
    slashQueue env s validator percent slashed = .ok (s', total) ↔
      ∃ delay time entries, s.slashedWithdrawalDelay = .ok delay ∧
        checkedCompleteTime env.timestamp delay = .ok time ∧
        slashLoop percent time walkFuel s.entries slashed (s.perValUnbondingHead validator) =
          .ok (entries, total) ∧
        s' = { s with entries } := by
  simp [slashQueue]

theorem ok_ocompBondedSlash :
    Ok (ocompBondedSlash X validator) w slash w' ↔
      slash = w.staking.stakeAmount validator / 10 ∧ slash ≤ w.staking.totalStaked ∧
      ∃ w₁, Ok (when (slash ≠ 0) (onBalances (decreaseBalance stakingAddress slash)))
          { w with staking := (w.staking.setBonded validator
            (w.staking.stakeAmount validator - slash) (w.staking.totalStaked - slash)) } () w₁ ∧
      ∃ vs, Ok (ValidatorSet.recordOcompBondedSlash X validator
          (w.staking.stakeAmount validator - slash)) w₁.validatorSet () vs ∧
        w' = { w₁ with validatorSet := vs } := by
  simp only [ocompBondedSlash, writeStake, writeTotalStaked, Store.setBonded, rules,
    ok_writeStaking, ok_onValidatorSet, ↓existsAndEq]
  refine ⟨?_, ?_⟩
  · rintro ⟨hle, w₁, hburn, vs, hvs, rfl, rfl⟩
    exact ⟨rfl, not_lt.mp hle, w₁, hburn, vs, hvs, rfl⟩
  · rintro ⟨rfl, hle, w₁, hburn, vs, hvs, rfl⟩
    exact ⟨not_lt.mpr hle, w₁, hburn, vs, hvs, rfl, rfl⟩

/-- A miss that opens the window slashes; another one only counts. -/
theorem recordOcompMiss_cases {penalty : OcompMissPenalty}
    (h : Ok (recordOcompMiss X env validator) w penalty w') :
    ∃ miss vs, Ok (ValidatorSet.recordOcompMiss X env validator) w.validatorSet miss vs ∧
      ((∃ missCount deadline slashed, miss = .opened missCount deadline ∧
          Ok (ocompBondedSlash X validator) { w with validatorSet := vs } slashed w' ∧
          penalty = ⟨true, missCount, deadline, slashed⟩) ∨
        (∃ missCount deadline, miss = .repeated missCount deadline ∧
          w' = { w with validatorSet := vs } ∧ penalty = ⟨false, missCount, deadline, 0⟩)) := by
  simp only [recordOcompMiss, rules, ok_onValidatorSet] at h
  obtain ⟨miss, _, ⟨vs, hmiss, rfl⟩, h⟩ := h
  refine ⟨miss, vs, hmiss, ?_⟩
  cases miss with
  | opened missCount deadline =>
    simp only [rules] at h
    obtain ⟨slashed, _, hslash, rfl, rfl⟩ := h
    exact .inl ⟨missCount, deadline, slashed, rfl, hslash, rfl⟩
  | repeated missCount deadline =>
    simp only [ok_pure] at h
    exact .inr ⟨missCount, deadline, rfl, h.2, h.1⟩

theorem ok_moveToQueue {history : ValidatorSet.ValidatorHistory} :
    Ok (moveToQueue X env timestamp validator history stake) w u w' ↔
      stake ≤ w.staking.totalStaked ∧
      ∃ period, (if history.slashCount > 0 then w.staking.slashedWithdrawalDelay
          else .ok w.staking.configUnbondingPeriod) = .ok period ∧
      ∃ completeTime, checkedCompleteTime timestamp period = .ok completeTime ∧
      ∃ vs, Ok (ValidatorSet.recordUnstake X env validator 0 0 completeTime)
          w.validatorSet () vs ∧
        w' = { w with
          staking := (w.staking.setBonded validator 0
            (w.staking.totalStaked - stake)).enqueueUnbonding validator stake completeTime
          validatorSet := vs } := by
  simp [moveToQueue, writeStake, writeTotalStaked, Store.setBonded, Store.slashedWithdrawalDelay]

/-- One validator's turn: its stake moves to the queue, or its exit completes, or nothing
happens. -/
theorem processValidator_cases (h : Ok (processValidator X env timestamp validator) w u w') :
    (∃ state unbonding, ValidatorSet.validatorState X w.validatorSet validator = .ok state ∧
        state.lifecycle = .unbonding unbonding ∧ w.staking.stakeAmount validator ≠ 0 ∧
        Ok (moveToQueue X env timestamp validator unbonding.history
          (w.staking.stakeAmount validator)) w () w') ∨
      (w.staking.stakeAmount validator = 0 ∧ Ok (finalizeInactiveIfComplete X validator) w () w') ∨
      ((∀ state unbonding, ValidatorSet.validatorState X w.validatorSet validator = .ok state →
        state.lifecycle ≠ .unbonding unbonding) ∧ w' = w) := by
  simp only [processValidator, rules] at h
  obtain ⟨state, hstate, h⟩ := h
  split at h
  · rename_i unbonding hunbonding
    simp only [ok_ite, rules] at h
    obtain ⟨hstake, h⟩ | ⟨hstake, h⟩ := h
    · exact .inl ⟨state, unbonding, hstate, hunbonding, hstake, h⟩
    · exact .inr (.inl ⟨hstake, h⟩)
  · rename_i hother
    refine .inr (.inr ⟨fun state' unbonding hstate' => ?_, (ok_pure.mp h).2⟩)
    obtain rfl : state = state' := Except.ok.inj (hstate.symm.trans hstate')
    exact hother unbonding

theorem ok_processUnbonding :
    Ok (processUnbonding X env timestamp) w u w' ↔
      ∃ validators, ValidatorSet.registeredValidatorAddresses w.validatorSet = .ok validators ∧
      ∃ w₁, Ok (validators.forM (processValidator X env timestamp)) w () w₁ ∧
        w' = { w₁ with staking := { w₁.staking with
          unbondingCount :=
            trimTail w₁.staking.entries maxCompactionPerBlock w₁.staking.unbondingCount } } := by
  simp [processUnbonding]

/-! ### Calls that leave the ledger alone -/

def SameLedger (w w' : World) : Prop := w'.staking = w.staking ∧ w'.balance = w.balance

instance : IsPreorder World SameLedger where
  refl _ := ⟨rfl, rfl⟩
  trans _ _ _ h h' := ⟨h'.1.trans h.1, h'.2.trans h.2⟩

theorem sameLedger_onValidatorSet {α : Type} {m : Call ValidatorSet.Store α} :
    Keeps SameLedger (onValidatorSet m) :=
  .zoom fun _ _ => ⟨rfl, rfl⟩

theorem sameLedger_finalizeInactiveIfComplete :
    Keeps SameLedger (finalizeInactiveIfComplete X validator) :=
  .read readOnly_query fun _ => .when sameLedger_onValidatorSet

theorem sameLedger_resolveDue : Keeps SameLedger (resolveDue X env validator deadline) := by
  refine .read (fun _ => rfl) fun _ => .read (fun _ => rfl) fun _ => .read readOnly_query fun _ => ?_
  have hclose : ∀ r : OcompRecoveryResolution, Keeps SameLedger (do
      onValidatorSet (ValidatorSet.resolveOcompRecoveryWindow validator deadline)
      pure r) := fun _ => sameLedger_onValidatorSet.bind fun _ => .pure
  refine .ite (hclose _) (.ite (hclose _) (.bind sameLedger_onValidatorSet fun _ => ?_))
  exact .read readOnly_failIf fun _ => hclose _

theorem sameLedger_resolveDueOcompRecoveryWindow :
    Keeps SameLedger (resolveDueOcompRecoveryWindow X env validator) :=
  .checkpoint (.read (fun _ => rfl) fun _ => .ite .pure (.ite .pure sameLedger_resolveDue))

theorem sameLedger_closeDueOcompRecoveryWindows :
    Keeps SameLedger (closeDueOcompRecoveryWindows X env) := by
  refine .checkpoint (.read (fun _ => rfl) fun _ => .read readOnly_failIf fun _ =>
    .read readOnly_query fun _ => .foldlM fun _ _ => .read (fun _ => rfl) fun _ => .ite .pure ?_)
  exact sameLedger_resolveDueOcompRecoveryWindow.bind fun _ => .pure

end Rudis.Staking

import Rudis.Proofs.Staking.Ledger

/-!
# `Rudis.Proofs.Staking.Withdrawals`: repeated small withdrawals

A validator below the minimum stake may withdraw its stake one wei at a time
(`unstake_one`), each call appending one entry. `withdrawals_run` follows `n` such calls: all
succeed, the native balances stay, and the entry counter has advanced by `n` modulo `2 ^ 32`.
-/

namespace Rudis.ValidatorSet

variable {X : Externals} {vs : Store} {v : Address} {p : Payload}

/-- A registered validator below the minimum only has its stake mirror replaced. -/
theorem recordUnstake_waitingForStake (env : BlockEnv) (bonded minimum hint : Nat)
    (h : validatorState X vs v = .ok ⟨v, .waitingForStake p⟩) :
    ∃ vs', Ok (recordUnstake X env v bonded minimum hint) vs () vs' ∧
      validatorState X vs' v =
        .ok ⟨v, .waitingForStake { p with stake := ⟨bonded, nonZero hint⟩ }⟩ ∧
      ∀ a, a ≠ v → validatorState X vs' a = validatorState X vs a := by
  have hcanon := (decodeSlots_ok (validatorState_eq_ok.mp h).1).2.2
  have hvalid : (ValidatorLifecycle.waitingForStake
      { p with stake := ⟨bonded, nonZero hint⟩ }).validate v = .ok () := by
    have hold := hcanon.validate
    simp only [ValidatorLifecycle.validate, laws, Tx.exists_unit] at hold ⊢
    refine ⟨hold.1, ?_, hold.2.2.1, rfl⟩
    exact throwIf_eq_ok.mpr (nonZero_ne_some_zero hint)
  have hcommit : Ok (commitLifecycle ⟨v, .waitingForStake p⟩
      (.waitingForStake { p with stake := ⟨bonded, nonZero hint⟩ }) false) vs ()
      (committed vs ⟨v, .waitingForStake p⟩
        (.waitingForStake { p with stake := ⟨bonded, nonZero hint⟩ }) false) :=
    ok_commitLifecycle.mpr ⟨hcanon.validate, hvalid, rfl, rfl, rfl⟩
  have hcommits := commits_of_ok h hcommit
  refine ⟨_, ?_, hcommits.read_next_of_p2p rfl, fun a ha => hcommits.validatorState_of_ne ha⟩
  simp only [recordUnstake, readState, Tx.ok_bind, Tx.ok_query, Tx.ok_ofExcept]
  refine ⟨_, vs, ⟨h, rfl⟩, (_, false), vs, ⟨?_, rfl⟩, hcommit⟩
  simp [unstakeNext, StateMachine.withStake, StateMachine.requireCanonicalStake,
    map_eq_ok, nonZero_ne_some_zero]

end Rudis.ValidatorSet

namespace Rudis.Staking

variable {X : Externals}

/-- A validator that waits for stake and has `stake` bonded. -/
structure Withdrawing (X : Externals) (w : World) (v : Address) (stake : Nat) : Prop where
  state : ∃ p, ValidatorSet.validatorState X w.validatorSet v = .ok ⟨v, .waitingForStake p⟩
  stake_eq : w.staking.stakeAmount v = stake

/-- The ledger after a withdrawal of one wei. -/
def withdrawOne (s : Store) (v : Address) (completeTime : Nat) : Store :=
  (s.setBonded v (s.stakeAmount v - 1) (wrappingSub 256 s.totalStaked 1)).enqueueUnbonding v 1
    completeTime

variable {sender : Sender}

/-- One withdrawal of one wei succeeds and appends an entry. -/
theorem unstake_one (env : BlockEnv) {w : World} {stake : Nat}
    (h : Withdrawing X w sender.address (stake + 1))
    (htime : env.timestamp + w.staking.configUnbondingPeriod < 2 ^ 64) :
    (step X (env, .unstake sender 1) w).staking = withdrawOne w.staking sender.address
        (env.timestamp + w.staking.configUnbondingPeriod) ∧
      (step X (env, .unstake sender 1) w).balance = w.balance ∧
      Withdrawing X (step X (env, .unstake sender 1) w) sender.address stake ∧
      ∀ a s, a ≠ sender.address → Withdrawing X w a s →
        Withdrawing X (step X (env, .unstake sender 1) w) a s := by
  obtain ⟨⟨p, hp⟩, hstake⟩ := h
  have hcomplete : checkedCompleteTime env.timestamp w.staking.configUnbondingPeriod =
      .ok (env.timestamp + w.staking.configUnbondingPeriod) := by
    rw [checkedCompleteTime, okOr_eq_ok, checkedAdd_eq_some]
    exact ⟨htime, rfl⟩
  obtain ⟨vs, hunstake, hread, hother⟩ := ValidatorSet.recordUnstake_waitingForStake
    env (w.staking.stakeAmount sender.address - 1) w.staking.configMinStake
    (env.timestamp + w.staking.configUnbondingPeriod) hp
  have hok : Ok (Op.call X env (.unstake sender 1)) w () _ :=
    ok_unstake.mpr ⟨Nat.one_ne_zero, by omega, _, hcomplete, vs, hunstake, rfl⟩
  rw [step_of_ok (i := (env, .unstake sender 1)) hok]
  refine ⟨rfl, rfl, ⟨⟨_, hread⟩, ?_⟩, fun a s ha hs => ⟨?_, ?_⟩⟩
  · simp [Store.enqueueUnbonding, Store.setBonded, hstake]
  · obtain ⟨⟨q, hq⟩, _⟩ := hs
    exact ⟨q, (hother a ha).trans hq⟩
  · simp [Store.enqueueUnbonding, Store.setBonded, ha, hs.stake_eq]

/-- `n` withdrawals of one wei all succeed. The balances and the other validators' lists stay,
and the counter wraps. -/
theorem withdrawals_run (env : BlockEnv) :
    ∀ {n : Nat} {w : World} {stake : Nat}, Withdrawing X w sender.address (stake + n) →
      env.timestamp + w.staking.configUnbondingPeriod < 2 ^ 64 →
      w.staking.unbondingCount < 2 ^ 32 → w.staking.totalStaked < 2 ^ 256 →
      n ≤ w.staking.totalStaked →
      let w' := Runs.run (step X) (List.replicate n (env, Op.unstake sender 1)) w
      w'.staking.unbondingCount = (w.staking.unbondingCount + n) % 2 ^ 32 ∧
        w'.staking.totalStaked = w.staking.totalStaked - n ∧
        w'.balance = w.balance ∧
        ∀ a, a ≠ sender.address →
          w'.staking.perValUnbondingHead a = w.staking.perValUnbondingHead a := by
  intro n
  induction n with
  | zero =>
    intro w stake _ _ hcount _ _
    exact ⟨(mod_eq_of_lt hcount).symm, rfl, rfl, fun _ _ => rfl⟩
  | succ n ih =>
    intro w stake h htime hcount htotal hle
    obtain ⟨hstaking, hbalance, hnext, _⟩ := unstake_one env h htime
    have hfields : (step X (env, .unstake sender 1) w).staking.unbondingCount =
          (w.staking.unbondingCount + 1) % 2 ^ 32 ∧
        (step X (env, .unstake sender 1) w).staking.totalStaked = w.staking.totalStaked - 1 ∧
        (step X (env, .unstake sender 1) w).staking.configUnbondingPeriod =
          w.staking.configUnbondingPeriod ∧
        ∀ a, a ≠ sender.address → (step X (env, .unstake sender 1) w).staking.perValUnbondingHead
          a = w.staking.perValUnbondingHead a := by
      rw [hstaking]
      refine ⟨rfl, wrappingSub_eq (by omega) htotal, rfl, fun a ha => ?_⟩
      simp [withdrawOne, Store.enqueueUnbonding, Store.setBonded, ha]
    obtain ⟨hcount', htotal', hperiod, hhead⟩ := hfields
    have hrun := ih hnext (by rw [hperiod]; exact htime)
      (by rw [hcount']; exact mod_lt _ (Nat.two_pow_pos 32)) (by omega) (by omega)
    rw [List.replicate_succ, Runs.run_cons]
    refine ⟨?_, ?_, hrun.2.2.1.trans hbalance, fun a ha => (hrun.2.2.2 a ha).trans (hhead a ha)⟩
    · rw [hrun.1, hcount', Nat.mod_add_mod]
      congr 1
      omega
    · rw [hrun.2.1, htotal']
      omega

/-! ### Two validators that withdraw -/

/-- Slots of a registered validator below the minimum stake. -/
def waitingSlots (pubkey : ValidatorSet.ConsensusPubkey) (stake : Nat) :
    ValidatorSet.ValidatorSlots :=
  { ValidatorSet.ValidatorSlots.empty.writeConsensusPubkey pubkey with stake, joinedAtHeight := 1 }

/-- Alice has `2 ^ 32` wei bonded and Bob one. Neither reaches the minimum. -/
def sampleWorld : World where
  staking := {
    configMinStake := 2 ^ 64
    configUnbondingPeriod := 1
    configMaxStakePercent := 0
    configSlashedWithdrawalDelay := 0
    stakeAmount := update (update (fun _ => 0) alice.address (2 ^ 32))
      bob.address 1
    totalStaked := 2 ^ 32 + 1
    unbondingCount := 0
    entries := fun _ => .empty
    perValUnbondingHead := fun _ => 0 }
  validatorSet := { ValidatorSet.Store.empty 0 0 0 0 with
    val := update (update (fun _ => .empty) alice.address
      (waitingSlots 1 (2 ^ 32))) bob.address (waitingSlots 2 1)
    registry := {
      addressToIndex := update (update (fun _ => 0) alice.address 1) bob.address 2
      indexToAddress := update (update (fun _ => 0) 1 alice.address) 2 bob.address
      consensusPubkeyHashToAddress :=
        update (update (fun _ => 0) 1 alice.address) 2 bob.address
      validatorCount := 2
      radicleNodeId := update (update (fun _ => 0) alice.address 1) bob.address 2
      radicleNodeIdToValidator :=
        update (update (fun _ => 0) 1 alice.address) 2 bob.address } }
  balance := update (fun _ => 0) stakingAddress (2 ^ 32 + 1)

theorem sampleWorld_alice : Withdrawing sampleExternals sampleWorld alice.address (2 ^ 32) := by
  refine ⟨⟨⟨⟨1, by decide⟩, 1, .unset, ⟨2 ^ 32, none⟩, .fresh 1⟩, ?_⟩, ?_⟩
  · decide +kernel
  · decide +kernel

theorem sampleWorld_bob : Withdrawing sampleExternals sampleWorld bob.address 1 := by
  refine ⟨⟨⟨⟨2, by decide⟩, 2, .unset, ⟨1, none⟩, .fresh 1⟩, ?_⟩, ?_⟩
  · decide +kernel
  · decide +kernel

end Rudis.Staking

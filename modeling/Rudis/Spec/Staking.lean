import Rudis.Spec.ValidatorSet.Transitions

/-!
# `Rudis.Spec.Staking`: the Staking contract

The functions of `staking/src/logic.rs` over the Staking storage, the ValidatorSet storage and
the native balances. The unbonding queue is an array of entries; the entries of one validator
are a singly linked list whose links are stored as index plus one, zero ending the list. A walk
of such a list takes fuel; more than `2 ^ 32` links cannot be visited without visiting one twice,
and a walk that never ends runs out of gas.
-/

namespace Rudis

namespace Staking

/-- One slot of the unbonding queue. -/
structure UnbondingEntry where
  /-- Zero when the entry was claimed. -/
  validator : Address
  amount : Nat
  completeTime : Nat
  /-- Index plus one of the next entry of the same validator; zero at the end. -/
  next : Nat

/-- A claimed or never used slot. -/
def UnbondingEntry.empty : UnbondingEntry := ⟨0, 0, 0, 0⟩

/-- Storage of the contract. -/
structure Store where
  configMinStake : Nat
  configUnbondingPeriod : Nat
  configMaxStakePercent : Nat
  configSlashedWithdrawalDelay : Nat
  stakeAmount : Address → Nat
  totalStaked : Nat
  /-- `u32`. -/
  unbondingCount : Nat
  entries : Nat → UnbondingEntry
  /-- Index plus one of a validator's newest entry; zero when it has none. -/
  perValUnbondingHead : Address → Nat

/-- Steps a list walk may take. -/
def walkFuel : Nat := 2 ^ 32

/-- Appends an entry to a validator's list. Both `idx + 1` are unchecked `u32` additions. -/
def Store.enqueueUnbonding (s : Store) (validator : Address) (amount completeTime : Nat) : Store :=
  if amount = 0 then s
  else
    let idx := s.unbondingCount
    { s with
      entries := update s.entries idx
        ⟨validator, amount, completeTime, s.perValUnbondingHead validator⟩
      unbondingCount := wrappingAdd 32 idx 1
      perValUnbondingHead :=
        update s.perValUnbondingHead validator (wrappingAdd 32 idx 1) }

/-- Whether the list that starts at `current` has an entry with value left. -/
def hasPendingLoop (entries : Nat → UnbondingEntry) :
    Nat → Nat → Result Bool
  | 0, _ => .error .outOfGas
  | fuel + 1, current =>
    if current = 0 then .ok false
    else if (entries (current - 1)).amount ≠ 0 then .ok true
    else hasPendingLoop entries fuel (entries (current - 1)).next

def Store.hasPendingUnbonding (s : Store) (validator : Address) : Result Bool :=
  hasPendingLoop s.entries walkFuel (s.perValUnbondingHead validator)

/-- What a claim has gathered so far. -/
structure ClaimState where
  entries : Nat → UnbondingEntry
  totalClaimable : Nat
  newHead : Nat
  pendingTail : Nat

/-- One round of the claim walk at the entry `current`: a mature entry is zeroed and its amount
added, another one is linked to the last entry kept. -/
def ClaimState.visit (c : ClaimState) (timestamp current : Nat) : ClaimState :=
  let idx := current - 1
  let entry := c.entries idx
  if timestamp ≥ entry.completeTime then
    { c with
      entries := update c.entries idx .empty
      totalClaimable := wrappingAdd 256 c.totalClaimable entry.amount }
  else if c.newHead = 0 then { c with newHead := current, pendingTail := current }
  else { c with
    entries := update c.entries (c.pendingTail - 1)
      { c.entries (c.pendingTail - 1) with next := current }
    pendingTail := current }

def claimLoop (timestamp : Nat) : Nat → ClaimState → Nat → Result ClaimState
  | 0, _, _ => .error .outOfGas
  | fuel + 1, c, current =>
    if current = 0 then .ok c
    else claimLoop timestamp fuel (c.visit timestamp current) (c.entries (current - 1)).next

/-- Ends the rebuilt list at the last entry kept. -/
def ClaimState.terminate (c : ClaimState) : Nat → UnbondingEntry :=
  if c.pendingTail ≠ 0 then
    update c.entries (c.pendingTail - 1) { c.entries (c.pendingTail - 1) with next := 0 }
  else c.entries

/-- One round of the slash walk: takes the percentage and raises the completion time. -/
def slashEntry (percent slashCompleteTime : Nat) (entry : UnbondingEntry) : UnbondingEntry × Nat :=
  if entry.amount = 0 then (entry, 0)
  else
    let slash := wrappingMul 256 entry.amount percent / 100
    ({ entry with
      amount := entry.amount - slash
      completeTime := max entry.completeTime slashCompleteTime }, slash)

/-- The slash walk over a validator's list. -/
def slashLoop (percent slashCompleteTime : Nat) :
    Nat → (Nat → UnbondingEntry) → Nat → Nat → Result ((Nat → UnbondingEntry) × Nat)
  | 0, _, _, _ => .error .outOfGas
  | fuel + 1, entries, totalSlashed, current =>
    if current = 0 then .ok (entries, totalSlashed)
    else
      let r := slashEntry percent slashCompleteTime (entries (current - 1))
      slashLoop percent slashCompleteTime fuel (update entries (current - 1) r.1)
        (wrappingAdd 256 totalSlashed r.2) (entries (current - 1)).next

/-- Most entries one `process_unbonding` trims. -/
def maxCompactionPerBlock : Nat := 64

/-- Trims zeroed entries from the tail, at most `ops` of them. -/
def trimTail (entries : Nat → UnbondingEntry) : Nat → Nat → Nat
  | 0, count => count
  | _ + 1, 0 => 0
  | ops + 1, count + 1 =>
    if (entries count).validator ≠ 0 then count + 1 else trimTail entries ops count

end Staking

/-- Everything a Staking call reads and writes. -/
structure World where
  staking : Staking.Store
  validatorSet : ValidatorSet.Store
  balance : Address → Nat

/-- A contract that calls into Staking and ValidatorSet: their world, and its own storage. -/
structure Contract (σ : Type) where
  world : World
  store : σ

/-- Runs a Staking or ValidatorSet call inside a call of the contract. -/
def onWorld {σ α : Type} (m : Call World α) : Call (Contract σ) α :=
  zoom Contract.world (fun w s => { s with world := w }) m

/-- Writes the contract's own storage. -/
def writeStore {σ : Type} (f : σ → σ) : Call (Contract σ) Unit :=
  modify fun s => { s with store := f s.store }

namespace Staking

variable (X : Externals)

/-- Runs a ValidatorSet call inside a Staking call. -/
def onValidatorSet {α : Type} (m : Call ValidatorSet.Store α) : Call World α :=
  zoom World.validatorSet (fun vs w => { w with validatorSet := vs }) m

def writeStaking (f : Store → Store) : Call World Unit :=
  modify fun w => { w with staking := f w.staking }

def writeStake (validator : Address) (amount : Nat) : Call World Unit :=
  writeStaking fun s => { s with stakeAmount := update s.stakeAmount validator amount }

def writeTotalStaked (total : Nat) : Call World Unit :=
  writeStaking ({ · with totalStaked := total })

/-- Moves native value inside a Staking call. -/
def onBalances {α : Type} (m : Call (Address → Nat) α) : Call World α :=
  zoom World.balance (fun b w => { w with balance := b }) m

def checkedCompleteTime (timestamp period : Nat) : Result Nat :=
  okOr (checkedAdd 64 timestamp period) (.revert "unbonding completion timestamp overflow")

/-- Withdrawal delay of a slashed validator; twice the unbonding period by default. -/
def Store.slashedWithdrawalDelay (s : Store) : Result Nat :=
  if s.configSlashedWithdrawalDelay > 0 then .ok s.configSlashedWithdrawalDelay
  else okOr (checkedMul 64 s.configUnbondingPeriod 2) (.revert "slashed withdrawal delay overflow")

/-- The share of the total one validator may hold. -/
def checkMaxStakePercent (s : Store) (newStake amount : Nat) : Result Unit :=
  if s.configMaxStakePercent > 0 ∧ s.configMaxStakePercent < 100 ∧ s.totalStaked ≠ 0 then
    throwIf (wrappingMul 256 newStake 100 >
        wrappingMul 256 s.configMaxStakePercent (wrappingAdd 256 s.totalStaked amount))
      (.revert "stake would exceed max_stake_percent")
  else .ok ()

/-- Stakes `amount`. With a share limit and nothing staked yet the source writes `amount` as the
total without reading it again, which is the same sum. -/
def stake (caller validator : Address) (amount : Nat) : Call World Unit := do
  failIf (amount = 0) (.revert "amount must be non-zero")
  failIf (caller ≠ validator)
    (.revert "third-party staking not supported: caller must be validator")
  let current ← reads (·.staking.stakeAmount validator)
  let newStake := wrappingAdd 256 current amount
  query fun w => checkMaxStakePercent w.staking newStake amount
  writeStake validator newStake
  let total ← reads (·.staking.totalStaked)
  writeTotalStaked (wrappingAdd 256 total amount)
  let minStake ← reads (·.staking.configMinStake)
  onValidatorSet (ValidatorSet.recordStakeIncrease X validator newStake minStake)

/-- The payable entry point: the EVM moves `msg.value` first, and the value must be the amount. -/
def stakePayable (sender : Sender) (validator : Address) (amount : Nat) : Call World Unit := do
  onBalances (transferBalance sender.address stakingAddress amount)
  stake X sender.address validator amount

variable (env : BlockEnv)

/-- Withdraws bonded stake into the unbonding queue. -/
def unstake (caller : Address) (amount : Nat) : Call World Unit := do
  failIf (amount = 0) (.revert "amount must be non-zero")
  let current ← reads (·.staking.stakeAmount caller)
  failIf (amount > current) (.revert "insufficient staked amount")
  let period ← reads (·.staking.configUnbondingPeriod)
  let completeTime ← ofExcept (checkedCompleteTime env.timestamp period)
  let minStake ← reads (·.staking.configMinStake)
  let newStake := current - amount
  writeStake caller newStake
  let total ← reads (·.staking.totalStaked)
  writeTotalStaked (wrappingSub 256 total amount)
  writeStaking (·.enqueueUnbonding caller amount completeTime)
  onValidatorSet (ValidatorSet.recordUnstake X env caller newStake minStake completeTime)

/-- Returns a jailed validator with enough stake to the readiness path. -/
def unjailValidator (env : BlockEnv) (caller : Address) : Call World Unit := do
  let stake ← reads (·.staking.stakeAmount caller)
  let minStake ← reads (·.staking.configMinStake)
  failIf (stake < minStake) (.revert ("unjailValidator requires stake >= min_stake: have " ++
    toString stake ++ ", need " ++ toString minStake))
  onValidatorSet (ValidatorSet.unjailAfterStakeCheck X env caller)

/-- Whether an unbonding validator has neither stake nor a live claim. -/
def unbondingComplete (w : World) (validator : Address) : Result Bool := do
  let l ← ValidatorSet.validatorLifecycle X w.validatorSet validator
  match l with
  | .unbonding _ =>
    if w.staking.stakeAmount validator = 0 then
      (!·) <$> w.staking.hasPendingUnbonding validator
    else pure false
  | _ => pure false

variable (validator : Address)

/-- Completes the economic exit of a drained validator. -/
def finalizeInactiveIfComplete : Call World Unit := do
  let complete ← query fun w => unbondingComplete X w validator
  when (complete = true) (onValidatorSet (ValidatorSet.completeUnbonding X validator))

/-- Pays out the caller's matured entries. -/
def claimUnbonded (caller : Address) : Call World Unit := do
  let c ← query fun w => claimLoop env.timestamp walkFuel ⟨w.staking.entries, 0, 0, 0⟩
    (w.staking.perValUnbondingHead caller)
  writeStaking fun s => { s with
    entries := c.terminate
    perValUnbondingHead := update s.perValUnbondingHead caller c.newHead }
  when (c.totalClaimable ≠ 0) (onBalances (transferBalance stakingAddress caller c.totalClaimable))
  finalizeInactiveIfComplete X caller

def slashBonded (s : Store) (validator : Address) (percent : Nat) : Store × Nat :=
  let current := s.stakeAmount validator
  if current = 0 then (s, 0)
  else
    let slash := wrappingMul 256 current percent / 100
    ({ s with
      stakeAmount := update s.stakeAmount validator (current - slash)
      totalStaked := wrappingSub 256 s.totalStaked slash }, slash)

def slashQueue (s : Store) (validator : Address) (percent slashed : Nat) :
    Result (Store × Nat) := do
  let delay ← s.slashedWithdrawalDelay
  let slashCompleteTime ← checkedCompleteTime env.timestamp delay
  let (entries, total) ← slashLoop percent slashCompleteTime walkFuel s.entries slashed
    (s.perValUnbondingHead validator)
  pure ({ s with entries }, total)

/-- Slashes stake and unbonding entries by a percentage; returns what was burned. -/
def slashStake (percent : Nat) : Call World Nat := do
  failIf (percent > 100) (.revert "slash percent must be <= 100")
  let (bonded, slashed) ← reads fun w => slashBonded w.staking validator percent
  writeStaking fun _ => bonded
  let (queued, total) ← query fun w => slashQueue env w.staking validator percent slashed
  writeStaking fun _ => queued
  when (total ≠ 0) (onBalances (decreaseBalance stakingAddress total))
  let remaining ← reads (·.staking.stakeAmount validator)
  let minStake ← reads (·.staking.configMinStake)
  onValidatorSet (ValidatorSet.recordStakeSlash X env validator remaining minStake none)
  pure total

/-! ### OCOMP recovery -/

structure OcompMissPenalty where
  firstInWindow : Bool
  missCount : Nat
  recoveryDeadline : Nat
  slashedBonded : Nat

/-- Slashes a tenth of the bonded stake. -/
def ocompBondedSlash : Call World Nat := do
  let bonded ← reads (·.staking.stakeAmount validator)
  let slash := bonded / 10
  let total ← reads (·.staking.totalStaked)
  failIf (slash > total) (.fatal "OCOMP bonded slash exceeds total staked")
  writeStake validator (bonded - slash)
  writeTotalStaked (total - slash)
  when (slash ≠ 0) (onBalances (decreaseBalance stakingAddress slash))
  onValidatorSet (ValidatorSet.recordOcompBondedSlash X validator (bonded - slash))
  pure slash

/-- Records an OCOMP miss; only the one that opens the window slashes. -/
def recordOcompMiss (env : BlockEnv) (validator : Address) : Call World OcompMissPenalty :=
  checkpoint do
    let miss ← onValidatorSet (ValidatorSet.recordOcompMiss X env validator)
    match miss with
    | .opened missCount deadline => do
      let slashed ← ocompBondedSlash X validator
      pure ⟨true, missCount, deadline, slashed⟩
    | .repeated missCount deadline => pure ⟨false, missCount, deadline, 0⟩

/-- How a recovery window was resolved. -/
inductive OcompRecoveryResolution where
  | notOpen
  | notDue (recoveryDeadline : Nat)
  | restored (recoveryDeadline : Nat)
  | jailed (recoveryDeadline : Nat)
  | closedNonActive (recoveryDeadline : Nat)

def resolveDue (deadline : Nat) : Call World OcompRecoveryResolution := do
  let minimum ← reads (·.staking.configMinStake)
  let bonded ← reads (·.staking.stakeAmount validator)
  let l ← query fun w => ValidatorSet.validatorLifecycle X w.validatorSet validator
  if l.isActiveStatus = false then do
    onValidatorSet (ValidatorSet.resolveOcompRecoveryWindow validator deadline)
    pure (.closedNonActive deadline)
  else if bonded ≥ minimum then do
    onValidatorSet (ValidatorSet.resolveOcompRecoveryWindow validator deadline)
    pure (.restored deadline)
  else do
    let report ← onValidatorSet (ValidatorSet.jailValidatorDeferred X env validator)
    failIf report.isNone (.fatal "active OCOMP recovery validator was not jailed")
    onValidatorSet (ValidatorSet.resolveOcompRecoveryWindow validator deadline)
    pure (.jailed deadline)

def resolveDueOcompRecoveryWindow : Call World OcompRecoveryResolution :=
  checkpoint do
    let deadline ← reads (·.validatorSet.ocomp.recoveryDeadline validator)
    if deadline = 0 then pure .notOpen
    else if env.blockNumber < deadline then pure (.notDue deadline)
    else resolveDue X env validator deadline

structure OcompRecoverySweep where
  openWindows : Nat
  restored : Nat
  jailed : Nat
  closedNonActive : Nat

def OcompRecoverySweep.add (sweep : OcompRecoverySweep) :
    OcompRecoveryResolution → OcompRecoverySweep
  | .notOpen | .notDue _ => sweep
  | .restored _ => { sweep with restored := sweep.restored + 1 }
  | .jailed _ => { sweep with jailed := sweep.jailed + 1 }
  | .closedNonActive _ => { sweep with closedNonActive := sweep.closedNonActive + 1 }

/-- Checks every open window once. The registry bound keeps the four `u32` counts in range. -/
def closeDueOcompRecoveryWindows : Call World OcompRecoverySweep :=
  checkpoint do
    let count ← reads (·.validatorSet.registry.validatorCount)
    failIf (count > ValidatorSet.consensusValidatorBound)
      (.fatal "validator registry exceeds consensus bound")
    let addresses ← query fun w => ValidatorSet.registeredValidatorAddresses w.validatorSet
    addresses.foldlM (sweepOne env) ⟨0, 0, 0, 0⟩
where
  sweepOne (env : BlockEnv) (sweep : OcompRecoverySweep) (validator : Address) :
      Call World OcompRecoverySweep := do
    let deadline ← reads (·.validatorSet.ocomp.recoveryDeadline validator)
    if deadline = 0 then pure sweep
    else do
      let resolution ← resolveDueOcompRecoveryWindow X env validator
      pure ({ sweep with openWindows := sweep.openWindows + 1 }.add resolution)

/-! ### Per-block queue maintenance -/

/-- Moves the stake left with an unbonding validator into its queue. -/
def moveToQueue (timestamp : Nat) (validator : Address)
    (history : ValidatorSet.ValidatorHistory) (stake : Nat) : Call World Unit := do
  let total ← reads (·.staking.totalStaked)
  failIf (stake > total) (.revert "stake accounting underflow for validator")
  writeStake validator 0
  writeTotalStaked (total - stake)
  let period ← query fun w => if history.slashCount > 0 then w.staking.slashedWithdrawalDelay
    else .ok w.staking.configUnbondingPeriod
  let completeTime ← ofExcept (checkedCompleteTime timestamp period)
  writeStaking (·.enqueueUnbonding validator stake completeTime)
  onValidatorSet (ValidatorSet.recordUnstake X env validator 0 0 completeTime)

/-- One validator's turn in `process_unbonding`. -/
def processValidator (timestamp : Nat) (validator : Address) : Call World Unit := do
  let state ← query fun w => ValidatorSet.validatorState X w.validatorSet validator
  match state.lifecycle with
  | .unbonding unbonding => do
    let stake ← reads (·.staking.stakeAmount validator)
    if stake ≠ 0 then moveToQueue X env timestamp validator unbonding.history stake
    else finalizeInactiveIfComplete X validator
  | _ => pure ()

/-- The per-block call: drains unbonding validators, then trims the queue's tail. -/
def processUnbonding (timestamp : Nat) : Call World Unit := do
  let validators ← query fun w => ValidatorSet.registeredValidatorAddresses w.validatorSet
  validators.forM (processValidator X env timestamp)
  writeStaking fun s => { s with
    unbondingCount := trimTail s.entries maxCompactionPerBlock s.unbondingCount }

end Staking

end Rudis

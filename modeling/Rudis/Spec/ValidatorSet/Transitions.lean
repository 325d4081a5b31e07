import Rudis.Spec.ValidatorSet.Runtime

/-!
# `Rudis.Spec.ValidatorSet.Transitions`: lifecycle transitions after registration

The calls Staking drives (`record_stake_increase`, `record_unstake`, `record_stake_slash`, the
OCOMP recovery calls, `complete_unbonding`, `unjail_after_stake_check`), those of the validator
and of the fault handlers, the epoch counters, the boundary and the registry cleanup. Which state
follows is a pure function of the state before (`stakeIncreaseNext`, `unstakeNext`, ...), written
through `commitLifecycle`.
-/

namespace Rudis.ValidatorSet

open StateMachine

variable (X : Externals) (l : ValidatorLifecycle)

def registeredStatus : Result Nat :=
  okOr l.storedStatus (.fatal "Unregistered lifecycle has no persisted status")

/-! ### Calls driven by Staking -/

/-- Next lifecycle after a stake increase, and whether the validator became pending. -/
def stakeIncreaseNext (bonded minimum : Nat) : Result (ValidatorLifecycle × Bool) :=
  let stake : StakeProjection := ⟨bonded, l.unbondingEndHint⟩
  match l with
  | .absent => throw (.revert "cannot stake before validator registration")
  | .inactive _ => throw (.revert "inactive validator must re-register before staking")
  | .exiting _ | .unbonding _ =>
    throw (.revert "cannot increase stake while validator is exiting or unbonding")
  | .waitingForStake waiting =>
    if bonded ≥ minimum then do
      let ready ← reachMinimum waiting stake minimum
      pure (.waitingForReadiness ready, true)
    else (·, false) <$> withStake l stake
  | l => (·, false) <$> withStake l stake

/-- Mirrors a stake increase; reaching the minimum admits a registered validator. -/
def recordStakeIncrease (addr : Address) (bonded minimum : Nat) : Call Store Unit := do
  let before ← readState X addr
  let (next, becamePending) ← ofExcept (stakeIncreaseNext before.lifecycle bonded minimum)
  commitLifecycle before next becamePending

/-- Next lifecycle after a voluntary withdrawal, and whether the set changed. -/
def unstakeNext (bonded minimum unbondingEndHint height : Nat) :
    Result (ValidatorLifecycle × Bool) :=
  let stake : StakeProjection := ⟨bonded, nonZero unbondingEndHint⟩
  match l with
  | .absent => throw (.revert "validator not registered")
  | .inactive _ => throw (.revert "validator is inactive")
  | .waitingForReadiness waiting =>
    if bonded < minimum then do
      let s ← demoteWaitingForReadiness waiting stake minimum
      pure (.waitingForStake s, true)
    else (·, false) <$> withStake l stake
  | .joining joining =>
    if bonded < minimum then do
      let s ← demoteJoining joining stake minimum
      pure (.waitingForStake s, true)
    else (·, false) <$> withStake l stake
  | .active active =>
    if bonded < minimum then do
      let s ← beginExit active stake height
      pure (.exiting s, true)
    else (·, false) <$> withStake l stake
  | .jailRetained jailed =>
    if bonded = 0 then do
      let s ← fullExitJailedRetained jailed stake
      pure (.exiting s, true)
    else (·, false) <$> withStake l stake
  | .jail jailed =>
    if bonded = 0 then do
      let s ← fullExitJailed jailed stake
      pure (.unbonding s, false)
    else (·, false) <$> withStake l stake
  | l => (·, false) <$> withStake l stake

variable (env : BlockEnv) (addr : Address)

/-- Mirrors a voluntary withdrawal. -/
def recordUnstake (bonded minimum unbondingEndHint : Nat) : Call Store Unit := do
  let before ← readState X addr
  let (next, setChange) ← ofExcept
    (unstakeNext before.lifecycle bonded minimum unbondingEndHint env.blockNumber)
  commitLifecycle before next setChange

/-- Next lifecycle after a stake slash, and whether the set changed. -/
def stakeSlashNext (bonded minimum : Nat)
    (unbondingEndHint : Option Nat) (height : Nat) :
    Result (ValidatorLifecycle × Bool) :=
  let stake : StakeProjection := ⟨bonded, unbondingEndHint.or l.unbondingEndHint⟩
  match l with
  | .absent => throw (.revert "validator not registered")
  | .inactive _ => throw (.revert "validator is inactive")
  | .waitingForReadiness waiting =>
    if minimum ≠ 0 ∧ bonded < minimum then do
      let s ← demoteWaitingForReadiness waiting stake minimum
      pure (.waitingForStake s, true)
    else (·, false) <$> withStake l stake
  | .joining joining =>
    if minimum ≠ 0 ∧ bonded < minimum then do
      let s ← demoteJoining joining stake minimum
      pure (.waitingForStake s, true)
    else (·, false) <$> withStake l stake
  | .active active =>
    if minimum ≠ 0 ∧ bonded < minimum then do
      let s ← beginExit active stake height
      pure (.exiting s, true)
    else (·, false) <$> withStake l stake
  | l => (·, false) <$> withStake l stake

def recordStakeSlash (bonded minimum : Nat) (unbondingEndHint : Option Nat) : Call Store Unit := do
  let before ← readState X addr
  let (next, setChange) ← ofExcept
    (stakeSlashNext before.lifecycle bonded minimum unbondingEndHint env.blockNumber)
  commitLifecycle before next setChange

/-- Completes the economic exit of an unbonding validator; no-op in any other state. -/
def completeUnbonding (addr : Address) : Call Store Unit := do
  let before ← readState X addr
  match before.lifecycle with
  | .unbonding unbonding => do
    let cleared ← ofExcept do
      requireCanonicalStake ⟨before.lifecycle.bondedStake, none⟩
      pure { unbonding with stake := ⟨before.lifecycle.bondedStake, none⟩ }
    let inactive ← ofExcept (StateMachine.completeUnbonding cleared)
    commitLifecycle before (.inactive inactive) false
  | _ => pure ()

/-- Returns a jailed validator to the readiness path. -/
def unjailAfterStakeCheck : Call Store Unit := do
  let before ← readState X addr
  let jailed ← ofExcept (jailedOf before.lifecycle)
  let cooldown ← reads (·.configUnjailCooldownBlocks)
  let pending ← ofExcept (unjail jailed env.blockNumber cooldown before.lifecycle.bondedStake)
  commitLifecycle before (.waitingForReadiness pending) true
where
  jailedOf : ValidatorLifecycle → Result JailPayload
    | .jail jailed => pure jailed
    | .jailRetained _ =>
      throw (.revert "jailed validator is still retained in the current committee")
    | .absent => throw (.revert "validator not registered")
    | l => do
      let status ← registeredStatus l
      throw (.revert ("unjailValidator requires JAILED status, got " ++ toString status))

/-! ### OCOMP recovery windows -/

inductive OcompMissRecord where
  | opened (missCount recoveryDeadline : Nat)
  | repeated (missCount recoveryDeadline : Nat)

/-- Writes a recovery deadline; zero closes the window. -/
def writeRecoveryDeadline (deadline : Nat) : Call Store Unit :=
  modify fun vs => { vs with ocomp := { vs.ocomp with
    recoveryDeadline := update vs.ocomp.recoveryDeadline addr deadline } }

def writeMissCount (missCount : Nat) : Call Store Unit :=
  modify fun vs => { vs with ocomp := { vs.ocomp with
    missCount := update vs.ocomp.missCount addr missCount } }

/-- The window part of a miss: the first one opens it, later ones leave it. -/
def openOrRepeat (missCount existingDeadline : Nat) : Call Store OcompMissRecord :=
  if existingDeadline = 0 then do
    let deadline ← ofExcept (okOr (checkedAdd 64 env.blockNumber ocompRecoveryWindowBlocks)
      (.fatal "OCOMP recovery deadline overflow"))
    writeRecoveryDeadline addr deadline
    pure (.opened missCount deadline)
  else pure (.repeated missCount existingDeadline)

/-- Records one missing OCOMP result vote of an active validator. -/
def recordOcompMiss : Call Store OcompMissRecord := do
  let state ← readState X addr
  failIf (state.lifecycle.isActiveStatus = false)
    (.revert "OCOMP miss requires an active validator")
  let previous ← reads (·.ocomp.missCount addr)
  let missCount ← ofExcept (okOr (checkedAdd 64 previous 1) (.fatal "OCOMP miss count overflow"))
  let existingDeadline ← reads (·.ocomp.recoveryDeadline addr)
  checkpoint do
    writeMissCount addr missCount
    openOrRepeat env addr missCount existingDeadline

/-- Mirrors the bonded stake after the one OCOMP recovery slash. -/
def recordOcompBondedSlash (bonded : Nat) : Call Store Unit := do
  let deadline ← reads (·.ocomp.recoveryDeadline addr)
  failIf (deadline = 0) (.revert "OCOMP bonded slash requires an open recovery window")
  let before ← readState X addr
  failIf (before.lifecycle.isActiveStatus = false)
    (.revert "OCOMP bonded slash requires an active validator")
  let next ← ofExcept (withStake before.lifecycle ⟨bonded, before.lifecycle.unbondingEndHint⟩)
  commitLifecycle before next false

/-- Closes one due window. -/
def resolveOcompRecoveryWindow (recoveryDeadline : Nat) : Call Store Unit := do
  let deadline ← reads (·.ocomp.recoveryDeadline addr)
  failIf (deadline ≠ recoveryDeadline) (.fatal "OCOMP recovery resolution deadline mismatch")
  checkpoint (writeRecoveryDeadline addr 0)

/-! ### Validator and fault calls -/

/-- Stores an accepted OCOMP registration and reserves its key. -/
def writeOcompRegistration (encoded : List UInt8) (keyHash : B256) : Call Store Unit :=
  modify fun vs => { vs with ocomp := { vs.ocomp with
    registration := update vs.ocomp.registration addr encoded
    keyHashToValidator := update vs.ocomp.keyHashToValidator keyHash addr } }

/-- `keccak256` of a compressed SEC1 key. -/
def ocompKeyHash (key : BitVec 264) : B256 := X.keccak256 (beBytes 33 key.toNat)

/-- A pinned OCOMP key may not change. -/
def checkPinnedKey (caller : Address) (keyHash : B256) :
    Option OcompKeyRegistration → Call Store Unit
  | none => pure ()
  | some existing => do
    let pinned := ocompKeyHash X existing.ocompPublicKeySec1
    failIf (pinned ≠ keyHash) (.revert "OCOMP public key is immutable in key_epoch 1")
    let owner ← reads (·.ocomp.keyHashToValidator pinned)
    failIf (owner ≠ caller) (.fatal "OCOMP key reservation is inconsistent")

/-- A pending joiner confirms that its node is ready. -/
def confirmValidatorReady (env : BlockEnv) (caller : Address) (encoded : List UInt8) :
    Call Store Unit := do
  let before ← readState X caller
  let next ← ofExcept (readyNext before.lifecycle)
  let registration ← ofExcept ((X.decodeOcompRegistration encoded).mapError
    fun error => .revert ("invalid OCOMP registration: " ++ error))
  failIf (registration.chainId ≠ env.chainId) (.revert "OCOMP registration chain id mismatch")
  failIf (registration.genesisHash ≠ env.genesisHash)
    (.revert "OCOMP registration genesis hash mismatch")
  let pubkey ← ofExcept (okOr before.lifecycle.consensusPubkey
    (.fatal "registered validator is missing consensus pubkey"))
  let identity ← ofExcept ((X.validatorIdentityHashV1 caller pubkey).mapError
    fun error => .fatal ("validator identity hash: " ++ error))
  failIf (registration.validatorIdentityHash ≠ identity)
    (.revert "OCOMP registration validator identity mismatch")
  let existing ← query fun vs => ocompRegistration X vs caller
  let keyHash := ocompKeyHash X registration.ocompPublicKeySec1
  checkPinnedKey X caller keyHash existing
  let owner ← reads (·.ocomp.keyHashToValidator keyHash)
  failIf (owner ≠ 0 ∧ owner ≠ caller)
    (.revert "OCOMP public key already registered by another validator")
  checkpoint do
    writeOcompRegistration caller encoded keyHash
    commitLifecycle before next true
where
  readyNext : ValidatorLifecycle → Result ValidatorLifecycle
    | .waitingForReadiness waiting => pure (.joining waiting)
    | .joining joining => pure (.joining joining)
    | .absent => throw (.revert "validator not registered")
    | l => do
      let status ← registeredStatus l
      throw (.revert ("confirmValidatorReady requires PENDING status, got " ++ toString status))

/-- Voluntary deactivation: `Active` to `Exiting`. -/
def deactivateValidator (caller addr : Address) : Call Store Unit := do
  let owner ← reads (·.configOwner)
  failIf (caller ≠ owner ∧ caller ≠ addr)
    (.revert "unauthorized: caller must be owner or validator itself")
  let before ← readState X addr
  let active ← ofExcept (activeOf before.lifecycle)
  let next ← ofExcept (beginExit active active.stake env.blockNumber)
  commitLifecycle before (.exiting next) true
where
  activeOf : ValidatorLifecycle → Result Payload
    | .active active => pure active
    | .absent => throw (.revert "validator not registered")
    | _ => throw (.revert "can only deactivate an active validator")

/-- Report of a committed punishment. -/
structure DeferredValidatorPunishment where
  addr : Address
  target : Nat
  jailed : Bool
  blockNumber : Nat

/-- The state an active validator is punished into. -/
def punishTarget (active : Payload) (jailIt : Bool) (blockNumber : Nat) :
    Result ValidatorLifecycle :=
  if jailIt then ValidatorLifecycle.jailRetained <$> jail active blockNumber
  else ValidatorLifecycle.exiting <$> beginExit active active.stake blockNumber

/-- What a punishment does to a state: the next state of an active validator, nothing for one
already on its way out, an error for the rest. -/
def punishNext (jailIt : Bool) (blockNumber : Nat) : Result (Option ValidatorLifecycle) :=
  match l with
  | .absent => throw (.revert "validator not registered")
  | .active active => do
    let next ← punishTarget active jailIt blockNumber
    let slashCount ← okOr (checkedAdd 64 active.history.slashCount 1)
      (.fatal "slash count overflow")
    some <$> withHistory next { active.history with
      lastDeactivatedAtHeight := some blockNumber, slashCount }
  | .jailRetained _ | .jail _ => if jailIt then pure none else refuse
  | .exiting _ | .unbonding _ | .inactive _ => pure none
  | _ => refuse
where
  refuse : Result (Option ValidatorLifecycle) := do
    let status ← registeredStatus l
    throw (.revert ("cannot " ++ (if jailIt then "jail" else "force-exit") ++
      " validator with status " ++ toString status ++
      ": only ACTIVE, EXITING, UNBONDING, or INACTIVE allowed"))

/-- Shared punitive transition of `force_exit_validator` and `jail_validator`. -/
def punishValidator (jailIt : Bool) : Call Store (Option DeferredValidatorPunishment) := do
  let before ← readState X addr
  let next ← ofExcept (punishNext before.lifecycle jailIt env.blockNumber)
  match next with
  | none => pure none
  | some next => do
    commitLifecycle before next true
    pure (some ⟨addr, if jailIt then statusJailed else statusExiting, jailIt, env.blockNumber⟩)

/-- Forces a validator out of consensus. -/
def forceExitValidator : Call Store Unit := do
  let _ ← punishValidator X env addr false
  pure ()

def jailValidator : Call Store Unit := do
  let _ ← punishValidator X env addr true
  pure ()

/-- The jail transition with its report left to the caller. -/
def jailValidatorDeferred : Call Store (Option DeferredValidatorPunishment) :=
  punishValidator X env addr true

/-- Jails an active validator whose TEE lease expired, without a slash. -/
def jailValidatorForTeeExpiry : Call Store Bool := do
  let before ← readState X addr
  let next ← ofExcept (expiryNext before.lifecycle env.blockNumber)
  match next with
  | none => pure false
  | some next => do
    commitLifecycle before next true
    pure true
where
  expiryNext (l : ValidatorLifecycle) (blockNumber : Nat) : Result (Option ValidatorLifecycle) :=
    match l with
    | .active active => (some <| .jailRetained ·) <$> jail active blockNumber
    | .jailRetained _ | .jail _ => pure none
    | .absent => throw (.revert "validator not registered")
    | l => do
      let status ← registeredStatus l
      throw (.fatal ("TEE expiry sweep selected validator with ineligible status " ++
        toString status))

/-! ### Counters -/

/-- Adds one to a counter of a current consensus participant. -/
def recordProposer : Call Store Unit := do
  let participant ← query fun vs => isConsensusParticipant X vs addr
  failIf (participant = false) (.revert "proposer is not a current consensus participant")
  let proposed ← reads (·.val addr |>.blocksProposed)
  let proposed ← ofExcept (okOr (checkedAdd 64 proposed 1) (.fatal "blocks proposed overflow"))
  writeVal addr ({ · with blocksProposed := proposed })

/-- The post-execution hook: only a registered beneficiary is recorded. -/
def recordProposerHook (beneficiary : Address) : Call Store Unit := do
  let registered ← query fun vs => isValidator X vs beneficiary
  when (registered = true) (recordProposer X beneficiary)

def addMissedVote : Call Store Unit := do
  let missed ← reads (·.val addr |>.missedVotes)
  let missed ← ofExcept (okOr (checkedAdd 64 missed 1) (.fatal "missed votes overflow"))
  writeVal addr ({ · with missedVotes := missed })

/-- Vote participation of a historical committee: every address must be registered. -/
def recordFinalizedParticipation (voters absent : List Address) : Call Store Unit := do
  voters.forM fun addr => do
    let registered ← query fun vs => isValidator X vs addr
    failIf (registered = false) (.revert "finalized voter is not a registered validator")
  absent.forM fun addr => do
    let registered ← query fun vs => isValidator X vs addr
    failIf (registered = false) (.revert "finalized absent voter is not a registered validator")
    addMissedVote addr

def writeGuard (f : ParticipationGuard → ParticipationGuard) : Call Store Unit :=
  modify fun vs => { vs with guard := f vs.guard }

/-- Marks a finalized block as recorded and prunes the guard of an older one. -/
def recordGuard (fbHash : B256) : Call Store Unit := do
  writeGuard fun g => { g with recorded := update g.recorded fbHash true }
  let seq ← reads (·.guard.ringSeq)
  let idx := seq % finalizedParticipationRetain
  let evicted ← reads (·.guard.ring idx)
  when (evicted ≠ 0 ∧ evicted ≠ fbHash)
    (writeGuard fun g => { g with recorded := update g.recorded evicted false })
  writeGuard fun g => { g with ring := update g.ring idx fbHash }
  let next ← ofExcept
    (okOr (checkedAdd 64 seq 1) (.fatal "finalized participation ring sequence overflow"))
  writeGuard fun g => { g with ringSeq := next }

/-- The idempotent hook around `recordFinalizedParticipation`. -/
def recordFinalizedParticipationHook (fbHash : B256) (voters absent : List Address) :
    Call Store Unit := do
  let recorded ← reads (·.guard.recorded fbHash)
  when (¬ (voters = [] ∧ absent = []) ∧ recorded = false) do
    recordFinalizedParticipation X voters absent
    recordGuard fbHash

/-- Resets the per-epoch counters of the outgoing committee. -/
def resetEpochCounters : Call Store Unit := do
  let addresses ← query registeredValidatorAddresses
  addresses.forM fun addr => do
    let l ← query fun vs => validatorLifecycle X vs addr
    when (l.isCurrentConsensusParticipant = true)
      (writeVal addr ({ · with missedBlocks := 0, missedVotes := 0, blocksProposed := 0 }))

/-! ### The boundary -/

/-- The exclusions of a boundary are unique, non-zero, registered and not in the new set. -/
def checkExclusions (vs : Store) (newActiveSet : List Address) :
    List Address → List Address → Result Unit
  | _, [] => pure ()
  | seen, address :: rest => do
    throwIf (address = 0 ∨ address ∈ seen)
      (.fatal "TEE expiry exclusions must contain unique non-zero validators")
    throwIf (address ∈ newActiveSet)
      (.fatal "TEE-expired validator is also present in the new active set")
    throwIf (vs.registry.addressToIndex address = 0)
      (.fatal "TEE expiry exclusions contain unregistered validator")
    checkExclusions vs newActiveSet (address :: seen) rest

/-- Next lifecycle of one registered validator at a boundary. The source's `expire_*`,
`retain_active_at_boundary` and `exclude_exiting_at_boundary` carry the payload over unchanged. -/
def boundaryNext (included teeExpired : Bool)
    (admitted : Result (Option OcompKeyRegistration)) (freezeHeight : Nat) :
    Result ValidatorLifecycle :=
  match l, included, teeExpired with
  | .active active, false, true => pure (.waitingForReadiness active)
  | .joining joining, false, true => pure (.waitingForReadiness joining)
  | .waitingForReadiness waiting, false, true => pure (.waitingForReadiness waiting)
  | .joining joining, true, false => do
    let registration ← admitted
    throwIf registration.isNone
      (.fatal "certified active set contains validator without OCOMP admission")
    pure (.active (activateAtBoundary joining))
  | .active active, true, false => pure (.active active)
  | .active _, false, false => throw (.fatal "validated boundary omitted active validator")
  | .exiting exiting, true, false => do
    let changedAt ← okOr exiting.history.lastDeactivatedAtHeight
      (.fatal "exiting validator has no deactivation height")
    throwIf (changedAt ≤ freezeHeight)
      (.fatal "validated boundary retained validator that exited before freeze")
    pure (.exiting exiting)
  | .exiting exiting, false, false => do
    let changedAt ← okOr exiting.history.lastDeactivatedAtHeight
      (.fatal "exiting validator has no deactivation height")
    throwIf (changedAt > freezeHeight)
      (.fatal "validated boundary omitted validator that exited after freeze")
    pure (.unbonding exiting)
  | .jailRetained jailed, true, false => do
    throwIf (jailed.jailedAt ≤ freezeHeight)
      (.fatal "validated boundary retained validator jailed before freeze")
    pure (.jailRetained jailed)
  | .jailRetained jailed, false, false => do
    throwIf (jailed.jailedAt > freezeHeight)
      (.fatal "validated boundary omitted validator jailed after freeze")
    pure (.jail (excludeJailedAtBoundary jailed))
  | l, false, false => pure l
  | l, true, false => do
    let status ← registeredStatus l
    throw (.fatal ("validated boundary included ineligible validator with status " ++
      toString status))
  | l, _, true => do
    let status ← registeredStatus l
    throw (.fatal ("TEE expiry exclusion contains validator with ineligible status " ++
      toString status))

/-- One planned transition, before and after. -/
def planTransition (vs : Store) (newActiveSet : List Address) (freezeHeight : Nat)
    (exclusions : List Address) (before : ValidatorState) :
    Result (ValidatorState × ValidatorState) := do
  let next ← boundaryNext before.lifecycle (decide (before.address ∈ newActiveSet))
    (decide (before.address ∈ exclusions)) (ocompRegistration X vs before.address) freezeHeight
  let after ← before.withLifecycle next
  pure (before, after)

/-- Every transition of a boundary, planned before the first write. -/
def planBoundary (vs : Store) (newActiveSet : List Address) (freezeHeight : Nat)
    (exclusions : List Address) : Result (List (ValidatorState × ValidatorState)) :=
  do
    let addresses ← registeredValidatorAddresses vs
    let states ← addresses.mapM (validatorState X vs)
    states.mapM (planTransition X vs newActiveSet freezeHeight exclusions)

/-- The participants a plan ends with. -/
def plannedParticipants (transitions : List (ValidatorState × ValidatorState)) : List Address :=
  (transitions.filter fun t => t.2.lifecycle.isCurrentConsensusParticipant).map (·.2.address)

/-- States that keep the pending flag up after a boundary. -/
def ValidatorLifecycle.isPendingAfterBoundary : ValidatorLifecycle → Bool
  | .waitingForReadiness _ | .joining _ | .exiting _ | .jailRetained _ => true
  | _ => false

def applyResharedSet (newActiveSet : List Address) (activeSetHash : B256) (freezeHeight : Nat)
    (exclusions : List Address) : Call Store Unit := do
  failIf (newActiveSet.length ≥ 2 ^ 32) (.revert "active set count exceeds u32")
  let transitions ← query fun vs => planBoundary X vs newActiveSet freezeHeight exclusions
  let planned := plannedParticipants transitions
  failIf (newActiveSet.dedup.length ≠ newActiveSet.length ∨
      planned.length ≠ newActiveSet.length ∨ planned.any (· ∉ newActiveSet) = true)
    (.fatal "validated boundary participant membership mismatch")
  checkpoint do
    transitions.forM fun t => persistValidatorStateDelta t.1 t.2
    modify fun vs => { vs with activeConsensusSetHash := activeSetHash }
    writePendingSetChange (transitions.any (·.2.lifecycle.isPendingAfterBoundary))

/-- Applies a validated boundary and its certified TEE-expiry exclusions. -/
def activateValidatedBoundarySetWithExpiryExclusions (newActiveSet : List Address)
    (activeSetHash : B256) (freezeHeight : Nat) (exclusions : List Address) :
    Call Store Unit :=
  if exclusions = [] then applyResharedSet X newActiveSet activeSetHash freezeHeight []
  else do
    failIf (exclusions.length > maxTeeExpiredTargetExclusions)
      (.fatal "TEE expiry exclusions exceed protocol cap")
    query fun vs => checkExclusions vs newActiveSet [] exclusions
    applyResharedSet X newActiveSet activeSetHash freezeHeight exclusions

/-! ### Registry cleanup -/

/-- Clears the slots of one validator. The OCOMP key and its reservation stay on purpose. -/
def clearValidatorStorage : Call Store Unit := do
  let pubkey ← reads fun vs => (vs.val addr).readConsensusPubkey
  writeRegistry (·.setKeyOwner (consensusPubkeyHash X pubkey) 0)
  let nodeId ← reads (·.registry.radicleNodeId addr)
  when (nodeId ≠ 0) (writeRegistry fun r => { r with
    radicleNodeIdToValidator := update r.radicleNodeIdToValidator nodeId 0 })
  writeRegistry fun r => { r with radicleNodeId := update r.radicleNodeId addr 0 }
  writeVal addr fun s => { s.writeConsensusPubkey 0 with
    stake := 0, status := 0, slashCount := 0, missedBlocks := 0, missedVotes := 0
    blocksProposed := 0, joinedAtHeight := 0, deactivatedAtHeight := 0, unbondingEnd := 0
    hasBlsShare := false, p2pAddressVersion := 0, p2pAddressPayload := []
    joinConfirmed := false, jailedAtHeight := 0 }
  writeMissCount addr 0
  writeRecoveryDeadline addr 0

/-- Whether an entry is inactive, past its cooldown and without an open recovery window. -/
def cleanupDue (cooldown : Nat) (vs : Store) (addr : Address) : Result Bool := do
  let state ← validatorState X vs addr
  match state.lifecycle with
  | .inactive inactive => do
    let deactivatedAt ← okOr inactive.history.lastDeactivatedAtHeight
      (.fatal "inactive validator has no deactivation height")
    let cleanupAt ← okOr (checkedAdd 64 deactivatedAt cooldown)
      (.fatal "inactive cleanup height overflow")
    pure (decide (cleanupAt ≤ env.blockNumber ∧ vs.ocomp.recoveryDeadline addr = 0))
  | _ => pure false

/-- Moves the last entry into slot `i` and drops the last slot and the removed address. -/
def swapRemove (i count : Nat) (addr : Address) : Call Store Unit := do
  let lastAddr ← reads (·.registry.indexToAddress count)
  when (i < count) (writeRegistry (·.setIndex lastAddr i))
  writeRegistry fun r => { r with indexToAddress := update r.indexToAddress count 0 }
  writeRegistry fun r => { r with addressToIndex := update r.addressToIndex addr 0 }

/-- The scan. Each round either advances `i` or shrinks `count`, so it ends after as many rounds
as there are entries. -/
def cleanupLoop (env : BlockEnv) (maxRemovals cooldown : Nat) :
    Nat → Nat → Nat → Nat → Call Store (Nat × Nat)
  | 0, _, count, removed => pure (count, removed)
  | rounds + 1, i, count, removed =>
    if i > count ∨ (maxRemovals > 0 ∧ removed ≥ maxRemovals) then pure (count, removed)
    else do
      let addr ← reads (·.registry.indexToAddress i)
      if addr = 0 then cleanupLoop env maxRemovals cooldown rounds (i + 1) count removed
      else do
        let due ← query fun vs => cleanupDue X env cooldown vs addr
        if due then do
          clearValidatorStorage X addr
          swapRemove i count addr
          cleanupLoop env maxRemovals cooldown rounds i (count - 1) (removed + 1)
        else cleanupLoop env maxRemovals cooldown rounds (i + 1) count removed

/-- Removes inactive entries from the registry; returns how many. -/
def cleanupInactiveValidators (maxRemovals : Nat) : Call Store Nat :=
  checkpoint do
    let count ← reads (·.registry.validatorCount)
    let cooldown ← reads (·.configReregistrationCooldown)
    let (count, removed) ← cleanupLoop X env maxRemovals cooldown count 1 count 0
    writeRegistry ({ · with validatorCount := count })
    pure removed

end Rudis.ValidatorSet

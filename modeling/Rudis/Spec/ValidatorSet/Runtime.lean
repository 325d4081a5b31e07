import Rudis.Spec.ValidatorSet.Store

/-!
# `Rudis.Spec.ValidatorSet.Runtime`: the state-changing calls of the ValidatorSet contract

The functions of `runtime.rs`, `delegation.rs` and `hooks.rs`. Where the source opens a
`checkpoint_guard`, the body up to its `commit` runs under `Tx.checkpoint`. Events, metrics, logs
and the slashing journal leave no trace in storage and are left out.
-/

namespace Rudis.ValidatorSet

open StateMachine

/-- Unstaked self-registrations that may exist at once. -/
def maxSelfRegisteredUnstaked : Nat := 32

/-- Bound of every registry scan. -/
def consensusValidatorBound : Nat := 256

def ocompRecoveryWindowBlocks : Nat := 43200

/-- Cap on the TEE-expiry exclusions of one boundary. -/
def maxTeeExpiredTargetExclusions : Nat := 256

/-- Finalized blocks whose participation guard stays live. -/
def finalizedParticipationRetain : Nat := 64

/-! ### Writing a typed state -/

/-- The value of a slot after a delta write: written only when the typed value changed. -/
def ifChanged {α : Type} [DecidableEq α] (before after old : α) : α :=
  if before ≠ after then after else old

/-- The persisted P2P fields of a lifecycle. -/
def ValidatorLifecycle.storedP2p (l : ValidatorLifecycle) : Nat × List UInt8 :=
  (l.p2p.map P2pInfo.encodeStored).getD (0, [])

/-- One counter of a lifecycle's history, zero without a history. -/
def ValidatorLifecycle.storedHistory (l : ValidatorLifecycle) (field : ValidatorHistory → Nat) :
    Nat :=
  (l.history.map field).getD 0

/-- The persisted deactivation height of a lifecycle. -/
def ValidatorLifecycle.storedDeactivatedAt (l : ValidatorLifecycle) : Nat :=
  (l.history.bind (·.lastDeactivatedAtHeight)).getD 0

/-- The delta writes that follow the stake and the status. -/
def writeDelta (before after : ValidatorLifecycle) (s : ValidatorSlots) : ValidatorSlots :=
  { s with
    slashCount := ifChanged (before.storedHistory (·.slashCount))
      (after.storedHistory (·.slashCount)) s.slashCount
    missedBlocks := ifChanged (before.storedHistory (·.missedBlocks))
      (after.storedHistory (·.missedBlocks)) s.missedBlocks
    missedVotes := ifChanged (before.storedHistory (·.missedVotes))
      (after.storedHistory (·.missedVotes)) s.missedVotes
    blocksProposed := ifChanged (before.storedHistory (·.blocksProposed))
      (after.storedHistory (·.blocksProposed)) s.blocksProposed
    joinedAtHeight := ifChanged (before.storedHistory (·.joinedAtHeight))
      (after.storedHistory (·.joinedAtHeight)) s.joinedAtHeight
    deactivatedAtHeight := ifChanged before.storedDeactivatedAt after.storedDeactivatedAt
      s.deactivatedAtHeight
    unbondingEnd := ifChanged (before.unbondingEndHint.getD 0) (after.unbondingEndHint.getD 0)
      s.unbondingEnd
    hasBlsShare := ifChanged before.hasBlsShare after.hasBlsShare s.hasBlsShare
    joinConfirmed := ifChanged before.joinConfirmed after.joinConfirmed s.joinConfirmed
    jailedAtHeight := ifChanged before.storedJailedAt after.storedJailedAt s.jailedAtHeight
    p2pAddressVersion := if before.storedP2p ≠ after.storedP2p then after.storedP2p.1
      else s.p2pAddressVersion
    p2pAddressPayload := if before.storedP2p ≠ after.storedP2p then after.storedP2p.2
      else s.p2pAddressPayload }

def writeVal (addr : Address) (f : ValidatorSlots → ValidatorSlots) : Call Store Unit :=
  modify fun vs => vs.setVal addr (f (vs.val addr))

variable (before after : ValidatorState)

/-- The identity part of a registry write: the key, when it changed. -/
def persistIdentity : Call Store Unit := do
  let pubkey ← ofExcept (okOr after.lifecycle.consensusPubkey
    (.fatal "registered validator is missing consensus pubkey"))
  failIf (after.lifecycle.registryIndex.isNone)
    (.fatal "registered validator is missing registry index")
  when (before.lifecycle.consensusPubkey ≠ some pubkey)
    (writeVal after.address (·.writeConsensusPubkey pubkey))

/-- The status write, when it changed; an absent lifecycle has none. -/
def persistStatus : Call Store Unit :=
  when (before.lifecycle.storedStatus ≠ after.lifecycle.storedStatus) do
    let status ← ofExcept (okOr after.lifecycle.storedStatus
      (.fatal "generic validator persistence cannot write an absent lifecycle"))
    writeVal after.address ({ · with status })

/-- Writes only the changed fields of a decoded validator. -/
def persistValidatorStateDeltaInner (allowRegistryIdentityChange : Bool) : Call Store Unit := do
  ofExcept (before.lifecycle.validate before.address)
  ofExcept (after.lifecycle.validate after.address)
  failIf (before.address ≠ after.address ∨ (allowRegistryIdentityChange = false ∧
      (before.lifecycle.registryIndex ≠ after.lifecycle.registryIndex ∨
        before.lifecycle.consensusPubkey ≠ after.lifecycle.consensusPubkey)))
    (.fatal "validator lifecycle transition attempted to change registry identity")
  when (allowRegistryIdentityChange = true) (persistIdentity before after)
  writeVal after.address fun s => { s with
    stake := ifChanged before.lifecycle.bondedStake after.lifecycle.bondedStake s.stake }
  persistStatus before after
  writeVal after.address (writeDelta before.lifecycle after.lifecycle)

/-- Persists a transition that keeps the registry identity. -/
def persistValidatorStateDelta : Call Store Unit :=
  persistValidatorStateDeltaInner before after false

/-- Persists a registration, which owns the registry identity. -/
def persistRegistryStateDelta : Call Store Unit :=
  persistValidatorStateDeltaInner before after true

/-- Signals consensus that the set changed. -/
def writePendingSetChange (pending : Bool) : Call Store Unit :=
  modify fun vs => { vs with pendingSetChange := pending }

/-- The tail every lifecycle transition shares: validate the next state, persist it under a
checkpoint, and raise the pending flag when the transition asks for it. -/
def commitLifecycle (before : ValidatorState) (next : ValidatorLifecycle) (setChange : Bool) :
    Call Store Unit := do
  let after ← ofExcept (before.withLifecycle next)
  checkpoint do
    persistValidatorStateDelta before after
    when (setChange = true) (writePendingSetChange true)

variable (X : Externals)

/-- Reads the typed state of an address inside a call. -/
def readState (addr : Address) : Call Store ValidatorState :=
  query fun vs => validatorState X vs addr

/-! ### P2P -/

/-- Stores a validator's versioned P2P address. -/
def setP2pAddress (caller validatorAddr : Address) (version : Nat) (encoded : List UInt8) :
    Call Store Unit := do
  let owner ← reads (·.configOwner)
  failIf (caller ≠ owner ∧ caller ≠ validatorAddr)
    (.revert "unauthorized: caller must be owner or validator itself")
  let index ← reads (·.registry.addressToIndex validatorAddr)
  failIf (index = 0) (.revert "validator not registered")
  failIf (version ≠ p2pAddressVersionV1)
    (.revert ("unsupported p2p address version " ++ toString version))
  failIf (encoded.length > maxP2pAddressEncodedLen)
    (.revert ("p2p address payload exceeds max length " ++ toString maxP2pAddressEncodedLen))
  let decoded ← ofExcept ((decodeVersioned version encoded).mapError
    fun _ => .revert "invalid p2p address")
  let before ← readState X validatorAddr
  let lifecycle ← ofExcept (withP2p before.lifecycle (.v1 decoded))
  commitLifecycle before lifecycle false

/-! ### Operational delegates -/

/-- The explicit delegate of a validator for a role; zero when there is none. -/
def getDelegate (vs : Store) (validator : Address) (role : ValidatorDelegateRole) : Address :=
  vs.delegates.delegateByValidatorRole validator role

variable (validator : Address)

def ensureRegisteredValidator : Call Store Unit := do
  let record ← query fun vs => getValidator X vs validator
  failIf record.isNone (.revert "caller is not a registered validator")

/-- Fails for an address some validator uses as an operational key. -/
def ensureNotOperationalDelegate (address : Address) : Call Store Unit :=
  ValidatorDelegateRole.all.forM fun role => do
    let validator ← reads (·.delegates.validatorByRoleDelegate role address)
    failIf (validator ≠ 0)
      (.revert "validator address is already assigned as an operational delegate")

variable (role : ValidatorDelegateRole)

def writeForward (delegate : Address) : Call Store Unit :=
  modify fun vs =>
    let forward := vs.delegates.delegateByValidatorRole
    { vs with delegates := { vs.delegates with
        delegateByValidatorRole :=
          update forward validator (update (forward validator) role delegate) } }

def writeReverse (delegate validator : Address) : Call Store Unit :=
  modify fun vs =>
    let reverse := vs.delegates.validatorByRoleDelegate
    { vs with delegates := { vs.delegates with
        validatorByRoleDelegate :=
          update reverse role (update (reverse role) delegate validator) } }

/-- Assigns one operational key to a validator for one role. -/
def setDelegate (delegate : Address) : Call Store Unit := do
  ensureRegisteredValidator X validator
  failIf (delegate = 0) (.revert "delegate address must not be zero")
  failIf (delegate = validator) (.revert "delegate must differ from validator")
  let record ← query fun vs => getValidator X vs delegate
  failIf record.isSome (.revert "delegate must not be a registered validator")
  let assigned ← reads (·.delegates.validatorByRoleDelegate role delegate)
  failIf (assigned ≠ 0 ∧ assigned ≠ validator) (.revert "delegate already assigned for role")
  let previous ← reads (getDelegate · validator role)
  when (previous ≠ delegate) do
    when (previous ≠ 0) (writeReverse role previous 0)
    writeForward validator role delegate
    writeReverse role delegate validator

/-- Revokes a validator's explicit operational key for one role. -/
def revokeDelegate : Call Store Unit := do
  ensureRegisteredValidator X validator
  let previous ← reads (getDelegate · validator role)
  when (previous ≠ 0) do
    writeForward validator role 0
    writeReverse role previous 0

/-- The active validator a role-scoped signer speaks for. -/
def resolveValidatorForRole (vs : Store) (signer : Address) (role : ValidatorDelegateRole) :
    Result (Option Address) := do
  let record ← getValidator X vs signer
  match record with
  | some record =>
    if getDelegate vs signer role = 0 ∧ record.status = statusActive ∧ record.hasBlsShare then
      pure (some signer)
    else pure none
  | none =>
    let validator := vs.delegates.validatorByRoleDelegate role signer
    if validator = 0 ∨ getDelegate vs validator role ≠ signer then pure none
    else do
      let record ← getValidator X vs validator
      match record with
      | none => pure none
      | some record =>
        if record.status ≠ statusActive ∨ record.hasBlsShare = false then pure none
        else pure (some validator)

/-! ### Registration -/

def validatorRegistrationMessage (chainId : Nat) (validator : Address) (radicleNodeId : B256) :
    List UInt8 :=
  2 :: beBytes 8 chainId ++ beBytes 20 validator.toNat ++ beBytes 32 radicleNodeId.toNat

/-- Proof of possession of a consensus key. -/
def verifyBlsRegistrationSig (pubkey : ConsensusPubkey) (sig : BitVec 768) (chainId : Nat)
    (validatorAddr : Address) (radicleNodeId : B256) : Result Unit := do
  throwIf (X.blsPublicKeyOk pubkey = false) (.revert "invalid BLS public key")
  throwIf (X.blsSignatureOk sig = false) (.revert "invalid BLS signature")
  throwIf (X.blsVerify pubkey sig
      (validatorRegistrationMessage chainId validatorAddr radicleNodeId) = false)
    (.revert "invalid BLS registration signature")

variable (env : BlockEnv) (validatorAddr : Address) (pubkey : ConsensusPubkey)

variable (radicleNodeId : B256)

/-- Every runtime registration needs a proof of possession. -/
def verifyPossession (allowBootstrapWithoutPop : Bool) :
    Option (BitVec 768) → Result Unit
  | some sig => verifyBlsRegistrationSig X pubkey sig env.chainId validatorAddr radicleNodeId
  | none => throwIf (allowBootstrapWithoutPop = false)
      (.revert "validator registration requires BLS proof-of-possession signature")

def writeRegistry (f : Registry → Registry) : Call Store Unit :=
  modify fun vs => { vs with registry := f vs.registry }

/-- Writes the owner of a consensus key. -/
def Registry.setKeyOwner (r : Registry) (hash : B256) (owner : Address) : Registry :=
  { r with consensusPubkeyHashToAddress :=
      update r.consensusPubkeyHashToAddress hash owner }

/-- Writes one dense index in both directions. -/
def Registry.setIndex (r : Registry) (addr : Address) (index : Nat) : Registry :=
  { r with
    addressToIndex := update r.addressToIndex addr index
    indexToAddress := update r.indexToAddress index addr }

/-- Binds a Radicle NodeId to a validator. -/
def Registry.setRadicle (r : Registry) (addr : Address) (nodeId : B256) : Registry :=
  { r with
    radicleNodeId := update r.radicleNodeId addr nodeId
    radicleNodeIdToValidator := update r.radicleNodeIdToValidator nodeId addr }

/-- The cooldown of an inactive validator that registers again. -/
def checkReregistrationCooldown (cooldown blockNumber : Nat) (existing : ValidatorLifecycle) :
    Result Unit :=
  if cooldown = 0 then .ok ()
  else do
    let history ← okOr existing.history (.fatal "registered validator is missing history")
    match history.lastDeactivatedAtHeight with
    | none => pure ()
    | some height => do
      let readyAt ← okOr (checkedAdd 64 height cooldown)
        (.fatal "re-registration cooldown height overflow")
      throwIf (blockNumber < readyAt) (.revert "re-registration cooldown not expired")

/-- Re-registration: the dense index is kept, the identity material replaced. -/
def reregisterValidator (radicleOwner : Address) (existing : ValidatorState) : Call Store Unit :=
  match existing.lifecycle with
  | .inactive inactive => do
    let storedNodeId ← reads (·.registry.radicleNodeId validatorAddr)
    failIf (storedNodeId ≠ radicleNodeId)
      (.revert "inactive validator must keep its Radicle NodeId until final cleanup")
    failIf (radicleOwner ≠ validatorAddr)
      (.fatal "registered validator has inconsistent Radicle NodeId reverse binding")
    let cooldown ← reads (·.configReregistrationCooldown)
    ofExcept (checkReregistrationCooldown cooldown env.blockNumber existing.lifecycle)
    let fresh ← ofExcept (reregister inactive pubkey env.blockNumber)
    let after ← ofExcept (existing.withLifecycle (.waitingForStake fresh))
    let deadline ← reads (·.ocomp.recoveryDeadline validatorAddr)
    failIf (deadline ≠ 0) (.revert "cannot re-register while an OCOMP recovery window is open")
    checkpoint do
      writeRegistry (·.setKeyOwner (consensusPubkeyHash X inactive.consensusPubkey) 0)
      writeRegistry (·.setKeyOwner (consensusPubkeyHash X pubkey) validatorAddr)
      persistRegistryStateDelta existing after
      writePendingSetChange true
  | _ => revert "validator already registered"

/-- First registration: the next dense index. -/
def registerFirst (radicleOwner : Address) (existing : ValidatorState) : Call Store Unit := do
  let count ← reads (·.registry.validatorCount)
  let max ← reads (·.configMaxValidators)
  failIf (max > 0 ∧ count ≥ max) (.revert "max validators reached")
  let newIndex ← ofExcept (okOr (checkedAdd 32 count 1) (.fatal "validator count overflow"))
  let registered ← ofExcept (registerAt newIndex)
  checkpoint do
    failIf (radicleOwner = validatorAddr)
      (.fatal "unregistered validator retains a Radicle NodeId reservation")
    writeRegistry (·.setIndex validatorAddr newIndex)
    persistRegistryStateDelta existing registered
    writeRegistry (·.setKeyOwner (consensusPubkeyHash X pubkey) validatorAddr)
    writeRegistry (·.setRadicle validatorAddr radicleNodeId)
    writeRegistry ({ · with validatorCount := newIndex })
    writePendingSetChange true
where
  registerAt (newIndex : Nat) : Result ValidatorState :=
    if h : newIndex = 0 then .error (.fatal "validator registry index must be non-zero")
    else register existing ⟨newIndex, h⟩ pubkey env.blockNumber

/-- The cap on free, permissionless self-registrations. -/
def checkSelfRegistrationLimit (caller validatorAddr : Address) : Call Store Unit :=
  when (caller = validatorAddr) do
    let count ← query (registeredCount X)
    failIf (count ≥ maxSelfRegisteredUnstaked)
      (.revert ("self-registration limit reached: too many unstaked REGISTERED validators " ++
        "(owner may register directly)"))

/-- Chooses between first registration and re-registration. -/
def registerOrReregister (radicleOwner : Address) (existing : ValidatorState) : Call Store Unit :=
  if existing.lifecycle.registryIndex.isSome then
    reregisterValidator X env validatorAddr pubkey radicleNodeId radicleOwner existing
  else registerFirst X env validatorAddr pubkey radicleNodeId radicleOwner existing

def registerValidatorInner (caller validatorAddr : Address)
    (pubkey : ConsensusPubkey) (radicleNodeId : B256) (sig : Option (BitVec 768))
    (allowBootstrapWithoutPop : Bool) : Call Store Unit := do
  let owner ← reads (·.configOwner)
  failIf (pubkey = 0) (.revert "consensus public key must not be zero")
  failIf (caller ≠ owner ∧ caller ≠ validatorAddr)
    (.revert "unauthorized: caller must be owner or validator itself")
  ensureNotOperationalDelegate validatorAddr
  failIf (radicleNodeId = 0) (.revert "Radicle NodeId must not be zero")
  let radicleOwner ← reads (·.registry.radicleNodeIdToValidator radicleNodeId)
  failIf (radicleOwner ≠ 0 ∧ radicleOwner ≠ validatorAddr)
    (.revert "Radicle NodeId already registered by another validator")
  ofExcept (verifyPossession X env validatorAddr pubkey radicleNodeId allowBootstrapWithoutPop sig)
  checkSelfRegistrationLimit X caller validatorAddr
  let existingOwner ← reads (·.registry.consensusPubkeyHashToAddress (consensusPubkeyHash X pubkey))
  failIf (existingOwner ≠ 0 ∧ existingOwner ≠ validatorAddr)
    (.revert "BLS consensus pubkey already registered by another validator")
  let existing ← readState X validatorAddr
  registerOrReregister X env validatorAddr pubkey radicleNodeId radicleOwner existing

/-- Registers a validator with a proof of possession of its consensus key. -/
def registerValidatorWithSig (caller validatorAddr : Address)
    (pubkey : ConsensusPubkey) (radicleNodeId : B256) (sig : Option (BitVec 768)) :
    Call Store Unit :=
  registerValidatorInner X env caller validatorAddr pubkey radicleNodeId sig false

end Rudis.ValidatorSet

import Rudis.Spec.ConsensusP2p

/-!
# `Rudis.Spec.ValidatorSet.Lifecycle`: the validator state machine

The typed lifecycle of `state_machine/state.rs`, its transitions (`state_machine/mod.rs`) and the
adapter between the typed state and the raw storage fields (`state_machine/adapter.rs`). The
macro of the source builds its nine payload types from three field lists. They are `Payload`,
`JailPayload` and `NoStakePayload` here, and the constructor of `ValidatorLifecycle` says which
state a payload belongs to.
-/

namespace Rudis.ValidatorSet

/-- A 48-byte BLS12-381 MinPk public key. -/
abbrev ConsensusPubkey := BitVec 384

/-- A non-zero `u64`. -/
abbrev NonZeroU64 := { n : Nat // n ≠ 0 }

/-! ### Stable ABI status codes -/

@[match_pattern] def statusRegistered : Nat := 0
@[match_pattern] def statusPending : Nat := 1
@[match_pattern] def statusActive : Nat := 2
@[match_pattern] def statusExiting : Nat := 3
@[match_pattern] def statusUnbonding : Nat := 4
@[match_pattern] def statusInactive : Nat := 5
@[match_pattern] def statusJailed : Nat := 6

/-! ### State -/

/-- Versioned P2P information of a validator. -/
inductive P2pInfo where
  | unset
  | v1 (address : P2pAddress)
  | unknown (version : Nat) (payload : List UInt8)
  deriving DecidableEq

/-- The stake fields ValidatorSet mirrors from Staking. -/
structure StakeProjection where
  bonded : Nat
  unbondingEndHint : Option Nat
  deriving DecidableEq

def StakeProjection.zero : StakeProjection := ⟨0, none⟩

/-- Counters a registry entry keeps for its whole lifetime. -/
structure ValidatorHistory where
  joinedAtHeight : Nat
  lastDeactivatedAtHeight : Option Nat
  slashCount : Nat
  missedBlocks : Nat
  missedVotes : Nat
  blocksProposed : Nat
  deriving DecidableEq

namespace ValidatorHistory

def fresh (joinedAtHeight : Nat) : ValidatorHistory := ⟨joinedAtHeight, none, 0, 0, 0, 0⟩

/-- The same history with the current miss slate cleared. -/
def withMissedCountersCleared (h : ValidatorHistory) : ValidatorHistory :=
  { h with missedBlocks := 0, missedVotes := 0 }

/-- Nothing was ever recorded. -/
def isZero (h : ValidatorHistory) : Prop :=
  h.joinedAtHeight = 0 ∧ h.lastDeactivatedAtHeight = none ∧ h.slashCount = 0 ∧
    h.missedBlocks = 0 ∧ h.missedVotes = 0 ∧ h.blocksProposed = 0

instance (h : ValidatorHistory) : Decidable h.isZero := by unfold isZero; infer_instance

end ValidatorHistory

/-- Fields of a registered state with stake. -/
structure Payload where
  registryIndex : NonZeroU64
  consensusPubkey : ConsensusPubkey
  p2p : P2pInfo
  stake : StakeProjection
  history : ValidatorHistory
  deriving DecidableEq

/-- Fields of a jailed state. -/
structure JailPayload extends Payload where
  jailedAt : Nat
  deriving DecidableEq

/-- Fields of an inactive state, which has no stake. -/
structure NoStakePayload where
  registryIndex : NonZeroU64
  consensusPubkey : ConsensusPubkey
  p2p : P2pInfo
  history : ValidatorHistory
  deriving DecidableEq

/-- The canonical lifecycle of an address. -/
inductive ValidatorLifecycle where
  /-- Not registered; every validator-owned field is empty. -/
  | absent
  /-- `REGISTERED`: identity exists, not enough stake. -/
  | waitingForStake (s : Payload)
  /-- `PENDING`, readiness not confirmed. -/
  | waitingForReadiness (s : Payload)
  /-- `PENDING`, readiness confirmed. -/
  | joining (s : Payload)
  /-- `ACTIVE`: owns a live committee share. -/
  | active (s : Payload)
  /-- `JAILED`, the old share still accountable until the boundary. -/
  | jailRetained (s : JailPayload)
  /-- `JAILED`, the share cleared by a boundary. -/
  | jail (s : JailPayload)
  /-- `EXITING`: in the current committee until the boundary. -/
  | exiting (s : Payload)
  /-- `UNBONDING`: out of the committee, Staking drains its value. -/
  | unbonding (s : Payload)
  /-- `INACTIVE`: registry identity only. -/
  | inactive (s : NoStakePayload)
  deriving DecidableEq

/-- An address with its lifecycle. -/
structure ValidatorState where
  address : Address
  lifecycle : ValidatorLifecycle
  deriving DecidableEq

/-! ### Projections -/

namespace ValidatorLifecycle

/-- Persisted status byte; `none` for an absent address. -/
def storedStatus : ValidatorLifecycle → Option Nat
  | absent => none
  | waitingForStake _ => some statusRegistered
  | waitingForReadiness _ | joining _ => some statusPending
  | active _ => some statusActive
  | exiting _ => some statusExiting
  | unbonding _ => some statusUnbonding
  | inactive _ => some statusInactive
  | jailRetained _ | jail _ => some statusJailed

def hasBlsShare : ValidatorLifecycle → Bool
  | active _ | jailRetained _ | exiting _ => true
  | _ => false

def joinConfirmed : ValidatorLifecycle → Bool
  | joining _ => true
  | _ => false

def storedJailedAt : ValidatorLifecycle → Nat
  | jailRetained s | jail s => s.jailedAt
  | _ => 0

def isActiveStatus : ValidatorLifecycle → Bool
  | active _ => true
  | _ => false

def isRegisteredStatus : ValidatorLifecycle → Bool
  | waitingForStake _ => true
  | _ => false

def isCurrentConsensusParticipant : ValidatorLifecycle → Bool
  | active _ | exiting _ | jailRetained _ => true
  | _ => false

def registryIndex : ValidatorLifecycle → Option NonZeroU64
  | absent => none
  | waitingForStake s | waitingForReadiness s | joining s | active s | exiting s | unbonding s =>
    some s.registryIndex
  | jailRetained s | jail s => some s.registryIndex
  | inactive s => some s.registryIndex

def consensusPubkey : ValidatorLifecycle → Option ConsensusPubkey
  | absent => none
  | waitingForStake s | waitingForReadiness s | joining s | active s | exiting s | unbonding s =>
    some s.consensusPubkey
  | jailRetained s | jail s => some s.consensusPubkey
  | inactive s => some s.consensusPubkey

def p2p : ValidatorLifecycle → Option P2pInfo
  | absent => none
  | waitingForStake s | waitingForReadiness s | joining s | active s | exiting s | unbonding s =>
    some s.p2p
  | jailRetained s | jail s => some s.p2p
  | inactive s => some s.p2p

def stake : ValidatorLifecycle → Option StakeProjection
  | waitingForStake s | waitingForReadiness s | joining s | active s | exiting s | unbonding s =>
    some s.stake
  | jailRetained s | jail s => some s.stake
  | absent | inactive _ => none

def history : ValidatorLifecycle → Option ValidatorHistory
  | absent => none
  | waitingForStake s | waitingForReadiness s | joining s | active s | exiting s | unbonding s =>
    some s.history
  | jailRetained s | jail s => some s.history
  | inactive s => some s.history

/-- Bonded stake; zero for a state without stake. -/
def bondedStake (l : ValidatorLifecycle) : Nat := (l.stake.map (·.bonded)).getD 0

def unbondingEndHint (l : ValidatorLifecycle) : Option Nat := l.stake.bind (·.unbondingEndHint)

end ValidatorLifecycle

/-! ### Validation -/

variable (address : Address)

/-- A coupled-field combination outside the state machine. -/
def corruptState (detail : String) : PrecompileError :=
  .fatal ("corrupt validator state for 0x" ++ address.toHex ++ ": " ++ detail)

variable (stake : StakeProjection)

def validateHint : Result Unit :=
  throwIf (stake.unbondingEndHint = some 0)
    (corruptState address "unbonding-end hint uses a non-canonical zero sentinel")

/-- The hint check of a state that may have no stake. -/
def validateStake : Option StakeProjection → Result Unit
  | some stake => validateHint address stake
  | none => .ok ()

/-- The part of `validate` that depends on which state it is. -/
def ValidatorLifecycle.validateVariant :
    ValidatorLifecycle → Result Unit
  | .active s => throwIf (s.history.lastDeactivatedAtHeight.isSome)
      (corruptState address "active validator retains a deactivation height")
  | .exiting s => throwIf (s.history.lastDeactivatedAtHeight.isNone)
      (corruptState address "exiting validator is missing its deactivation height")
  | .unbonding s => throwIf (s.history.lastDeactivatedAtHeight.isNone)
      (corruptState address "unbonding validator is missing its deactivation height")
  | .inactive s => throwIf (s.history.lastDeactivatedAtHeight.isNone)
      (corruptState address "inactive validator is missing its deactivation height")
  | .jailRetained s =>
    throwIf (s.jailedAt = 0 ∨ s.history.lastDeactivatedAtHeight ≠ some s.jailedAt)
      (corruptState address "retained jail height and history deactivation height disagree")
  | .jail s => throwIf (s.jailedAt = 0 ∨ s.history.lastDeactivatedAtHeight ≠ some s.jailedAt)
      (corruptState address "jail height and history deactivation height disagree")
  | _ => .ok ()

/-- Every coupled-field rule of a typed state. -/
def ValidatorLifecycle.validate (l : ValidatorLifecycle) : Result Unit := do
  throwIf (l.consensusPubkey = some 0) (corruptState address "registered validator has a zero key")
  validateStake address l.stake
  throwIf (l.history.bind (·.lastDeactivatedAtHeight) = some 0)
    (corruptState address "deactivation height uses a non-canonical zero sentinel")
  l.validateVariant address

variable (lifecycle : ValidatorLifecycle)

def ValidatorState.fromLifecycle : Result ValidatorState := do
  lifecycle.validate address
  pure ⟨address, lifecycle⟩

/-- The same address with another lifecycle, validated. -/
def ValidatorState.withLifecycle (state : ValidatorState) (lifecycle : ValidatorLifecycle) :
    Result ValidatorState :=
  fromLifecycle state.address lifecycle

/-! ### Transitions -/

namespace StateMachine

def requireCanonicalStake : Result Unit :=
  throwIf (stake.unbondingEndHint = some 0)
    (.fatal "unbonding-end hint must not use the zero sentinel")

def requireAtLeastMinimum (minimum : Nat) : Result Unit := do
  requireCanonicalStake stake
  throwIf (stake.bonded < minimum)
    (.revert ("bonded stake " ++ toString stake.bonded ++ " is below minimum " ++ toString minimum))

def requireBelowMinimum (minimum : Nat) : Result Unit := do
  requireCanonicalStake stake
  throwIf (stake.bonded ≥ minimum)
    (.revert ("bonded stake " ++ toString stake.bonded ++ " has not fallen below minimum " ++
      toString minimum))

def requireFullyUnstaked : Result Unit := do
  requireCanonicalStake stake
  throwIf (stake.bonded ≠ 0) (.revert "jailed validator must fully unstake before permanent exit")

/-- First registration of an absent address. -/
def register (state : ValidatorState) (registryIndex : NonZeroU64)
    (consensusPubkey : ConsensusPubkey) (joinedAtHeight : Nat) :
    Result ValidatorState := do
  throwIf (state.lifecycle ≠ .absent) (.revert "validator is already registered")
  throwIf (consensusPubkey = 0) (.revert "consensus public key must not be zero")
  state.withLifecycle (.waitingForStake
    ⟨registryIndex, consensusPubkey, .unset, .zero, .fresh joinedAtHeight⟩)

/-- Re-registration of an inactive record, in place. -/
def reregister (state : NoStakePayload) (consensusPubkey : ConsensusPubkey)
    (joinedAtHeight : Nat) : Result Payload := do
  throwIf (consensusPubkey = 0) (.revert "consensus public key must not be zero")
  pure ⟨state.registryIndex, consensusPubkey, .unset, .zero, .fresh joinedAtHeight⟩

variable (state : Payload) (stake : StakeProjection)

/-- `WaitingForStake` to `WaitingForReadiness`. -/
def reachMinimum (minimum : Nat) : Result Payload := do
  requireAtLeastMinimum stake minimum
  pure { state with stake }

/-- `WaitingForReadiness` to `WaitingForStake`. -/
def demoteWaitingForReadiness (minimum : Nat) : Result Payload := do
  requireBelowMinimum stake minimum
  pure { state with stake }

/-- `Joining` to `WaitingForStake`. -/
def demoteJoining (minimum : Nat) : Result Payload := do
  requireBelowMinimum stake minimum
  pure { state with stake }

/-- `Joining` to `Active`. -/
def activateAtBoundary : Payload :=
  { state with history := { state.history with lastDeactivatedAtHeight := none } }

/-- `Active` to `Exiting`. -/
def beginExit (deactivatedAtHeight : Nat) : Result Payload := do
  requireCanonicalStake stake
  throwIf (deactivatedAtHeight = 0) (.fatal "validator deactivation height must be non-zero")
  pure { state with
    stake, history := { state.history with lastDeactivatedAtHeight := some deactivatedAtHeight } }

/-- `Active` to `JailRetained`. -/
def jail (state : Payload) (jailedAt : Nat) : Result JailPayload := do
  throwIf (jailedAt = 0) (.fatal "validator jail height must be non-zero")
  pure { state with
    history := { state.history with lastDeactivatedAtHeight := some jailedAt }, jailedAt }

/-- `JailRetained` to `Jail`. -/
def excludeJailedAtBoundary (state : JailPayload) : JailPayload :=
  { state with history := state.history.withMissedCountersCleared }

/-- `JailRetained` to `Exiting`. -/
def fullExitJailedRetained (state : JailPayload) (stake : StakeProjection) : Result Payload := do
  requireFullyUnstaked stake
  pure { state.toPayload with stake }

/-- `Jail` to `WaitingForReadiness`. -/
def unjail (state : JailPayload) (currentHeight cooldownBlocks minimum : Nat) : Result Payload := do
  requireAtLeastMinimum state.stake minimum
  let readyAt ← okOr (checkedAdd 64 state.jailedAt cooldownBlocks)
    (.fatal "unjail cooldown height overflow")
  throwIf (currentHeight < readyAt)
    (.revert ("unjail cooldown not elapsed: ready at " ++ toString readyAt ++ ", current " ++
      toString currentHeight))
  pure { state.toPayload with history := state.history.withMissedCountersCleared }

/-- `Jail` to `Unbonding`. -/
def fullExitJailed (state : JailPayload) (stake : StakeProjection) : Result Payload := do
  requireFullyUnstaked stake
  pure { state.toPayload with stake }

/-- `Unbonding` to `Inactive`. -/
def completeUnbonding : Result NoStakePayload := do
  throwIf (state.stake.bonded ≠ 0 ∨ state.stake.unbondingEndHint.isSome)
    (.revert "cannot complete unbonding while bonded value or a live-claim hint remains")
  pure ⟨state.registryIndex, state.consensusPubkey, state.p2p, state.history⟩

/-- Replaces the stake mirror without changing the state. -/
def withStake : Result ValidatorLifecycle := do
  requireCanonicalStake stake
  match lifecycle with
  | .waitingForStake s => pure (.waitingForStake { s with stake })
  | .waitingForReadiness s => pure (.waitingForReadiness { s with stake })
  | .joining s => pure (.joining { s with stake })
  | .active s => pure (.active { s with stake })
  | .jailRetained s => pure (.jailRetained { s with stake })
  | .jail s => pure (.jail { s with stake })
  | .exiting s => pure (.exiting { s with stake })
  | .unbonding s => pure (.unbonding { s with stake })
  | .absent => throw (.revert "cannot stake before validator registration")
  | .inactive _ => throw (.revert "inactive validator must re-register before staking")

/-- Replaces the P2P information without changing the state. -/
def withP2p (p2p : P2pInfo) : Result ValidatorLifecycle :=
  match lifecycle with
  | .waitingForStake s => pure (.waitingForStake { s with p2p })
  | .waitingForReadiness s => pure (.waitingForReadiness { s with p2p })
  | .joining s => pure (.joining { s with p2p })
  | .active s => pure (.active { s with p2p })
  | .jailRetained s => pure (.jailRetained { s with p2p })
  | .jail s => pure (.jail { s with p2p })
  | .exiting s => pure (.exiting { s with p2p })
  | .unbonding s => pure (.unbonding { s with p2p })
  | .inactive s => pure (.inactive { s with p2p })
  | .absent => throw (.revert "validator not registered")

/-- Replaces the history, keeping the deactivation rule of the state. -/
def withHistory (history : ValidatorHistory) : Result ValidatorLifecycle := do
  throwIf (history.lastDeactivatedAtHeight = some 0)
    (.fatal "deactivation height must not use the zero sentinel")
  match lifecycle with
  | .waitingForStake s => pure (.waitingForStake { s with history })
  | .waitingForReadiness s => pure (.waitingForReadiness { s with history })
  | .joining s => pure (.joining { s with history })
  | .active s => do
    throwIf history.lastDeactivatedAtHeight.isSome
      (.fatal "active history must not contain a deactivation height")
    pure (.active { s with history })
  | .jailRetained s => do
    throwIf (history.lastDeactivatedAtHeight ≠ some s.jailedAt)
      (.fatal "retained jail history must match the jail height")
    pure (.jailRetained { s with history })
  | .jail s => do
    throwIf (history.lastDeactivatedAtHeight ≠ some s.jailedAt)
      (.fatal "jail history must match the jail height")
    pure (.jail { s with history })
  | .exiting s => do
    throwIf history.lastDeactivatedAtHeight.isNone
      (.fatal "exiting history requires a deactivation height")
    pure (.exiting { s with history })
  | .unbonding s => do
    throwIf history.lastDeactivatedAtHeight.isNone
      (.fatal "unbonding history requires a deactivation height")
    pure (.unbonding { s with history })
  | .inactive s => do
    throwIf history.lastDeactivatedAtHeight.isNone
      (.fatal "inactive history requires a deactivation height")
    pure (.inactive { s with history })
  | .absent => throw (.revert "validator not registered")

end StateMachine

/-! ### The raw storage adapter -/

/-- Decodes the two persisted P2P fields as one value. -/
def P2pInfo.decodeStored (validator : Address) (version : Nat) (payload : List UInt8) :
    Result P2pInfo :=
  if version = 0 ∧ payload = [] then .ok .unset
  else if version = 0 ∨ payload = [] then
    .error (corruptState validator "P2P version and payload must be both set or both empty")
  else if version ≠ p2pAddressVersionV1 then .ok (.unknown version payload)
  else
    match decodeVersioned version payload with
    | .ok address => .ok (.v1 address)
    | .error _ => .error (corruptState validator "invalid persisted P2P address")

/-- Encodes the P2P information into its two persisted fields. -/
def P2pInfo.encodeStored : P2pInfo → Nat × List UInt8
  | .unset => (0, [])
  | .v1 address => (p2pAddressVersionV1, encodeV1 address)
  | .unknown version payload => (version, payload)

/-- The state a registered record's status, share and readiness flags stand for. -/
def decodeLifecycle (p : Payload) (storedStatus : Nat)
    (hasBlsShare joinConfirmed : Bool) (jailedAt : Nat) :
    Result ValidatorLifecycle :=
  match storedStatus, hasBlsShare, joinConfirmed with
  | statusRegistered, false, false => .ok (.waitingForStake p)
  | statusPending, false, false => .ok (.waitingForReadiness p)
  | statusPending, false, true => .ok (.joining p)
  | statusActive, true, false => .ok (.active p)
  | statusExiting, true, false => .ok (.exiting p)
  | statusUnbonding, false, false => .ok (.unbonding p)
  | statusInactive, false, false =>
    if p.stake.bonded ≠ 0 ∨ p.stake.unbondingEndHint.isSome then
      .error (corruptState address "inactive validator retains bonded stake or an unbonding hint")
    else .ok (.inactive ⟨p.registryIndex, p.consensusPubkey, p.p2p, p.history⟩)
  | statusJailed, true, false => .ok (.jailRetained ⟨p, jailedAt⟩)
  | statusJailed, false, false => .ok (.jail ⟨p, jailedAt⟩)
  | _, _, _ => .error (corruptState address "non-canonical coupled fields")

/-- The sole raw-storage-to-type-state adapter. -/
def ValidatorState.decodeStored (address : Address) (registryIndex : Nat)
    (consensusPubkey : ConsensusPubkey) (stake : StakeProjection) (storedStatus p2pVersion : Nat)
    (p2pPayload : List UInt8) (history : ValidatorHistory) (hasBlsShare joinConfirmed : Bool)
    (jailedAt : Nat) : Result ValidatorState := do
  validateHint address stake
  let p2p ← P2pInfo.decodeStored address p2pVersion p2pPayload
  if h : registryIndex = 0 then do
    throwIf (consensusPubkey ≠ 0 ∨ stake.bonded ≠ 0 ∨ stake.unbondingEndHint.isSome ∨
        storedStatus ≠ statusRegistered ∨ p2p ≠ .unset ∨ ¬ history.isZero ∨ hasBlsShare ∨
        joinConfirmed ∨ jailedAt ≠ 0)
      (corruptState address "absent validator retains registry, stake, or lifecycle data")
    pure ⟨address, .absent⟩
  else do
    throwIf (storedStatus > statusJailed)
      (.fatal ("unknown validator status " ++ toString storedStatus))
    throwIf (consensusPubkey = 0)
      (corruptState address "registered validator is missing its consensus public key")
    throwIf (storedStatus ≠ statusJailed ∧ jailedAt ≠ 0)
      (corruptState address "jail height is present outside a jailed lifecycle")
    let lifecycle ← decodeLifecycle address ⟨⟨registryIndex, h⟩, consensusPubkey, p2p, stake,
      history⟩ storedStatus hasBlsShare joinConfirmed jailedAt
    ValidatorState.fromLifecycle address lifecycle

end Rudis.ValidatorSet

import Rudis.Spec.ValidatorSet.Lifecycle

/-!
# `Rudis.Spec.ValidatorSet.Store`: storage of the ValidatorSet contract and its reads

The slots of `schema.rs`, grouped as the schema groups them. The mappings keyed by a validator
address are one map of records (`Store.val`), those keyed by a committee snapshot key are one map
of records (`Store.snapshots`). Reads are pure: a view of the store or a failure.

`Externals` holds the functions the contract calls and this repository does not define or only
wraps: the hash, BLS verification and the OCOMP registration codec. Nothing is assumed of them
here.
-/

namespace Rudis

/-- The fields of a decoded `OcompKeyRegistrationV1` that ValidatorSet reads. -/
structure OcompKeyRegistration where
  chainId : Nat
  genesisHash : B256
  validatorIdentityHash : B256
  ocompPublicKeySec1 : BitVec 264
  keyEpoch : Nat
  allowedPurposeBitmap : Nat

/-- Functions from outside the contracts. -/
structure Externals where
  /-- `alloy_primitives::keccak256`. -/
  keccak256 : List UInt8 → B256
  /-- `blst::min_pk::PublicKey::from_bytes` accepts the bytes. -/
  blsPublicKeyOk : BitVec 384 → Bool
  /-- `blst::min_pk::Signature::from_bytes` accepts the bytes. -/
  blsSignatureOk : BitVec 768 → Bool
  /-- `Signature::verify` under `VALIDATOR_REGISTRATION_DST` succeeds. -/
  blsVerify : BitVec 384 → BitVec 768 → List UInt8 → Bool
  /-- `OcompKeyRegistrationV1::decode_canonical` with the PoC limits. -/
  decodeOcompRegistration : List UInt8 → Except String OcompKeyRegistration
  validatorIdentityHashV1 : Address → BitVec 384 → Except String B256

namespace ValidatorSet

/-! ### Slots -/

/-- The per-validator slots (5..15, 24, 28, 29, 41, 43) of one address. -/
structure ValidatorSlots where
  consensusPubkeyLo : B256
  consensusPubkeyHi : B256
  stake : Nat
  status : Nat
  slashCount : Nat
  missedBlocks : Nat
  missedVotes : Nat
  blocksProposed : Nat
  joinedAtHeight : Nat
  deactivatedAtHeight : Nat
  unbondingEnd : Nat
  hasBlsShare : Bool
  p2pAddressVersion : Nat
  p2pAddressPayload : List UInt8
  joinConfirmed : Bool
  jailedAtHeight : Nat

/-- Slots nothing was written to. -/
def ValidatorSlots.empty : ValidatorSlots :=
  ⟨0, 0, 0, 0, 0, 0, 0, 0, 0, 0, 0, false, 0, [], false, 0⟩

/-- The validator list and its reverse lookups (16..18, 20, 59, 60). -/
structure Registry where
  /-- 1-based; zero for an address that is not registered. -/
  addressToIndex : Address → Nat
  indexToAddress : Nat → Address
  consensusPubkeyHashToAddress : B256 → Address
  validatorCount : Nat
  radicleNodeId : Address → B256
  radicleNodeIdToValidator : B256 → Address

/-- Protocol roles a validator can delegate. -/
inductive ValidatorDelegateRole where
  | oracle
  | ocomp
  deriving DecidableEq

/-- `ValidatorDelegateRole::ALL`. -/
def ValidatorDelegateRole.all : List ValidatorDelegateRole := [.oracle, .ocomp]

/-- Operational keys by role (48, 49). -/
structure Delegates where
  delegateByValidatorRole : Address → ValidatorDelegateRole → Address
  validatorByRoleDelegate : ValidatorDelegateRole → Address → Address

/-- OCOMP keys and recovery windows (50, 51, 61, 62). -/
structure OcompStore where
  registration : Address → List UInt8
  keyHashToValidator : B256 → Address
  missCount : Address → Nat
  /-- Zero when no recovery window is open. -/
  recoveryDeadline : Address → Nat

/-- One committee snapshot (31..39, 47, 52..58). -/
structure SnapshotSlots where
  existsFlag : Bool
  len : Nat
  addressAt : Nat → Address
  pubkeyLoAt : Nat → B256
  pubkeyHiAt : Nat → B256
  vrfMaterialVersion : Nat
  vrfGroupPublicKeyHash : B256
  vrfGroupPublicKeyLen : Nat
  vrfGroupPublicKeyChunkAt : Nat → B256
  vrfPublicPolynomialHash : B256
  ocompEpoch : Nat
  ocompConsensusHash : B256
  ocompBindingHash : B256
  ocompMemberCount : Nat
  ocompKeyLoAt : Nat → B256
  ocompKeyHiAt : Nat → B256
  ocompKeyEpochAt : Nat → Nat

/-- Snapshot slots nothing was written to. -/
def SnapshotSlots.empty : SnapshotSlots :=
  ⟨false, 0, fun _ => 0, fun _ => 0, fun _ => 0, 0, 0, 0, fun _ => 0, 0, 0, 0, 0, 0, fun _ => 0,
    fun _ => 0, fun _ => 0⟩

/-- The snapshots and their prune ring (44). -/
structure SnapshotStore where
  snapshot : B256 → SnapshotSlots
  keyRing : Nat → B256

/-- The finalized-participation guard and its prune ring (30, 45, 46). -/
structure ParticipationGuard where
  recorded : B256 → Bool
  ring : Nat → B256
  ringSeq : Nat

/-- Storage of the contract. -/
structure Store where
  configOwner : Address
  configMaxValidators : Nat
  configReregistrationCooldown : Nat
  configUnjailCooldownBlocks : Nat
  val : Address → ValidatorSlots
  registry : Registry
  pendingSetChange : Bool
  activeConsensusSetHash : B256
  guard : ParticipationGuard
  snapshots : SnapshotStore
  delegates : Delegates
  ocomp : OcompStore

/-- A freshly deployed contract with a given configuration. -/
def Store.empty (configOwner : Address) (configMaxValidators configReregistrationCooldown
    configUnjailCooldownBlocks : Nat) : Store where
  configOwner := configOwner
  configMaxValidators := configMaxValidators
  configReregistrationCooldown := configReregistrationCooldown
  configUnjailCooldownBlocks := configUnjailCooldownBlocks
  val _ := .empty
  registry := ⟨fun _ => 0, fun _ => 0, fun _ => 0, 0, fun _ => 0, fun _ => 0⟩
  pendingSetChange := false
  activeConsensusSetHash := 0
  guard := ⟨fun _ => false, fun _ => 0, 0⟩
  snapshots := ⟨fun _ => .empty, fun _ => 0⟩
  delegates := ⟨fun _ _ => 0, fun _ _ => 0⟩
  ocomp := ⟨fun _ => [], fun _ => 0, fun _ => 0, fun _ => 0⟩

def Store.setVal (vs : Store) (addr : Address) (slots : ValidatorSlots) : Store :=
  { vs with val := update vs.val addr slots }

/-! ### Keys -/

/-- Low 32 bytes of a 48-byte key. -/
def pubkeyLo (pubkey : ConsensusPubkey) : B256 := pubkey.extractLsb' 128 256

/-- High 16 bytes of a 48-byte key, right-padded with zeros. -/
def pubkeyHi (pubkey : ConsensusPubkey) : B256 := pubkey.extractLsb' 0 128 ++ 0#128

/-- Rejoins the two halves of a key. -/
def joinPubkey (lo hi : B256) : ConsensusPubkey := lo ++ hi.extractLsb' 128 128

/-- `keccak256` of the 48 key bytes. -/
def consensusPubkeyHash (X : Externals) (pubkey : ConsensusPubkey) : B256 :=
  X.keccak256 (beBytes 48 pubkey.toNat)

def ValidatorSlots.readConsensusPubkey (s : ValidatorSlots) : ConsensusPubkey :=
  joinPubkey s.consensusPubkeyLo s.consensusPubkeyHi

/-- Writes the consensus key across its two slots. -/
def ValidatorSlots.writeConsensusPubkey (s : ValidatorSlots) (pubkey : ConsensusPubkey) :
    ValidatorSlots :=
  { s with consensusPubkeyLo := pubkeyLo pubkey, consensusPubkeyHi := pubkeyHi pubkey }

/-! ### Typed reads -/

/-- `(x != 0).then_some(x)`. -/
def nonZero (x : Nat) : Option Nat := if x ≠ 0 then some x else none

/-- The typed state of one address's slots, index checks aside. -/
def decodeSlots (addr : Address) (registryIndex : Nat) (s : ValidatorSlots) :
    Result ValidatorState :=
  ValidatorState.decodeStored addr registryIndex s.readConsensusPubkey
    ⟨s.stake, nonZero s.unbondingEnd⟩ s.status s.p2pAddressVersion s.p2pAddressPayload
    ⟨s.joinedAtHeight, nonZero s.deactivatedAtHeight, s.slashCount, s.missedBlocks,
      s.missedVotes, s.blocksProposed⟩ s.hasBlsShare s.joinConfirmed s.jailedAtHeight

variable (X : Externals) (vs : Store) (addr : Address)

/-- The index checks of a registered state. -/
def checkRegistry (state : ValidatorState) : Result Unit :=
  match state.lifecycle.registryIndex with
  | none => .ok ()
  | some index => do
    throwIf (index.val > vs.registry.validatorCount)
      (.fatal "validator registry index exceeds validator_count")
    throwIf (vs.registry.indexToAddress index.val ≠ addr)
      (.fatal "validator registry forward index mismatch")
    let pubkey ← okOr state.lifecycle.consensusPubkey
      (.fatal "registered validator is missing consensus pubkey")
    throwIf (vs.registry.consensusPubkeyHashToAddress (consensusPubkeyHash X pubkey) ≠ addr)
      (.fatal "validator consensus pubkey reverse mapping mismatch")

/-- The complete typed state of an address. -/
def validatorState : Result ValidatorState := do
  let state ← decodeSlots addr (vs.registry.addressToIndex addr) (vs.val addr)
  checkRegistry X vs addr state
  pure state

def validatorLifecycle : Result ValidatorLifecycle :=
  ValidatorState.lifecycle <$> validatorState X vs addr

/-- Flat read projection of a registered validator. -/
structure ValidatorRecord where
  validatorAddress : Address
  consensusPubkey : ConsensusPubkey
  stake : Nat
  status : Nat
  slashCount : Nat
  missedBlocks : Nat
  missedVotes : Nat
  blocksProposed : Nat
  joinedAtHeight : Nat
  deactivatedAtHeight : Nat
  unbondingEnd : Nat
  hasBlsShare : Bool

/-- Projects a registered validator into its record. -/
def readValidatorRecord : Result ValidatorRecord := do
  let state ← validatorState X vs addr
  let status ← okOr state.lifecycle.storedStatus
    (.fatal "cannot project absent validator into ValidatorRecord")
  let history ← okOr state.lifecycle.history (.fatal "registered validator is missing history")
  let consensusPubkey ← okOr state.lifecycle.consensusPubkey
    (.fatal "registered validator is missing consensus public key")
  pure {
    validatorAddress := addr
    consensusPubkey
    stake := state.lifecycle.bondedStake
    status
    slashCount := history.slashCount
    missedBlocks := history.missedBlocks
    missedVotes := history.missedVotes
    blocksProposed := history.blocksProposed
    joinedAtHeight := history.joinedAtHeight
    deactivatedAtHeight := history.lastDeactivatedAtHeight.getD 0
    unbondingEnd := state.lifecycle.unbondingEndHint.getD 0
    hasBlsShare := state.lifecycle.hasBlsShare }

/-- The record of an address, or none when it is not registered. -/
def getValidator : Result (Option ValidatorRecord) :=
  if vs.registry.addressToIndex addr = 0 then .ok none
  else some <$> readValidatorRecord X vs addr

/-- Resolves a dense index and checks its reverse mapping. -/
def validatorAddressAt (index : Nat) : Result (Option Address) :=
  if index = 0 ∨ index > vs.registry.validatorCount then .ok none
  else do
    let address := vs.registry.indexToAddress index
    throwIf (address = 0) (.fatal "validator registry index is empty below validator_count")
    throwIf (vs.registry.addressToIndex address ≠ index)
      (.fatal "validator registry reverse index mismatch")
    pure (some address)

/-- Registered addresses in dense index order. -/
def registeredValidatorAddresses : Result (List Address) :=
  (List.range' 1 vs.registry.validatorCount).mapM fun index => do
    let address ← validatorAddressAt vs index
    okOr address (.fatal "validator registry index is empty below validator_count")

/-- Registered addresses whose lifecycle passes a test. -/
def validatorAddressesMatching (predicate : ValidatorLifecycle → Bool) : Result (List Address) := do
  let addresses ← registeredValidatorAddresses vs
  Except.filterM (fun addr => predicate <$> validatorLifecycle X vs addr) addresses

/-- Records of the registered validators whose lifecycle passes a test. -/
def getValidatorsMatching (predicate : ValidatorLifecycle → Bool) :
    Result (List ValidatorRecord) := do
  let addresses ← validatorAddressesMatching X vs predicate
  addresses.mapM (readValidatorRecord X vs)

def getActiveConsensusSet : Result (List ValidatorRecord) :=
  getValidatorsMatching X vs ValidatorLifecycle.isCurrentConsensusParticipant

/-- Number of validators in the `REGISTERED` state. -/
def registeredCount : Result Nat := do
  let addresses ← validatorAddressesMatching X vs ValidatorLifecycle.isRegisteredStatus
  throwIf (addresses.length ≥ 2 ^ 32) (.revert "registered validator count exceeds u32")
  pure addresses.length

/-- Whether an address is in the current consensus set. -/
def isConsensusParticipant : Result Bool :=
  ValidatorLifecycle.isCurrentConsensusParticipant <$> validatorLifecycle X vs addr

/-- Whether an address is registered. -/
def isValidator : Result Bool :=
  (fun state => decide (state.lifecycle ≠ .absent)) <$> validatorState X vs addr

/-- The canonical OCOMP registration admitted for an address. -/
def ocompRegistration : Result (Option OcompKeyRegistration) :=
  if vs.ocomp.registration addr = [] then .ok none
  else
    match X.decodeOcompRegistration (vs.ocomp.registration addr) with
    | .ok registration => .ok (some registration)
    | .error error => .error (.fatal ("stored OCOMP registration is invalid: " ++ error))

end ValidatorSet

end Rudis

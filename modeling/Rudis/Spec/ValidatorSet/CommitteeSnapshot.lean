import Rudis.Spec.ValidatorSet.Transitions

/-!
# `Rudis.Spec.ValidatorSet.CommitteeSnapshot`: the committee snapshot store

`write_committee_snapshot`, `clear_committee_snapshot` and the readers of `state.rs`, with the
canonical hash and key of `consensus/src/proof/committee.rs`, and the atomic boundary hook that
writes the outgoing and the incoming snapshot around the membership change.
-/

namespace Rudis.ValidatorSet

open List

variable (X : Externals)

/-- One ordered member of a committee. -/
structure CommitteeEntry where
  address : Address
  consensusPubkey : ConsensusPubkey
  deriving DecidableEq

/-- A committee with its VRF material. -/
structure CommitteeSnapshot where
  committee : List CommitteeEntry
  vrfMaterialVersion : Nat
  vrfGroupPublicKeyBytes : List UInt8
  vrfPublicPolynomialHash : B256
  deriving DecidableEq

/-- Epochs whose snapshots stay live. -/
def committeeSnapshotRetainEpochs : Nat := 8

def asciiBytes (text : String) : List UInt8 := text.toList.map fun c => UInt8.ofNat c.toNat

def committeeSetHashV2Domain : List UInt8 := asciiBytes "OUTBE_COMMITTEE_SNAPSHOT_V2"
def committeeSnapshotKeyV2Domain : List UInt8 := asciiBytes "OUTBE_COMMITTEE_SNAPSHOT_KEY_V2"
def ocompSnapshotBindingV1Domain : List UInt8 := asciiBytes "OUTBE_OCOMP_SNAPSHOT_BINDING_V1"

/-- Canonical hash of a committee. The polynomial hash is not part of it. -/
def committeeSetHashV2 (epoch : Nat) (snapshot : CommitteeSnapshot) : B256 :=
  X.keccak256 (committeeSetHashV2Domain ++ beBytes 8 epoch ++ beBytes 8 snapshot.committee.length ++
    snapshot.committee.flatMap (fun e =>
      beBytes 20 e.address.toNat ++ beBytes 48 e.consensusPubkey.toNat) ++
    beBytes 8 snapshot.vrfMaterialVersion ++ beBytes 8 snapshot.vrfGroupPublicKeyBytes.length ++
    snapshot.vrfGroupPublicKeyBytes)

def committeeSnapshotKey (epoch : Nat) (committeeSetHash : B256) : B256 :=
  X.keccak256 (committeeSnapshotKeyV2Domain ++ beBytes 8 epoch ++ beBytes 32 committeeSetHash.toNat)

/-- The hash and the key of a snapshot at an epoch. -/
def snapshotIdentity (epoch : Nat) (snapshot : CommitteeSnapshot) : B256 × B256 :=
  let hash := committeeSetHashV2 X epoch snapshot
  (hash, committeeSnapshotKey X epoch hash)

/-! ### Words and ranges -/

/-- A big-endian word from at most 32 bytes, right-padded with zeros. -/
def wordOfBytes (bytes : List UInt8) : B256 :=
  BitVec.ofNat 256 ((bytes ++ replicate (32 - bytes.length) 0).foldl
    (fun acc (b : UInt8) => acc * 256 + b.toNat) 0)

/-- The 32 bytes of a word. -/
def bytesOfWord (word : B256) : List UInt8 := beBytes 32 word.toNat

/-- `for i in 0..n { slot[i] = value(i) }`. -/
def writeRange {α : Type} (slot : Nat → α) (value : Nat → α) (n : Nat) : Nat → α :=
  (range n).foldl (fun slot i => update slot i (value i)) slot

/-- Number of 32-byte chunks of `len` bytes. -/
def numChunks (len : Nat) : Nat := (len + 31) / 32

/-- The `i`-th 32-byte chunk. -/
def chunkAt (bytes : List UInt8) (i : Nat) : List UInt8 := (bytes.drop (32 * i)).take 32

/-- Splits a 33-byte key into its two slots. -/
def splitOcompPublicKey (key : BitVec 264) : B256 × B256 :=
  (key.extractLsb' 8 256, key.extractLsb' 0 8 ++ 0#248)

/-- Rejoins a 33-byte key; the padding must be zero. -/
def joinOcompPublicKey (lo hi : B256) : Result (BitVec 264) := do
  throwIf (hi.extractLsb' 0 248 ≠ 0) (.fatal "stored OCOMP snapshot public-key padding is non-zero")
  pure (lo ++ hi.extractLsb' 248 8)

/-! ### The OCOMP extension -/

/-- OCOMP metadata stored beside a snapshot. -/
structure OcompSnapshotExtension where
  epoch : Nat
  committeeSetHash : B256
  ocompBindingHash : B256
  memberCount : Nat
  deriving DecidableEq

structure OcompSnapshotMember where
  validatorAddress : Address
  ocompPublicKeySec1 : BitVec 264
  keyEpoch : Nat
  deriving DecidableEq

/-- Hash of the ordered OCOMP extension. -/
def ocompBindingHashV1 (epoch : Nat) (committeeSetHash : B256)
    (members : List OcompSnapshotMember) : B256 :=
  X.keccak256 (ocompSnapshotBindingV1Domain ++ beBytes 8 epoch ++
    beBytes 32 committeeSetHash.toNat ++ beBytes 8 members.length ++
    members.flatMap fun m => beBytes 20 m.validatorAddress.toNat ++
      beBytes 33 m.ocompPublicKeySec1.toNat ++ beBytes 8 m.keyEpoch)

/-- The OCOMP material admitted for one member. -/
def resolveOcompMember (vs : Store) (entry : CommitteeEntry) : Result OcompSnapshotMember := do
  let registration ← ocompRegistration X vs entry.address
  let registration ← okOr registration
    (.fatal "active validator has no admitted OCOMP registration")
  let identity ← (X.validatorIdentityHashV1 entry.address entry.consensusPubkey).mapError
    fun error => .fatal ("cannot derive OCOMP identity for active validator: " ++ error)
  throwIf (registration.validatorIdentityHash ≠ identity ∨ registration.keyEpoch ≠ 1 ∨
      registration.allowedPurposeBitmap ≠ 1)
    (.fatal "active validator has stale or invalid OCOMP registration")
  pure ⟨entry.address, registration.ocompPublicKeySec1, registration.keyEpoch⟩

/-! ### Readers -/

namespace SnapshotSlots

variable (s : SnapshotSlots)

/-- The `i`-th stored member. -/
def entryAt (i : Nat) : CommitteeEntry :=
  ⟨s.addressAt i, joinPubkey (s.pubkeyLoAt i) (s.pubkeyHiAt i)⟩

/-- The stored VRF key bytes, chunk by chunk; the last chunk is trimmed. -/
def vrfBytes : List UInt8 :=
  let chunks := numChunks s.vrfGroupPublicKeyLen
  let last := if s.vrfGroupPublicKeyLen % 32 = 0 then 32 else s.vrfGroupPublicKeyLen % 32
  (range chunks).flatMap fun i =>
    (bytesOfWord (s.vrfGroupPublicKeyChunkAt i)).take (if i + 1 = chunks then last else 32)

/-- The stored snapshot, when there is one. -/
def read : Option CommitteeSnapshot :=
  if s.existsFlag then
    some ⟨(range s.len).map s.entryAt, s.vrfMaterialVersion, s.vrfBytes, s.vrfPublicPolynomialHash⟩
  else none

/-- The stored OCOMP metadata, when there is a snapshot. -/
def readExtension : Result (Option OcompSnapshotExtension) :=
  if s.existsFlag then do
    throwIf (s.ocompMemberCount ≥ 2 ^ 16) (.fatal "stored OCOMP snapshot member count exceeds u16")
    pure (some ⟨s.ocompEpoch, s.ocompConsensusHash, s.ocompBindingHash, s.ocompMemberCount⟩)
  else pure none

/-- One stored OCOMP member. -/
def readMemberAt (index : Nat) : Result (Option OcompSnapshotMember) :=
  if s.existsFlag = true ∧ index < s.ocompMemberCount then do
    let key ← joinOcompPublicKey (s.ocompKeyLoAt index) (s.ocompKeyHiAt index)
    pure (some ⟨s.addressAt index, key, s.ocompKeyEpochAt index⟩)
  else pure none

end SnapshotSlots

/-- The snapshot of an epoch, resolved through the prune ring. -/
def readCommitteeSnapshotForEpoch (s : SnapshotStore) (epoch : Nat) : Option CommitteeSnapshot :=
  let key := s.keyRing (epoch % committeeSnapshotRetainEpochs)
  if key = 0 then none
  else
    match (s.snapshot key).read with
    | none => none
    | some snapshot => if key ≠ (snapshotIdentity X epoch snapshot).2 then none else some snapshot

/-! ### Writers -/

variable (s : SnapshotSlots)

/-- Zeroes every slot of a stored snapshot. -/
def SnapshotSlots.clear : SnapshotSlots :=
  if s.existsFlag = false then s
  else
    { existsFlag := false
      len := 0
      addressAt := writeRange s.addressAt (fun _ => 0) s.len
      pubkeyLoAt := writeRange s.pubkeyLoAt (fun _ => 0) s.len
      pubkeyHiAt := writeRange s.pubkeyHiAt (fun _ => 0) s.len
      vrfMaterialVersion := 0
      vrfGroupPublicKeyHash := 0
      vrfGroupPublicKeyLen := 0
      vrfGroupPublicKeyChunkAt :=
        writeRange s.vrfGroupPublicKeyChunkAt (fun _ => 0) (numChunks s.vrfGroupPublicKeyLen)
      vrfPublicPolynomialHash := 0
      ocompEpoch := 0
      ocompConsensusHash := 0
      ocompBindingHash := 0
      ocompMemberCount := 0
      ocompKeyLoAt := writeRange s.ocompKeyLoAt (fun _ => 0) s.ocompMemberCount
      ocompKeyHiAt := writeRange s.ocompKeyHiAt (fun _ => 0) s.ocompMemberCount
      ocompKeyEpochAt := writeRange s.ocompKeyEpochAt (fun _ => 0) s.ocompMemberCount }

/-- A value of the `i`-th element, a default past the end. -/
def atOr {α β : Type} (l : List α) (f : α → β) (default : β) (i : Nat) : β :=
  (l[i]?.map f).getD default

def SnapshotSlots.write (epoch : Nat) (hash : B256)
    (snapshot : CommitteeSnapshot) (members : List OcompSnapshotMember) : SnapshotSlots :=
  { existsFlag := true
    len := snapshot.committee.length
    addressAt := writeRange s.addressAt (atOr snapshot.committee (·.address) 0)
      snapshot.committee.length
    pubkeyLoAt := writeRange s.pubkeyLoAt
      (atOr snapshot.committee (pubkeyLo ·.consensusPubkey) 0) snapshot.committee.length
    pubkeyHiAt := writeRange s.pubkeyHiAt
      (atOr snapshot.committee (pubkeyHi ·.consensusPubkey) 0) snapshot.committee.length
    vrfMaterialVersion := snapshot.vrfMaterialVersion
    vrfGroupPublicKeyHash := X.keccak256 snapshot.vrfGroupPublicKeyBytes
    vrfGroupPublicKeyLen := snapshot.vrfGroupPublicKeyBytes.length
    vrfGroupPublicKeyChunkAt := writeRange s.vrfGroupPublicKeyChunkAt
      (fun i => wordOfBytes (chunkAt snapshot.vrfGroupPublicKeyBytes i))
      (numChunks snapshot.vrfGroupPublicKeyBytes.length)
    vrfPublicPolynomialHash := snapshot.vrfPublicPolynomialHash
    ocompEpoch := epoch
    ocompConsensusHash := hash
    ocompBindingHash := ocompBindingHashV1 X epoch hash members
    ocompMemberCount := members.length
    ocompKeyLoAt := writeRange s.ocompKeyLoAt
      (atOr members (splitOcompPublicKey ·.ocompPublicKeySec1 |>.1) 0) members.length
    ocompKeyHiAt := writeRange s.ocompKeyHiAt
      (atOr members (splitOcompPublicKey ·.ocompPublicKeySec1 |>.2) 0) members.length
    ocompKeyEpochAt := writeRange s.ocompKeyEpochAt (atOr members (·.keyEpoch) 0) members.length }

/-- Whether the stored members are the expected ones, read up to the first mismatch. -/
def membersMatch (s : SnapshotSlots) : List OcompSnapshotMember → Nat → Result Bool
  | [], _ => .ok true
  | expected :: rest, index => do
    let stored ← s.readMemberAt index
    if stored = some expected then membersMatch s rest (index + 1) else pure false

/-- The members are compared only when the metadata matches. -/
def extensionMatches (expected : OcompSnapshotExtension)
    (members : List OcompSnapshotMember) (stored : Option OcompSnapshotExtension) :
    Result Bool :=
  if stored = some expected then membersMatch s members 0 else .ok false

/-- A replay of a stored snapshot must match it exactly. -/
def checkReplay (epoch : Nat) (hash : B256) (snapshot : CommitteeSnapshot)
    (members : List OcompSnapshotMember) : Result Unit := do
  let stored ← okOr s.read (.fatal "committee snapshot exists flag has no readable record")
  let extension ← s.readExtension
  let matching ← extensionMatches s
    ⟨epoch, hash, ocompBindingHashV1 X epoch hash members, members.length⟩ members extension
  throwIf (stored ≠ snapshot ∨ matching = false) (.fatal "committee snapshot replay mismatch")

/-- Evicts the ring record the new key replaces, then stores the snapshot. -/
def SnapshotStore.replace (s : SnapshotStore) (epoch : Nat) (hash key : B256)
    (snapshot : CommitteeSnapshot) (members : List OcompSnapshotMember) : SnapshotStore :=
  let ringIdx := epoch % committeeSnapshotRetainEpochs
  let evicted := s.keyRing ringIdx
  let cleared := if evicted ≠ 0 ∧ evicted ≠ key then
      update s.snapshot evicted (s.snapshot evicted).clear
    else s.snapshot
  { snapshot := update cleared key ((cleared key).write X epoch hash snapshot members)
    keyRing := update s.keyRing ringIdx key }

/-- Writes a committee snapshot under its canonical key; returns the hash and the key. -/
def writeCommitteeSnapshot (epoch : Nat) (snapshot : CommitteeSnapshot) :
    Call Store (B256 × B256) := do
  let hash := committeeSetHashV2 X epoch snapshot
  let key := committeeSnapshotKey X epoch hash
  let members ← query fun vs => snapshot.committee.mapM (resolveOcompMember X vs)
  failIf (members.length ≥ 2 ^ 16) (.fatal "OCOMP snapshot member count exceeds u16")
  let present ← reads fun vs => (vs.snapshots.snapshot key).existsFlag
  if present then do
    query fun vs => checkReplay X (vs.snapshots.snapshot key) epoch hash snapshot members
    pure (hash, key)
  else do
    modify fun vs => { vs with
      snapshots := vs.snapshots.replace X epoch hash key snapshot members }
    pure (hash, key)

structure BoundaryActivationInputs where
  outgoing : Option (Nat × CommitteeSnapshot)
  incomingEpoch : Nat
  incoming : CommitteeSnapshot
  freezeHeight : Nat
  newActiveSet : List Address
  activeSetHash : B256
  teeExpiredTargetExclusions : List Address

/-- Writes the outgoing snapshot, when there is one; returns its key. -/
def writeOutgoing : Option (Nat × CommitteeSnapshot) → Call Store B256
  | some (epoch, snapshot) => (·.2) <$> writeCommitteeSnapshot X epoch snapshot
  | none => pure 0

/-- Outgoing snapshot, membership change and incoming snapshot, all or nothing. -/
def activateBoundaryAtomic (inputs : BoundaryActivationInputs) : Call Store (B256 × B256) :=
  checkpoint do
    let outgoingKey ← writeOutgoing X inputs.outgoing
    activateValidatedBoundarySetWithExpiryExclusions X inputs.newActiveSet inputs.activeSetHash
      inputs.freezeHeight inputs.teeExpiredTargetExclusions
    let (_, incomingKey) ← writeCommitteeSnapshot X inputs.incomingEpoch inputs.incoming
    pure (outgoingKey, incomingKey)

end Rudis.ValidatorSet

import Rudis.Spec.System

/-!
# `Rudis.Spec.SlashIndicator`: equivocation evidence

The five entry points that take two signed votes as evidence (`runtime.rs`) and the parser and
verifier they share (`evidence.rs`). An evidence block is
`pubkey[48] || signature[96] || payload`; the round is read back from the payload's varint
prefix, and the signature is checked against `leb128(len(ns)) || ns || payload` for a namespace
that binds the chain, the vote kind and the committee of the round's epoch.

`VoteExternals` holds what the code takes from the BLS library and from the installed consensus
domain. Nothing is assumed of it here.
-/

namespace Rudis

/-- What evidence verification takes from outside the contracts. -/
structure VoteExternals where
  /-- `bls12381::PublicKey::read` accepts the bytes. -/
  publicKeyReads : BitVec 384 → Bool
  /-- `Signature::verify` under the proof-of-possession tag succeeds. -/
  blsVerify : BitVec 384 → BitVec 768 → List UInt8 → Bool
  consensusChainId : Nat

namespace SlashIndicator

open ValidatorSet (ConsensusPubkey asciiBytes)

/-! ### Varints -/

/-- The loop of `write_leb128`; the fuel is the number of bytes left. -/
def writeLeb128Loop : Nat → Nat → List UInt8
  | 0, _ => []
  | fuel + 1, value =>
    let byte := value % 128
    if value / 128 = 0 then [UInt8.ofNat byte]
    else UInt8.ofNat (byte + 128) :: writeLeb128Loop fuel (value / 128)

/-- Encodes a `u64` as a LEB128 varint: ten bytes hold every value. -/
def writeLeb128 (value : Nat) : List UInt8 := writeLeb128Loop 10 value

/-- The loop of `read_leb128`, over the data from the current position on. -/
def readLeb128Loop (result shift : Nat) : List UInt8 → Result (Nat × List UInt8)
  | [] => .error (.revert "unexpected end of data while reading varint")
  | byte :: data =>
    -- the shift of a `u64` drops what leaves its 64 bits
    let result := result ||| ((byte.toNat % 128) <<< shift) % 2 ^ 64
    if byte.toNat < 128 then .ok (result, data)
    else if shift + 7 ≥ 64 then .error (.revert "varint overflow")
    else readLeb128Loop result (shift + 7) data

/-- Reads a varint; returns the value and the data after it. -/
def readLeb128 (data : List UInt8) : Result (Nat × List UInt8) :=
  readLeb128Loop 0 0 data

/-! ### Namespaces -/

/-- An ordered set of committee keys. -/
abbrev EvidenceCommittee := List ConsensusPubkey

/-- `Set::from_iter_dedup`: sorted by key bytes, without repetitions. -/
def setFromIterDedup (keys : List ConsensusPubkey) : EvidenceCommittee :=
  keys.dedup.insertionSort fun a b => a.toNat ≤ b.toNat

variable (X : Externals) (V : VoteExternals)

/-- `outbe_app_namespace`: the base and the chain id. -/
def outbeAppNamespace : List UInt8 := asciiBytes "outbe" ++ beBytes 8 V.consensusChainId

variable (committee : EvidenceCommittee)

/-- Hash of the committee's keys, domain-tagged and length-prefixed. -/
def participantSetCommitment : B256 :=
  X.keccak256 (asciiBytes "OUTBE_COMMITTEE_V1" ++ beBytes 4 committee.length ++
    committee.flatMap fun pk => beBytes 48 pk.toNat)

/-- Committee-bound namespace of a vote kind. -/
def voteSubNamespace (suffix : String) (committee : EvidenceCommittee) : List UInt8 :=
  outbeAppNamespace V ++ asciiBytes suffix ++
    beBytes 32 (participantSetCommitment X committee).toNat

def notarizeNamespace : List UInt8 :=
  voteSubNamespace X V "_NOTARIZE" committee

def nullifyNamespace : List UInt8 :=
  voteSubNamespace X V "_NULLIFY" committee

def finalizeNamespace : List UInt8 :=
  voteSubNamespace X V "_FINALIZE" committee

/-- `leb128(len(namespace)) || namespace || payload`. -/
def buildSignedPayloadWithNs (ns payload : List UInt8) : List UInt8 :=
  writeLeb128 ns.length ++ ns ++ payload

/-! ### Evidence blocks -/

/-- A big-endian number from its bytes. -/
def natOfBytes (bytes : List UInt8) : Nat := bytes.foldl (fun acc b => acc * 256 + b.toNat) 0

structure EvidenceBlock where
  pubkey : ConsensusPubkey
  signature : BitVec 768
  proposalBytes : List UInt8

namespace EvidenceBlock

/-- Splits `pubkey[48] || signature[96] || proposal_bytes`. -/
def parse (data : List UInt8) : Result EvidenceBlock := do
  throwIf (data.length < 48 + 96 + 1) (.revert "evidence block too short: need at least 145 bytes")
  pure ⟨BitVec.ofNat 384 (natOfBytes (data.take 48)),
    BitVec.ofNat 768 (natOfBytes ((data.drop 48).take 96)), data.drop 144⟩

variable (ev : EvidenceBlock)

/-- The round (epoch, view) at the start of the proposal bytes. -/
def round : Result (Nat × Nat) := do
  let epoch ← readLeb128 ev.proposalBytes
  let view ← readLeb128 epoch.2
  pure (epoch.1, view.1)

/-- The signature check against one namespace. -/
def verifyBlsSignature (ns : List UInt8) : Result Unit := do
  throwIf (X.blsPublicKeyOk ev.pubkey = false) (.revert "invalid BLS public key in evidence")
  throwIf (X.blsSignatureOk ev.signature = false) (.revert "invalid BLS signature in evidence")
  throwIf (V.blsVerify ev.pubkey ev.signature (buildSignedPayloadWithNs ns ev.proposalBytes) = false)
    (.revert "invalid BLS signature in evidence")

variable (committee : EvidenceCommittee)

def verifyNotarizeSignature : Result Unit :=
  ev.verifyBlsSignature X V (notarizeNamespace X V committee)

def verifyNullifySignature : Result Unit :=
  ev.verifyBlsSignature X V (nullifyNamespace X V committee)

def verifyFinalizeSignature : Result Unit :=
  ev.verifyBlsSignature X V (finalizeNamespace X V committee)

/-- `keccak256` of the signer's key. -/
def pubkeyHash : B256 := ValidatorSet.consensusPubkeyHash X ev.pubkey

end EvidenceBlock

/-- `keccak256` of the two blocks, the smaller one first. -/
def canonicalEvidenceHash (ev1 ev2 : List UInt8) : B256 :=
  if ev1 ≤ ev2 then X.keccak256 (ev1 ++ ev2) else X.keccak256 (ev2 ++ ev1)

/-! ### Storage -/

structure EvidenceFelonyApplied where
  validator : Address
  submitter : Address
  slashedAmount : Nat
  submitterReward : Nat
  deriving DecidableEq

/-- The slots evidence calls read and write (3, 4, 7, 8), and the felonies they have emitted. -/
structure Store where
  configSlashAmountPercent : Nat
  configEvidenceRewardPercent : Nat
  felonyCount : Address → Nat
  evidenceProcessed : B256 → Bool
  felonies : List EvidenceFelonyApplied

abbrev State := Contract Store

/-- Slash percentage, five when unset. -/
def Store.slashAmountPercent (s : Store) : Nat :=
  if s.configSlashAmountPercent = 0 then 5 else s.configSlashAmountPercent

/-- Submitter reward percentage, ten when unset. -/
def Store.evidenceRewardPercent (s : Store) : Nat :=
  if s.configEvidenceRewardPercent = 0 then 10 else s.configEvidenceRewardPercent

/-! ### Calls -/

/-- Only an ACTIVE validator submits evidence. -/
def requireActiveSubmitter (caller : Address) : Call State Unit := do
  let lifecycle ← query fun s => ValidatorSet.validatorLifecycle X s.world.validatorSet caller
  failIf (lifecycle.isActiveStatus = false) (.revert "submitter is not an ACTIVE validator")

/-- The committee of an epoch, from its on-chain snapshot. -/
def committeeSetForEpoch (s : State) (epoch : Nat) : Result EvidenceCommittee := do
  let snapshot ← okOr
    (ValidatorSet.readCommitteeSnapshotForEpoch X s.world.validatorSet.snapshots epoch)
    (.revert "no committee snapshot for evidence epoch")
  let keys ← snapshot.committee.mapM fun entry => do
    throwIf (V.publicKeyReads entry.consensusPubkey = false)
      (.revert "invalid committee pubkey in snapshot")
    pure entry.consensusPubkey
  pure (setFromIterDedup keys)

/-- The validator registered under a key hash. -/
def lookupByPubkeyHash (s : State) (hash : B256) : Address :=
  s.world.validatorSet.registry.consensusPubkeyHashToAddress hash

variable (env : BlockEnv)

/-- Jails and slashes the validator and rewards the submitter. -/
def applyEvidenceFelony (validator evidenceSubmitter : Address) : Call State Unit := do
  onWorld (Staking.onValidatorSet (ValidatorSet.jailValidator X env validator))
  writeStore fun s => { s with
    felonyCount := update s.felonyCount validator
      (wrappingAdd 64 (s.felonyCount validator) 1) }
  let percent ← reads (·.store.slashAmountPercent)
  let slashed ← onWorld (Staking.slashStake X env validator percent)
  let rewardPercent ← reads (·.store.evidenceRewardPercent)
  let reward := if slashed = 0 then 0 else wrappingMul 256 slashed rewardPercent / 100
  when (reward ≠ 0) (onWorld (Staking.onBalances (increaseBalance evidenceSubmitter reward)))
  writeStore fun s => { s with
    felonies := s.felonies ++ [⟨validator, evidenceSubmitter, slashed, reward⟩] }

variable (caller : Address)

/-- The common end of every entry point: resolve the signer, mark the evidence and punish. -/
def punishSigner (evidenceHash pubkeyHash : B256) : Call State Unit := do
  let validator ← reads fun s => lookupByPubkeyHash s pubkeyHash
  failIf (validator = 0) (.revert "signer is not a registered validator")
  writeStore fun s => { s with
    evidenceProcessed := update s.evidenceProcessed evidenceHash true }
  applyEvidenceFelony X env validator caller

variable (block1 block2 : List UInt8)

/-- Two different proposals signed for one round. -/
def submitDoubleProposalEvidence : Call State Unit := do
  requireActiveSubmitter X caller
  let ev1 ← ofExcept (EvidenceBlock.parse block1)
  let ev2 ← ofExcept (EvidenceBlock.parse block2)
  failIf (ev1.pubkey ≠ ev2.pubkey) (.revert "evidence blocks must have the same signer")
  failIf (ev1.proposalBytes = ev2.proposalBytes)
    (.revert "proposals must differ for double-proposal evidence")
  let round1 ← ofExcept ev1.round
  let round2 ← ofExcept ev2.round
  failIf (round1 ≠ round2) (.revert "proposals must be for the same round")
  let evidenceHash := canonicalEvidenceHash X block1 block2
  let processed ← reads (·.store.evidenceProcessed evidenceHash)
  failIf (processed = true) (.revert "evidence already processed")
  let committee ← query fun s => committeeSetForEpoch X V s round1.1
  ofExcept (ev1.verifyNotarizeSignature X V committee)
  ofExcept (ev2.verifyNotarizeSignature X V committee)
  punishSigner X env caller evidenceHash (ev1.pubkeyHash X)

/-- Whether one block is a notarize vote and the other a nullify vote, in either order. -/
def conflictingVotes (ev1 ev2 : EvidenceBlock) (committee : EvidenceCommittee) : Bool :=
  ((ev1.verifyNotarizeSignature X V committee).isOk &&
      (ev2.verifyNullifySignature X V committee).isOk) ||
    ((ev1.verifyNullifySignature X V committee).isOk &&
      (ev2.verifyNotarizeSignature X V committee).isOk)

/-- A notarize and a nullify vote signed for one round. -/
def submitConflictingVoteEvidence (vote1 vote2 : List UInt8) : Call State Unit := do
  requireActiveSubmitter X caller
  let ev1 ← ofExcept (EvidenceBlock.parse vote1)
  let ev2 ← ofExcept (EvidenceBlock.parse vote2)
  failIf (ev1.pubkey ≠ ev2.pubkey) (.revert "evidence blocks must have the same signer")
  let round1 ← ofExcept ev1.round
  let round2 ← ofExcept ev2.round
  failIf (round1 ≠ round2) (.revert "votes must be for the same round")
  let evidenceHash := canonicalEvidenceHash X vote1 vote2
  let processed ← reads (·.store.evidenceProcessed evidenceHash)
  failIf (processed = true) (.revert "evidence already processed")
  let committee ← query fun s => committeeSetForEpoch X V s round1.1
  failIf (conflictingVotes X V ev1 ev2 committee = false)
    (.revert "evidence must contain one valid notarize and one valid nullify signature")
  punishSigner X env caller evidenceHash (ev1.pubkeyHash X)

/-- Shared verifier of the three same-signer equivocation classes. -/
def applyEquivocationFelony
    (requireDistinctProposals : Bool)
    (verify1 verify2 : EvidenceBlock → EvidenceCommittee → Result Unit) :
    Call State Unit := do
  requireActiveSubmitter X caller
  let ev1 ← ofExcept (EvidenceBlock.parse block1)
  let ev2 ← ofExcept (EvidenceBlock.parse block2)
  failIf (ev1.pubkey ≠ ev2.pubkey) (.revert "evidence blocks must have the same signer")
  let round1 ← ofExcept ev1.round
  let round2 ← ofExcept ev2.round
  failIf (round1 ≠ round2) (.revert "votes must be for the same round")
  failIf (requireDistinctProposals = true ∧ ev1.proposalBytes = ev2.proposalBytes)
    (.revert "conflicting votes must be for different proposals")
  let evidenceHash := canonicalEvidenceHash X block1 block2
  let processed ← reads (·.store.evidenceProcessed evidenceHash)
  failIf (processed = true) (.revert "evidence already processed")
  let committee ← query fun s => committeeSetForEpoch X V s round1.1
  ofExcept (verify1 ev1 committee)
  ofExcept (verify2 ev2 committee)
  punishSigner X env caller evidenceHash (ev1.pubkeyHash X)

/-- Two notarize votes for different proposals. -/
def submitConflictingNotarizeEvidence : Call State Unit :=
  applyEquivocationFelony X V env caller block1 block2 true
    (EvidenceBlock.verifyNotarizeSignature X V) (EvidenceBlock.verifyNotarizeSignature X V)

/-- Two finalize votes for different proposals. -/
def submitConflictingFinalizeEvidence : Call State Unit :=
  applyEquivocationFelony X V env caller block1 block2 true
    (EvidenceBlock.verifyFinalizeSignature X V) (EvidenceBlock.verifyFinalizeSignature X V)

def submitNullifyFinalizeEvidence (nullifyBlock finalizeBlock : List UInt8) : Call State Unit :=
  applyEquivocationFelony X V env caller nullifyBlock finalizeBlock false
    (EvidenceBlock.verifyNullifySignature X V) (EvidenceBlock.verifyFinalizeSignature X V)

/-! ### Sequences of submissions -/

/-- The entry points for vote evidence. -/
inductive EntryPoint where
  | doubleProposal
  | conflictingVote
  | conflictingNotarize
  | conflictingFinalize
  | nullifyFinalize
  deriving DecidableEq

structure Submission where
  env : BlockEnv
  entry : EntryPoint
  caller : Address
  block1 : List UInt8
  block2 : List UInt8

def Submission.call (i : Submission) : Call State Unit :=
  match i.entry with
  | .doubleProposal => submitDoubleProposalEvidence X V i.env i.caller i.block1 i.block2
  | .conflictingVote => submitConflictingVoteEvidence X V i.env i.caller i.block1 i.block2
  | .conflictingNotarize => submitConflictingNotarizeEvidence X V i.env i.caller i.block1 i.block2
  | .conflictingFinalize => submitConflictingFinalizeEvidence X V i.env i.caller i.block1 i.block2
  | .nullifyFinalize => submitNullifyFinalizeEvidence X V i.env i.caller i.block1 i.block2

/-- Runs one submission; a failed one changes nothing. -/
def submit (i : Submission) (s : State) : State := ((checkpoint (i.call X V)).run s).2

end SlashIndicator

end Rudis

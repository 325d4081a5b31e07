import Rudis.Spec.Staking
import Rudis.Spec.ValidatorSet.CommitteeSnapshot

/-!
# `Rudis.Spec.System`: the calls that reach Staking and ValidatorSet

`Op` lists the production entry points of the two contracts: user transactions, system calls of
the block executor and of the fault handlers. `step` runs one of them at a block height and
timestamp. A call that fails is reverted by its call frame, so it leaves the world as it was.
-/

namespace Rudis

/-- One call that reaches Staking or ValidatorSet. -/
inductive Op where
  | stake (sender : Sender) (validator : Address) (amount : Nat)
  | unstake (sender : Sender) (amount : Nat)
  | claimUnbonded (sender : Sender)
  | unjailValidator (sender : Sender)
  | slashStake (validator : Address) (percent : Nat)
  | recordOcompMiss (validator : Address)
  | resolveDueOcompRecoveryWindow (validator : Address)
  | closeDueOcompRecoveryWindows
  | processUnbonding (timestamp : Nat)
  | registerValidator (sender : Sender) (validator : Address)
      (pubkey : ValidatorSet.ConsensusPubkey) (radicleNodeId : B256) (sig : Option (BitVec 768))
  | setP2pAddress (sender : Sender) (validator : Address) (version : Nat) (encoded : List UInt8)
  | confirmValidatorReady (sender : Sender) (encoded : List UInt8)
  | deactivateValidator (sender : Sender) (validator : Address)
  | setDelegate (sender : Sender) (role : ValidatorSet.ValidatorDelegateRole) (delegate : Address)
  | revokeDelegate (sender : Sender) (role : ValidatorSet.ValidatorDelegateRole)
  | forceExitValidator (validator : Address)
  | jailValidator (validator : Address)
  | jailValidatorForTeeExpiry (validator : Address)
  | recordProposer (beneficiary : Address)
  | recordFinalizedParticipation (fbHash : B256) (voters absent : List Address)
  | resetEpochCounters
  | completeUnbonding (validator : Address)
  | activateBoundary (inputs : ValidatorSet.BoundaryActivationInputs)
  | cleanupInactiveValidators (maxRemovals : Nat)

/-- Drops a call's result. -/
def Call.discard {σ α : Type} (m : Call σ α) : Call σ Unit := (fun _ => ()) <$> m

theorem ok_discard {σ α : Type} {m : Call σ α} {s s' : σ} {u : Unit} :
    Ok m.discard s u s' ↔ ∃ a, Ok m s a s' := by
  simp [Call.discard]

variable (X : Externals)

open Staking (onValidatorSet)

/-- The call an operation makes. -/
def Op.call (env : BlockEnv) : Op → Call World Unit
  | .stake sender validator amount => Staking.stakePayable X sender validator amount
  | .unstake sender amount => Staking.unstake X env sender.address amount
  | .claimUnbonded sender => Staking.claimUnbonded X env sender.address
  | .unjailValidator sender => Staking.unjailValidator X env sender.address
  | .slashStake validator percent => (Staking.slashStake X env validator percent).discard
  | .recordOcompMiss validator => (Staking.recordOcompMiss X env validator).discard
  | .resolveDueOcompRecoveryWindow validator =>
    (Staking.resolveDueOcompRecoveryWindow X env validator).discard
  | .closeDueOcompRecoveryWindows => (Staking.closeDueOcompRecoveryWindows X env).discard
  | .processUnbonding timestamp => Staking.processUnbonding X env timestamp
  | .registerValidator sender validator pubkey radicleNodeId sig => onValidatorSet
      (ValidatorSet.registerValidatorWithSig X env sender.address validator pubkey
        radicleNodeId sig)
  | .setP2pAddress sender validator version encoded => onValidatorSet
      (ValidatorSet.setP2pAddress X sender.address validator version encoded)
  | .confirmValidatorReady sender encoded => onValidatorSet
      (ValidatorSet.confirmValidatorReady X env sender.address encoded)
  | .deactivateValidator sender validator => onValidatorSet
      (ValidatorSet.deactivateValidator X env sender.address validator)
  | .setDelegate sender role delegate => onValidatorSet
      (ValidatorSet.setDelegate X sender.address role delegate)
  | .revokeDelegate sender role => onValidatorSet
      (ValidatorSet.revokeDelegate X sender.address role)
  | .forceExitValidator validator => onValidatorSet
      (ValidatorSet.forceExitValidator X env validator)
  | .jailValidator validator => onValidatorSet (ValidatorSet.jailValidator X env validator)
  | .jailValidatorForTeeExpiry validator => onValidatorSet
      (ValidatorSet.jailValidatorForTeeExpiry X env validator).discard
  | .recordProposer beneficiary => onValidatorSet (ValidatorSet.recordProposerHook X beneficiary)
  | .recordFinalizedParticipation fbHash voters absent => onValidatorSet
      (ValidatorSet.recordFinalizedParticipationHook X fbHash voters absent)
  | .resetEpochCounters => onValidatorSet (ValidatorSet.resetEpochCounters X)
  | .completeUnbonding validator => onValidatorSet (ValidatorSet.completeUnbonding X validator)
  | .activateBoundary inputs => onValidatorSet
      (ValidatorSet.activateBoundaryAtomic X inputs).discard
  | .cleanupInactiveValidators maxRemovals => onValidatorSet
      (ValidatorSet.cleanupInactiveValidators X env maxRemovals).discard

/-- Runs one operation; a failed one changes nothing. -/
def step (i : BlockEnv × Op) (w : World) : World :=
  ((checkpoint (i.2.call X i.1)).run w).2

variable {X} {i : BlockEnv × Op} {w w' : World}

theorem step_of_ok (h : Ok (i.2.call X i.1) w () w') : step X i w = w' :=
  congrArg Prod.snd (Tx.ok_checkpoint.mpr h)

/-- A step is a successful call, or nothing. -/
theorem step_cases (X : Externals) (i : BlockEnv × Op) (w : World) :
    Ok (i.2.call X i.1) w () (step X i w) ∨ step X i w = w := by
  rcases Tx.checkpoint_cases (i.2.call X i.1) w with ⟨_, h⟩ | h
  · exact .inl h
  · exact .inr h

/-! ### A fresh deployment -/

/-- Both contracts as deployed: nobody registered, nothing staked. -/
def World.fresh (configOwner : Address) (configMinStake : Nat) (balance : Address → Nat) :
    World where
  staking := ⟨configMinStake, 1, 0, 0, fun _ => 0, 0, 0, fun _ => .empty, fun _ => 0⟩
  validatorSet := ValidatorSet.Store.empty configOwner 0 0 0
  balance := balance

/-- A hash that returns the last byte, signatures that all verify, and OCOMP registrations for
chain 1 whose key is their length. -/
def sampleExternals : Externals where
  keccak256 bytes := BitVec.ofNat 256 (bytes.getLastD 0).toNat
  blsPublicKeyOk _ := true
  blsSignatureOk _ := true
  blsVerify _ _ _ := true
  decodeOcompRegistration bytes := .ok ⟨1, 0, 0, BitVec.ofNat 264 bytes.length, 1, 1⟩
  validatorIdentityHashV1 _ _ := .ok 0

def alice : Sender := ⟨1, by decide, by decide⟩

def bob : Sender := ⟨2, by decide, by decide⟩

def sampleEnv : BlockEnv := ⟨1, 1, 1, 0⟩

/-- Alice registers with the consensus key 1, stakes one wei and confirms that she is ready. -/
def aliceJoins : List (BlockEnv × Op) :=
  [(sampleEnv, .registerValidator alice alice.address 1 1 (some 0)),
    (sampleEnv, .stake alice alice.address 1), (sampleEnv, .confirmValidatorReady alice [1])]

/-- A validator registers with the consensus key `n`, stakes 200 wei and confirms that it is
ready. -/
def sampleJoins (who : Sender) (n : Nat) : List (BlockEnv × Op) :=
  [(sampleEnv, .registerValidator who who.address (BitVec.ofNat 384 n) (BitVec.ofNat 256 n)
      (some 0)), (sampleEnv, .stake who who.address 200),
    (sampleEnv, .confirmValidatorReady who (List.replicate n 1))]

/-- The boundary that makes `committee` the active set of an epoch. -/
def sampleBoundary (epoch : Nat) (committee : List Address) : BlockEnv × Op :=
  (sampleEnv, .activateBoundary ⟨none, epoch,
    ⟨committee.map fun a => ⟨a, 1⟩, 0, [UInt8.ofNat epoch], 0⟩, 1, committee, 0, []⟩)

/-- A deployment with a minimum stake of one wei in which everybody has ten. -/
def sampleGenesis : World := World.fresh 9 1 fun _ => 10

end Rudis

import Rudis.Lib.SwapRemove
import Rudis.Spec.StorageVec

/-!
# `Rudis.Spec.Vote`: governance proposals, votes and bonds

`system/vote/src`: a proposal is created for a target module, voted on by active validators, and
tallied by the begin-block hook once its deadline has passed. The tally goes to the handler of the
target module; a public proposal escrows a bond that is refunded or burned with the outcome.

A handler acts on the state `τ` of its own module. The ValidatorSet is the list of active addresses
it reports. A proposal record exists when its proposer is set, so a record is an `Option`; a vote key
is the pair it hashes. The voting window is a chain constant.
-/

namespace Rudis.Vote

/-! ### Constants -/

def voteAddress : Address := 0xEE0C#160

def quorumNumerator : Nat := 2

def quorumDenominator : Nat := 3

/-- Maximum number of proposals in the pending index. -/
def maxPendingProposals : Nat := 64

/-- Maximum pending proposals of one active validator. -/
def maxPendingProposalsPerValidator : Nat := 1

def maxPendingPublicBondedProposals : Nat := 16

/-! ### Errors -/

inductive VoteError where
  | notValidator
  | proposalNotFound
  | notPending
  | votingClosed
  | alreadyVoted
  | tooManyPending
  | tooManyPendingByValidator
  | tooManyPendingPublicBonded
  | tooManyPendingPublicBondedByProposer
  | proposalCounterExhausted
  | invalidBondAmount
  | proposalBondAlreadyRecorded
  | proposalBondNotUnsettled
  | bondLiabilityOverflow
  | bondLiabilityUnderflow
  | invalidProposalBond (expected actual : Nat)
  | bondLiabilityInvariant (balance liabilities : Nat)
  | unknownTargetModule
  | duplicateTargetModule

def VoteError.text : VoteError → String
  | .notValidator => "caller is not an active validator"
  | .proposalNotFound => "proposal not found"
  | .notPending => "proposal is not pending"
  | .votingClosed => "proposal voting window is closed"
  | .alreadyVoted => "validator has already voted on proposal"
  | .tooManyPending => "too many pending proposals"
  | .tooManyPendingByValidator => "validator has too many pending proposals"
  | .tooManyPendingPublicBonded => "too many pending public bonded proposals"
  | .tooManyPendingPublicBondedByProposer =>
    "proposer already has a pending public bonded proposal"
  | .proposalCounterExhausted => "proposal counter is exhausted"
  | .invalidBondAmount => "proposal bond amount must be nonzero"
  | .proposalBondAlreadyRecorded => "proposal bond is already recorded"
  | .proposalBondNotUnsettled => "proposal bond is not unsettled"
  | .bondLiabilityOverflow => "proposal bond liability overflow"
  | .bondLiabilityUnderflow => "proposal bond liability underflow"
  | .invalidProposalBond expected actual =>
    s!"invalid proposal bond: expected {expected}, got {actual}"
  | .bondLiabilityInvariant balance liabilities =>
    s!"proposal bond liabilities {liabilities} exceed Vote balance {balance}"
  | .unknownTargetModule => "unknown vote target module"
  | .duplicateTargetModule => "duplicate vote target module handler"

/-- Broken bond accounting is fatal; everything else is a revert. -/
def VoteError.raise (e : VoteError) : PrecompileError :=
  match e with
  | .bondLiabilityOverflow | .bondLiabilityUnderflow | .bondLiabilityInvariant _ _ => .fatal e.text
  | _ => .revert e.text

/-! ### Records -/

inductive ProposalStatus where
  | pending
  | approved
  | rejected
  | expired
  | error
  deriving DecidableEq

/-- The proposal stays in the pending index. -/
def ProposalStatus.unsettled : ProposalStatus → Bool
  | .pending | .error => true
  | _ => false

inductive BondSettlement where
  | noBond
  | unsettled
  | refunded
  | burned
  deriving DecidableEq

inductive VoteKind where
  | no
  | yes
  deriving DecidableEq

def VoteKind.ofApprove (approve : Bool) : VoteKind := if approve then .yes else .no

structure ProposalRecord where
  proposer : Address
  targetModule : Address
  payload : String
  createdHeight : Nat
  votingDeadlineHeight : Nat
  status : ProposalStatus

structure VoteRecord where
  voter : Address
  voteKind : VoteKind
  blockNumber : Nat

structure ProposalBond where
  amount : Nat
  settlement : BondSettlement

structure Governance where
  proposalCount : Nat
  proposals : Nat → Option ProposalRecord
  proposalVoters : Nat → StorageVec VoteRecord
  votesMap : Nat → Address → Nat
  pendingProposalIds : List Nat
  proposalBondAmount : Nat → Nat
  proposalBondSettlement : Nat → BondSettlement
  unsettledBondLiabilities : Nat

def Governance.empty : Governance where
  proposalCount := 0
  proposals := fun _ => none
  proposalVoters := fun _ => .empty ⟨0, .no, 0⟩
  votesMap := fun _ _ => 0
  pendingProposalIds := []
  proposalBondAmount := fun _ => 0
  proposalBondSettlement := fun _ => .noBond
  unsettledBondLiabilities := 0

/-! ### Proposals and bonds -/

variable (proposalId : Nat)

def loadProposal : Call Governance ProposalRecord := do
  let record ← reads (·.proposals proposalId)
  ofExcept (okOr record VoteError.proposalNotFound.raise)

/-- Allocates the next id; a record without a proposer reads as absent. -/
def writeProposal (record : ProposalRecord) : Call Governance Nat := do
  let count ← reads (·.proposalCount)
  let proposalId ← ofExcept (okOr (checkedAdd 256 count 1) VoteError.proposalCounterExhausted.raise)
  modify fun g =>
    { g with
      proposalCount := proposalId
      proposals := update g.proposals proposalId
        (if record.proposer = 0 then none else some record)
      pendingProposalIds :=
        if record.status = .pending then g.pendingProposalIds ++ [proposalId]
        else g.pendingProposalIds }
  pure proposalId

def writeVote (voter : Address) (kind : VoteKind) (blockNumber : Nat) : Call Governance Unit := do
  let _ ← loadProposal proposalId
  let index ← reads fun g => (g.proposalVoters proposalId).length
  modify fun g =>
    { g with
      proposalVoters := update g.proposalVoters proposalId
        ((g.proposalVoters proposalId).push ⟨voter, kind, blockNumber⟩)
      votesMap := update g.votesMap proposalId
        (update (g.votesMap proposalId) voter (wrappingAdd 32 index 1)) }

def readVote (g : Governance) (proposalId : Nat) (voter : Address) : Option VoteRecord :=
  let position := g.votesMap proposalId voter
  if position = 0 then none else (g.proposalVoters proposalId).get (position - 1)

/-- Swap-removes a proposal from the pending index. -/
def removePendingProposalId : Call Governance Unit :=
  modify fun g =>
    { g with
      pendingProposalIds :=
        if proposalId ∈ g.pendingProposalIds then
          g.pendingProposalIds.swapRemove (g.pendingProposalIds.idxOf proposalId)
        else g.pendingProposalIds }

def setProposalStatus (newStatus : ProposalStatus) : Call Governance Unit := do
  let proposal ← loadProposal proposalId
  if proposal.status = newStatus then pure ()
  else do
    modify fun g =>
      { g with
        proposals := update g.proposals proposalId
          (some { proposal with status := newStatus }) }
    when (proposal.status.unsettled = true ∧ newStatus.unsettled = false)
      (removePendingProposalId proposalId)
    when (proposal.status.unsettled = false ∧ newStatus.unsettled = true)
      (modify fun g => { g with pendingProposalIds := g.pendingProposalIds ++ [proposalId] })

/-- The bond of a proposal, whose amount is zero exactly if there is none. -/
def proposalBond : Call Governance ProposalBond := do
  let _ ← loadProposal proposalId
  let g ← reads id
  let bond : ProposalBond := ⟨g.proposalBondAmount proposalId, g.proposalBondSettlement proposalId⟩
  failIf (¬ (bond.settlement = .noBond ↔ bond.amount = 0))
    (.fatal s!"proposal {proposalId} has inconsistent bond amount and settlement")
  pure bond

def recordProposalBond (proposalId amount : Nat) : Call Governance Unit := do
  failIf (amount = 0) VoteError.invalidBondAmount.raise
  checkpoint do
    let _ ← loadProposal proposalId
    let g ← reads id
    failIf
      (g.proposalBondSettlement proposalId ≠ .noBond ∨ g.proposalBondAmount proposalId ≠ 0)
      VoteError.proposalBondAlreadyRecorded.raise
    let liabilities ← ofExcept (okOr (checkedAdd 256 g.unsettledBondLiabilities amount)
      VoteError.bondLiabilityOverflow.raise)
    modify fun g =>
      { g with
        proposalBondAmount := update g.proposalBondAmount proposalId amount
        proposalBondSettlement := update g.proposalBondSettlement proposalId .unsettled
        unsettledBondLiabilities := liabilities }

/-- The accounting half of a refund or a burn. -/
def settleProposalBondAccounting (settlement : BondSettlement) : Call Governance Unit :=
  checkpoint do
    let _ ← loadProposal proposalId
    let g ← reads id
    failIf
      (g.proposalBondSettlement proposalId ≠ .unsettled ∨ g.proposalBondAmount proposalId = 0)
      VoteError.proposalBondNotUnsettled.raise
    let liabilities ← ofExcept
      (okOr (checkedSub g.unsettledBondLiabilities (g.proposalBondAmount proposalId))
        VoteError.bondLiabilityUnderflow.raise)
    modify fun g =>
      { g with
        proposalBondSettlement := update g.proposalBondSettlement proposalId settlement
        unsettledBondLiabilities := liabilities }

/-! ### Tallies -/

structure VoteTally where
  yes : Nat
  no : Nat

def VoteTally.count (activeValidators : List Address) (tally : VoteTally) (vote : VoteRecord) :
    VoteTally :=
  if activeValidators.contains vote.voter then
    match vote.voteKind with
    | .yes => { tally with yes := tally.yes + 1 }
    | .no => { tally with no := tally.no + 1 }
  else tally

/-- Counts the votes of voters that are active now. -/
def calculateVoteTally (votes : List VoteRecord) (activeValidators : List Address) : VoteTally :=
  votes.foldl (VoteTally.count activeValidators) ⟨0, 0⟩

/-- Two thirds of the active validators, of which there is one at least. -/
def quorumReached (yesVotes activeValidatorCount : Nat) : Bool :=
  activeValidatorCount ≠ 0 ∧
    yesVotes * quorumDenominator ≥ activeValidatorCount * quorumNumerator

/-! ### Target modules -/

inductive TargetAdmission where
  | activeValidatorOnly
  | publicBonded (amount : Nat)

structure VoteTargetContext where
  proposer : Address
  attachedValue : Nat
  blockNumber : Nat
  chainId : Nat

inductive TargetExecutionOutcome where
  | applied
  | error (reason : String)
  deriving DecidableEq

/-- The handler of a target module. -/
structure VoteTarget (τ : Type) where
  targetModule : Address
  admission : TargetAdmission
  validate : String → VoteTargetContext → Result Unit
  reserve : Nat → String → VoteTargetContext → Call τ Unit
  handleTally : Nat → String → VoteTargetContext → ProposalStatus → Call τ TargetExecutionOutcome

/-- The handler table and the constants of the chain. -/
structure Chain (τ : Type) where
  handlers : List (VoteTarget τ)
  votingWindowBlocks : Nat
  chainId : Nat

/-- The one handler registered for a target module. -/
def lookup {τ : Type} (handlers : List (VoteTarget τ)) (targetModule : Address) :
    Result (VoteTarget τ) :=
  match handlers.filter (·.targetModule = targetModule) with
  | [] => .error VoteError.unknownTargetModule.raise
  | [target] => .ok target
  | _ => .error VoteError.duplicateTargetModule.raise

/-! ### World -/

/-- The active validators: distinct, and none at the zero address. -/
structure Validators where
  addresses : List Address
  nodup : addresses.Nodup
  zero_notMem : 0 ∉ addresses

structure World (τ : Type) where
  governance : Governance
  target : τ
  balances : Address → Nat
  validators : Validators

variable {τ : Type}

def World.genesis (target : τ) (balances : Address → Nat) (validators : Validators) : World τ where
  governance := .empty
  target := target
  balances := balances
  validators := validators

def onGovernance {α : Type} (m : Call Governance α) : Call (World τ) α :=
  zoom World.governance (fun governance w => { w with governance := governance }) m

def onTarget {α : Type} (m : Call τ α) : Call (World τ) α :=
  zoom World.target (fun target w => { w with target := target }) m

def onBalances {α : Type} (m : Call (Address → Nat) α) : Call (World τ) α :=
  zoom World.balances (fun balances w => { w with balances := balances }) m

/-! ### Calls -/

section Calls

variable (X : Chain τ)

def ensureActiveValidator (caller : Address) : Call (World τ) Unit := do
  let active ← reads (·.validators.addresses)
  failIf (active.contains caller = false) VoteError.notValidator.raise

variable (admission : TargetAdmission)

/-- The attached value a target accepts, and from whom. -/
def checkAdmission (proposer : Address) (attachedValue : Nat) : Call (World τ) Unit :=
  match admission with
  | .activeValidatorOnly => do
    failIf (attachedValue ≠ 0) (VoteError.invalidProposalBond 0 attachedValue).raise
    ensureActiveValidator proposer
  | .publicBonded amount =>
    failIf (attachedValue ≠ amount) (VoteError.invalidProposalBond amount attachedValue).raise

def pendingProposalCountByProposer (g : Governance) (proposer : Address) : Nat :=
  g.pendingProposalIds.countP fun proposalId =>
    (g.proposals proposalId).any (·.proposer = proposer)

/-- Counts the pending public proposals, in total and of one proposer. -/
def pendingPublicBondedCounts (g : Governance) (proposer : Address) : Result (Nat × Nat) :=
  g.pendingProposalIds.foldlM (fun counts proposalId => do
    let proposal ← okOr (g.proposals proposalId) VoteError.proposalNotFound.raise
    let target ← lookup X.handlers proposal.targetModule
    match target.admission with
    | .activeValidatorOnly => pure counts
    | .publicBonded _ =>
      pure (saturatingAdd 32 counts.1 1,
        if proposal.proposer = proposer then saturatingAdd 32 counts.2 1 else counts.2)) (0, 0)

def checkPendingLimits (proposer : Address) : Call (World τ) Unit := do
  let g ← reads (·.governance)
  match admission with
  | .activeValidatorOnly =>
    failIf (maxPendingProposalsPerValidator ≤ pendingProposalCountByProposer g proposer)
      VoteError.tooManyPendingByValidator.raise
  | .publicBonded _ => do
    let counts ← ofExcept (pendingPublicBondedCounts X g proposer)
    failIf (maxPendingPublicBondedProposals ≤ counts.1) VoteError.tooManyPendingPublicBonded.raise
    failIf (0 < counts.2) VoteError.tooManyPendingPublicBondedByProposer.raise

variable (proposalId : Nat)

/-- Records the bond of a public proposal, which the balance must cover. -/
def escrowBond : Call (World τ) Unit :=
  match admission with
  | .activeValidatorOnly => pure ()
  | .publicBonded amount => do
    onGovernance (recordProposalBond proposalId amount)
    let w ← reads id
    failIf (w.balances voteAddress < w.governance.unsettledBondLiabilities)
      (VoteError.bondLiabilityInvariant (w.balances voteAddress)
        w.governance.unsettledBondLiabilities).raise

/-- Creates a pending proposal; its value has been credited already. -/
def createProposalWithValue (proposer targetModule : Address) (payload : String)
    (currentHeight attachedValue : Nat) : Call (World τ) Nat := do
  let target ← ofExcept (lookup X.handlers targetModule)
  checkAdmission target.admission proposer attachedValue
  let pendingLen ← reads (·.governance.pendingProposalIds.length)
  failIf (maxPendingProposals ≤ pendingLen) VoteError.tooManyPending.raise
  checkPendingLimits X target.admission proposer
  let context : VoteTargetContext := ⟨proposer, attachedValue, currentHeight, X.chainId⟩
  ofExcept (target.validate payload context)
  checkpoint do
    let proposalId ← onGovernance (writeProposal
      { proposer := proposer
        targetModule := targetModule
        payload := payload
        createdHeight := currentHeight
        votingDeadlineHeight := saturatingAdd 64 currentHeight X.votingWindowBlocks
        status := .pending })
    onTarget (target.reserve proposalId payload context)
    escrowBond target.admission proposalId
    pure proposalId

def castVoteApprove (voter : Address) (approve : Bool) (blockNumber : Nat) :
    Call (World τ) Unit := do
  ensureActiveValidator voter
  let proposal ← onGovernance (loadProposal proposalId)
  failIf (proposal.status ≠ .pending) VoteError.notPending.raise
  failIf (proposal.votingDeadlineHeight < blockNumber) VoteError.votingClosed.raise
  let g ← reads (·.governance)
  failIf ((readVote g proposalId voter).isSome = true) VoteError.alreadyVoted.raise
  onGovernance (writeVote proposalId voter (.ofApprove approve) blockNumber)

/-- Hands a tally to its target; a declared failure rolls the target's writes back. -/
def handleTargetTally (proposal : ProposalRecord) (attachedValue height : Nat)
    (status : ProposalStatus) : Call (World τ) TargetExecutionOutcome := do
  let before ← reads (·.target)
  let target ← ofExcept (lookup X.handlers proposal.targetModule)
  let context : VoteTargetContext := ⟨proposal.proposer, attachedValue, height, X.chainId⟩
  let outcome ← onTarget (target.handleTally proposalId proposal.payload context status)
  when (outcome ≠ .applied) (modify fun w => { w with target := before })
  pure outcome

/-- Refunds or burns the bond of a proposal that was approved or has expired. -/
def settleTerminalBond (owner : Address) (bond : ProposalBond)
    (status : ProposalStatus) : Call (World τ) Unit := do
  if bond.settlement = .noBond then pure ()
  else do
    failIf (bond.settlement ≠ .unsettled)
      (.fatal s!"pending proposal {proposalId} has an already settled bond")
    if status = .approved then do
      onBalances (transferBalance voteAddress owner bond.amount)
      onGovernance (settleProposalBondAccounting proposalId .refunded)
    else do
      onBalances (decreaseBalance voteAddress bond.amount)
      onGovernance (settleProposalBondAccounting proposalId .burned)

/-- What the votes of the validators that are active now say. -/
def tallyStatus (w : World τ) (proposalId : Nat) : ProposalStatus :=
  let active := w.validators.addresses
  let tally := calculateVoteTally (w.governance.proposalVoters proposalId).readAll active
  if quorumReached tally.yes active.length then .approved else .expired

def finalizeVoting (height proposalId : Nat) : Call (World τ) Unit := do
  let proposal ← onGovernance (loadProposal proposalId)
  if proposal.status ≠ .pending then pure ()
  else do
    let status ← reads (tallyStatus · proposalId)
    let bond ← onGovernance (proposalBond proposalId)
    let outcome ← handleTargetTally X proposalId proposal bond.amount height status
    if outcome = .applied then do
      onGovernance (setProposalStatus proposalId status)
      settleTerminalBond proposalId proposal.proposer bond status
    else onGovernance (setProposalStatus proposalId .error)

/-- Tallies the proposals whose voting window has closed. -/
def processBeginBlock (blockNumber : Nat) : Call (World τ) Unit := do
  let pendingIds ← reads (·.governance.pendingProposalIds)
  pendingIds.forM fun proposalId => do
    let proposal ← onGovernance (loadProposal proposalId)
    when (proposal.status = .pending ∧ proposal.votingDeadlineHeight < blockNumber)
      (finalizeVoting X blockNumber proposalId)

/-! ### Runs -/

inductive Op where
  | createProposal (proposer targetModule : Address) (payload : String)
      (currentHeight attachedValue : Nat)
  | castVote (proposalId : Nat) (voter : Address) (approve : Bool) (blockNumber : Nat)
  | processBeginBlock (blockNumber : Nat)
  | setValidators (validators : Validators)
  /-- Native value moves; the module itself signs no transfer. -/
  | transfer (src dst : Address) (amount : Nat)

def Op.call : Op → Call (World τ) Unit
  | .createProposal proposer targetModule payload currentHeight attachedValue => do
    onBalances (transferBalance proposer voteAddress attachedValue)
    let _ ← createProposalWithValue X proposer targetModule payload currentHeight attachedValue
    pure ()
  | .castVote proposalId voter approve blockNumber =>
    castVoteApprove proposalId voter approve blockNumber
  | .processBeginBlock blockNumber => Vote.processBeginBlock X blockNumber
  | .setValidators validators => modify fun w => { w with validators := validators }
  | .transfer src dst amount => do
    failIf (src = voteAddress) (.revert "the module signs no transfer")
    onBalances (transferBalance src dst amount)

/-- Runs an entry point; a failed one leaves nothing behind. -/
def step (op : Op) (w : World τ) : World τ := ((checkpoint (op.call X)).run w).2

end Calls

end Rudis.Vote

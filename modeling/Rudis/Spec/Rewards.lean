import Rudis.Spec.PromisLimit

/-!
# `Rudis.Spec.Rewards`: fee escrow, inclusion windows and participation

The per-block part of the Rewards precompile: the escrow and settlement of a block's fees
(`late_settlement.rs`), the finalized-metadata hook (`finalized_metadata_hook.rs`) and the path of
a burned residue into PromisLimit (`emissionlimit/src/block.rs`, `metadosis/src/emission_sink.rs`).
`Op` lists the calls the block executor makes of them and `step` runs one of them.

Storage that the source keeps in parallel mappings with one key is a mapping to one record here:
`Window` and `BlockGuard` by block hash, `Binding` by block number, `DayBook` by UTC day. Where the
source alternates the writes of one record with its overflow checks, the checks stand first, in
their order: a failed call is reverted as a whole.
-/

namespace Rudis.Rewards

/-! ### Constants -/

/-- Length of the inclusion window, in blocks. -/
def lateFinalizeWindowK : Nat := 3

/-- Weights by inclusion distance. -/
def lateFinalizeDecay : List Nat := [100, 100, 100, 0]

/-- The largest weight. -/
def lateFinalizeWMax : Nat := 100

/-- Weight of an inclusion distance; zero outside the window. -/
def decayWeight (k : Nat) : Nat := lateFinalizeDecay.getD k 0

/-- Denominator of a block's payouts. -/
def fixedDenominator (committeeSize : Nat) : Nat := min (committeeSize * lateFinalizeWMax) (2 ^ 256 - 1)

/-- Finalized blocks whose guards stay live. -/
def blockGuardRetain : Nat := 64

/-! ### Storage -/

/-- The escrow of one finalized block and the credits of its inclusion window (1, 16, 18..20, 43). -/
@[ext] structure Window where
  pendingFees : Nat
  pendingRewardDay : Nat
  lateVoterCount : Nat
  lateVoterAt : Nat → Address
  /-- The smallest credited distance plus one; zero when the voter is not credited. -/
  lateVoterKPlus1 : Address → Nat
  participationCounted : Address → Bool

/-- A window nothing was written to. -/
def Window.empty : Window := ⟨0, 0, 0, fun _ => 0, fun _ => 0, fun _ => false⟩

/-- The guards of one finalized block (12..14, 17). -/
structure BlockGuard where
  metadataCounted : Bool
  metadataFingerprint : B256
  feeDustCounted : Bool
  feeSettled : Bool

/-- Guards nothing was written to. -/
def BlockGuard.empty : BlockGuard := ⟨false, 0, false, false⟩

/-- The canonical binding of one block number (21..26). -/
structure Binding where
  fbHash : B256
  committeeSize : Nat
  epoch : Nat
  committeeSetHash : B256
  view : Nat
  parentView : Nat

/-- A number nothing is bound to. -/
def Binding.empty : Binding := ⟨0, 0, 0, 0, 0, 0⟩

/-- The accumulators of one UTC day (2, 5..8, 33, 44). -/
structure DayBook where
  feeSumRaw : Nat
  participation : Address → Nat
  totalParticipation : Nat
  voterCount : Nat
  voterAt : Nat → Address
  topupPrepared : Bool
  lastWindowClose : Nat

/-- A day nothing was written to. -/
def DayBook.empty : DayBook := ⟨0, fun _ => 0, 0, 0, fun _ => 0, false, 0⟩

/-- Storage of the Rewards precompile. -/
structure Store where
  window : B256 → Window
  guard : B256 → BlockGuard
  binding : Nat → Binding
  day : Nat → DayBook
  maxObservedFinalizedDay : Nat
  lastSettledUtcDay : Nat
  blockGuardRing : Nat → B256
  blockGuardRingSeq : Nat

/-- A fresh deployment. -/
def Store.empty : Store :=
  ⟨fun _ => .empty, fun _ => .empty, fun _ => .empty, fun _ => .empty, 0, 0, fun _ => 0, 0⟩

/-- What the calls read and write: Rewards, the native balances and PromisLimit's accumulator. -/
structure World where
  rewards : Store
  balance : Address → Nat
  totalUnallocated : Nat

/-- Outcome of the checks Metadosis makes around a late-settlement credit, none of which reads the
amount: the mutation lease, the active OCOMP profile and the validation of its aggregate. -/
abbrev MetadosisGate := Result Unit

/-- The world with one block's window rewritten. -/
def World.mapWindow (w : World) (fbHash : B256) (f : Window → Window) : World :=
  { w with rewards := { w.rewards with
    window := update w.rewards.window fbHash (f (w.rewards.window fbHash)) } }

/-- The world with one block's guards rewritten. -/
def World.mapGuard (w : World) (fbHash : B256) (f : BlockGuard → BlockGuard) : World :=
  { w with rewards := { w.rewards with
    guard := update w.rewards.guard fbHash (f (w.rewards.guard fbHash)) } }

/-- The world with one number's binding replaced. -/
def World.setBinding (w : World) (number : Nat) (binding : Binding) : World :=
  { w with rewards := { w.rewards with
    binding := update w.rewards.binding number binding } }

/-- The world with one day's book rewritten. -/
def World.mapDay (w : World) (day : Nat) (f : DayBook → DayBook) : World :=
  { w with rewards := { w.rewards with
    day := update w.rewards.day day (f (w.rewards.day day)) } }

variable (fbHash : B256)

def writeWindow (f : Window → Window) : Call World Unit :=
  modify (·.mapWindow fbHash f)

def writeGuard (f : BlockGuard → BlockGuard) : Call World Unit :=
  modify (·.mapGuard fbHash f)

def writeBinding (number : Nat) (binding : Binding) : Call World Unit :=
  modify (·.setBinding number binding)

def writeDay (day : Nat) (f : DayBook → DayBook) : Call World Unit :=
  modify (·.mapDay day f)

def readWindow : Call World Window := reads (·.rewards.window fbHash)

def onBalances (m : Call (Address → Nat) Unit) : Call World Unit :=
  zoom (·.balance) (fun balance w => { w with balance }) m

/-- A call on PromisLimit's accumulator. -/
def onPromisLimit {α : Type} (m : Call Nat α) : Call World α :=
  zoom (·.totalUnallocated) (fun totalUnallocated w => { w with totalUnallocated }) m

/-! ### Participation -/

/-- The day book with one more participation of a voter; a voter's first one of the day enters the
voter list. -/
def DayBook.count (d : DayBook) (voter : Address) : DayBook :=
  { d with
    voterAt := if d.participation voter = 0 then update d.voterAt d.voterCount voter
      else d.voterAt
    voterCount := if d.participation voter = 0 then d.voterCount + 1 else d.voterCount
    participation := update d.participation voter (d.participation voter + 1)
    totalParticipation := d.totalParticipation + 1 }

/-- The window with the participation of a voter marked as counted. -/
def Window.markCounted (w : Window) (voter : Address) : Window :=
  { w with participationCounted := update w.participationCounted voter true }

/-- Counts one verified participant of a block once. -/
def recordRewardParticipation (fbDay : Nat) (voter : Address) : Call World Unit := do
  let window ← readWindow fbHash
  when (window.participationCounted voter = false) do
    let d ← reads (·.rewards.day fbDay)
    failIf (d.topupPrepared = true)
      (.fatal "reward participation arrived after GEM batch preparation")
    failIf (d.participation voter = 0 ∧ d.voterCount + 1 ≥ 2 ^ 32)
      (.revert "daily_voter_count overflow")
    failIf (d.participation voter + 1 ≥ 2 ^ 64) (.revert "daily_participation overflow")
    failIf (d.totalParticipation + 1 ≥ 2 ^ 64) (.revert "daily_total_participation overflow")
    writeDay fbDay (·.count voter)
    writeWindow fbHash (·.markCounted voter)

/-! ### Credits and escrow -/

/-- The window with a credit of a voter at a distance: a new voter is appended, a known one keeps
its smallest distance. -/
def Window.credit (w : Window) (voter : Address) (k : Nat) : Window :=
  if w.lateVoterKPlus1 voter = 0 then
    { w with
      lateVoterAt := update w.lateVoterAt w.lateVoterCount voter
      lateVoterCount := w.lateVoterCount + 1
      lateVoterKPlus1 := update w.lateVoterKPlus1 voter (k + 1) }
  else if k < w.lateVoterKPlus1 voter - 1 then
    { w with lateVoterKPlus1 := update w.lateVoterKPlus1 voter (k + 1) }
  else w

/-- Counts the participation of a late voter on the block's own day. -/
def recordLateParticipation (voter : Address) : Call World Unit := do
  let window ← readWindow fbHash
  failIf (window.pendingRewardDay = 0) (.fatal "late reward credit has no canonical UTC day")
  recordRewardParticipation fbHash window.pendingRewardDay voter

/-- Enters a credit into the block's window. -/
def enterCredit (voter : Address) (k : Nat) : Call World Unit := do
  let window ← readWindow fbHash
  failIf (window.lateVoterKPlus1 voter = 0 ∧ window.lateVoterCount + 1 ≥ 2 ^ 32)
    (.revert "late_voter_count overflow")
  writeWindow fbHash (·.credit voter k)

/-- Records one credited voter of a block at an inclusion distance. -/
def recordLateCredit (voter : Address) (k : Nat) : Call World Unit := do
  let settled ← reads (·.rewards.guard fbHash |>.feeSettled)
  when (settled = false) do
    failIf (k > lateFinalizeWindowK) (.fatal "reward credit outside inclusion window")
    when (k > 0) (recordLateParticipation fbHash voter)
    enterCredit fbHash voter k

/-- Escrows a block's fees and credits the base voters at distance zero. -/
def escrowBlockFee (fbNumber : Nat) (fbHash : B256) (feeSum committeeSize canonicalEpoch
    canonicalView canonicalParentView : Nat) (canonicalCommitteeSetHash : B256)
    (baseVoters : List Address) : Call World Unit := do
  let settled ← reads (·.rewards.guard fbHash |>.feeSettled)
  when (settled = false) do
    writeWindow fbHash ({ · with pendingFees := feeSum })
    writeBinding fbNumber ⟨fbHash, committeeSize, canonicalEpoch, canonicalCommitteeSetHash,
      canonicalView, canonicalParentView⟩
    baseVoters.forM fun voter => recordLateCredit fbHash voter 0

/-! ### The path of a residue -/

variable (gate : MetadosisGate)

/-- Metadosis: credits a late-settlement amount to the carry-over; returns what is unused. -/
def applyLateSettlementHeadroom (amount : Nat) : Call World Nat := do
  ofExcept gate
  let _ ← onPromisLimit (PromisLimit.checkedAddCarryOver amount)
  pure 0

/-- EmissionLimit: sends a residue to Metadosis, which must use all of it. -/
def dispatchLateSettlementResidueAt (amount : Nat) : Call World Unit :=
  when (amount ≠ 0) do
    let unused ← applyLateSettlementHeadroom gate amount
    failIf (unused ≠ 0) (.revert "late-settlement terminal sink returned unused amount")

/-! ### Settlement -/

/-- Pays one voter of the window; returns the distributed sum so far. -/
def payVoter (pending denominator distributed idx : Nat) : Call World Nat := do
  let window ← readWindow fbHash
  let voter := window.lateVoterAt idx
  let stored := window.lateVoterKPlus1 voter
  if stored = 0 ∨ decayWeight (stored - 1) = 0 then pure distributed
  else do
    let product ← ofExcept (okOr (checkedMul 256 pending (decayWeight (stored - 1)))
      (.revert "late payout multiply overflow"))
    if product / denominator = 0 then pure distributed
    else do
      onBalances (transferBalance rewardsAddress voter (product / denominator))
      ofExcept (okOr (checkedAdd 256 distributed (product / denominator))
        (.revert "late distributed overflow"))

/-- Frees the slots of one credited voter. -/
def Window.clearVoter (w : Window) (idx : Nat) : Window :=
  { w with
    lateVoterKPlus1 := update w.lateVoterKPlus1 (w.lateVoterAt idx) 0
    participationCounted := update w.participationCounted (w.lateVoterAt idx) false
    lateVoterAt := update w.lateVoterAt idx 0 }

def Window.free (w : Window) : Window :=
  { (List.range w.lateVoterCount).foldl Window.clearVoter w with
    lateVoterCount := 0
    pendingFees := 0
    pendingRewardDay := 0 }

/-- Burns the residue and recycles it into emission headroom. -/
def burnResidue (residue : Nat) : Call World Unit :=
  when (residue ≠ 0) do
    onBalances (decreaseBalance rewardsAddress residue)
    dispatchLateSettlementResidueAt gate residue

/-- Pays out an unsettled window; returns the distributed sum and the residue. -/
def payWindow (fbHash : B256) (committeeSize : Nat) : Call World (Nat × Nat) := do
  let window ← readWindow fbHash
  let denominator := fixedDenominator committeeSize
  failIf (denominator = 0) (.revert "late settle denominator is zero (empty committee)")
  let distributed ← (List.range window.lateVoterCount).foldlM
    (payVoter fbHash window.pendingFees denominator) 0
  let residue ← ofExcept (okOr (checkedSub window.pendingFees distributed)
    (.revert "late settle insolvent: distributed exceeds escrow"))
  burnResidue gate residue
  let total ← ofExcept (okOr (checkedAdd 256 distributed residue) (.revert "late parity overflow"))
  failIf (total ≠ window.pendingFees) (.revert "late settle parity violated")
  writeGuard fbHash ({ · with feeSettled := true })
  writeWindow fbHash (·.free)
  pure (distributed, residue)

/-- Settles the window of a block once. -/
def settleWindow (fbHash : B256) (committeeSize : Nat) : Call World (Nat × Nat) := do
  let settled ← reads (·.rewards.guard fbHash |>.feeSettled)
  if settled then pure (0, 0) else payWindow gate fbHash committeeSize

/-- Settles the block whose window closes at `currentBlock`. -/
def settleMatured (currentBlock windowK : Nat) : Call World (Nat × Nat) := do
  if currentBlock < windowK ∨ currentBlock - windowK = 0 then pure (0, 0)
  else do
    let binding ← reads (·.rewards.binding (currentBlock - windowK))
    if binding.fbHash = 0 then pure (0, 0)
    else do
      let result ← settleWindow gate binding.fbHash binding.committeeSize
      writeBinding (currentBlock - windowK) .empty
      pure result

/-! ### The finalized-metadata hook -/

/-- What the hook reads of the metadata of a finalized block. -/
structure FinalizedMetadata where
  finalizedBlockNumber : Nat
  finalizedBlockHash : B256
  finalizedEpoch : Nat
  finalizedView : Nat
  parentView : Nat
  committeeSetHash : B256
  orderedCommittee : List Address

/-- The world with a block in a cell of the guard ring. -/
def World.enterRing (w : World) (cell : Nat) (fbHash : B256) (seq : Nat) : World :=
  { w with rewards := { w.rewards with
    blockGuardRing := update w.rewards.blockGuardRing cell fbHash
    blockGuardRingSeq := seq } }

/-- Enters a block into the guard ring and frees the guards of the one it evicts. -/
def pruneBlockGuards : Call World Unit := do
  let seq ← reads (·.rewards.blockGuardRingSeq)
  let evicted ← reads (·.rewards.blockGuardRing (seq % blockGuardRetain))
  when (evicted ≠ 0 ∧ evicted ≠ fbHash) (writeGuard evicted fun _ => .empty)
  let next ← ofExcept (okOr (checkedAdd 64 seq 1) (.revert "block_guard_ring_seq overflow"))
  modify (·.enterRing (seq % blockGuardRetain) fbHash next)

/-- Accumulates a block's fees when its metadata is first seen. -/
def countBlock (metadata : FinalizedMetadata) (validatorFeeSum fbDay : Nat) : Call World Unit := do
  let closesAt ← ofExcept (okOr (checkedAdd 64 metadata.finalizedBlockNumber lateFinalizeWindowK)
    (.fatal "reward window height overflow"))
  writeWindow metadata.finalizedBlockHash ({ · with pendingRewardDay := fbDay })
  writeDay fbDay fun d => { d with lastWindowClose := max d.lastWindowClose closesAt }
  let d ← reads (·.rewards.day fbDay)
  let nextRaw ← ofExcept (okOr (checkedAdd 256 d.feeSumRaw validatorFeeSum)
    (.revert "daily_fee_sum_raw overflow"))
  writeDay fbDay ({ · with feeSumRaw := nextRaw })
  writeGuard metadata.finalizedBlockHash ({ · with metadataCounted := true })

/-- The world with the day-settle window opened on the first finalized day observed. -/
def World.openDays (w : World) (fbDay : Nat) : World :=
  { w with rewards := { w.rewards with
    lastSettledUtcDay := if w.rewards.lastSettledUtcDay = 0 then previousDateKey fbDay
      else w.rewards.lastSettledUtcDay } }

/-- The world with the largest finalized day observed. -/
def World.observeDay (w : World) (fbDay : Nat) : World :=
  { w with rewards := { w.rewards with
    maxObservedFinalizedDay := max w.rewards.maxObservedFinalizedDay fbDay } }

/-- The per-block hook: fee accumulation, escrow, participation and guard pruning. -/
def onFinalizedMetadata (metadata : FinalizedMetadata) (validatorFeeSum
    finalizedBlockTimestamp : Nat) (voters : List Address) : Call World Unit := do
  let fbHash := metadata.finalizedBlockHash
  let fbDay := timestampToDateKey finalizedBlockTimestamp
  let counted ← reads (·.rewards.guard fbHash |>.metadataCounted)
  modify (·.openDays fbDay)
  when (counted = false) (countBlock metadata validatorFeeSum fbDay)
  escrowBlockFee metadata.finalizedBlockNumber fbHash validatorFeeSum
    (min metadata.orderedCommittee.length (2 ^ 32 - 1)) metadata.finalizedEpoch
    metadata.finalizedView metadata.parentView metadata.committeeSetHash voters
  voters.forM fun voter => recordRewardParticipation fbHash fbDay voter
  modify (·.observeDay fbDay)
  when (counted = false) (pruneBlockGuards fbHash)

/-! ### The calls of the block executor -/

/-- What the chain finalized under a block hash. -/
structure FinalizedBlock where
  number : Nat
  epoch : Nat
  view : Nat
  parentView : Nat
  committeeSetHash : B256
  orderedCommittee : List Address
  validatorFeeSum : Nat
  timestamp : Nat

def FinalizedBlock.metadata (block : FinalizedBlock) (fbHash : B256) : FinalizedMetadata :=
  ⟨block.number, fbHash, block.epoch, block.view, block.parentView, block.committeeSetHash,
    block.orderedCommittee⟩

def FinalizedBlock.day (block : FinalizedBlock) : Nat := timestampToDateKey block.timestamp

/-- A validator that can be credited: a registered account, never the Rewards precompile. -/
structure Voter where
  address : Address
  ne_rewards : address ≠ rewardsAddress

/-- One call that reaches the fee windows. The finalized block behind a hash is the chain's, and so
are its fees and its timestamp; the voters are those of the certificate delivered with it. -/
inductive Op where
  | onFinalizedMetadata (fbHash : B256) (voters : List Voter)
  | escrowBlockFee (fbNumber : Nat) (fbHash : B256) (feeSum : Nat) (committeeSize : UInt32)
      (canonicalEpoch canonicalView canonicalParentView : Nat) (canonicalCommitteeSetHash : B256)
      (baseVoters : List Voter)
  | recordLateCredit (fbHash : B256) (voter : Voter) (k : Nat)
  | settleMatured (gate : MetadosisGate) (currentBlock windowK : Nat)

variable (chain : B256 → FinalizedBlock)

/-- The call an operation makes. -/
def Op.call : Op → Call World Unit
  | .onFinalizedMetadata fbHash voters =>
    Rewards.onFinalizedMetadata ((chain fbHash).metadata fbHash) (chain fbHash).validatorFeeSum
      (chain fbHash).timestamp (voters.map (·.address))
  | .escrowBlockFee fbNumber fbHash feeSum committeeSize canonicalEpoch canonicalView
      canonicalParentView canonicalCommitteeSetHash baseVoters =>
    Rewards.escrowBlockFee fbNumber fbHash feeSum committeeSize.toNat canonicalEpoch canonicalView
      canonicalParentView canonicalCommitteeSetHash (baseVoters.map (·.address))
  | .recordLateCredit fbHash voter k => Rewards.recordLateCredit fbHash voter.address k
  | .settleMatured gate currentBlock windowK => do
    let _ ← Rewards.settleMatured gate currentBlock windowK
    pure ()

/-- Runs one operation; a failed one changes nothing. -/
def step (op : Op) (w : World) : World := ((checkpoint (op.call chain)).run w).2

/-- A step is a successful call, or nothing. -/
theorem step_cases (op : Op) (w : World) :
    Ok (op.call chain) w () (step chain op w) ∨ step chain op w = w := by
  rcases Tx.checkpoint_cases (op.call chain) w with ⟨_, h⟩ | h
  · exact .inl h
  · exact .inr h

/-- Rewards as deployed. -/
def World.fresh (balance : Address → Nat) (totalUnallocated : Nat) : World :=
  ⟨.empty, balance, totalUnallocated⟩

def firstVoter : Voter := ⟨1, by decide⟩

def secondVoter : Voter := ⟨2, by decide⟩

/-- A committee of two finalizes block 1 under the hash 7 with a fee of two protocol units. -/
def sampleChain : B256 → FinalizedBlock :=
  fun _ => ⟨1, 0, 0, 0, 0, [1, 2], 2 * nativeUnitsPerProtocolUnit, 1704067200⟩

/-- A fresh deployment whose escrow account holds the fees of the sample block. -/
def sampleGenesis : World :=
  .fresh (update (fun _ => 0) rewardsAddress (2 * nativeUnitsPerProtocolUnit)) 0

/-- The sample block, delivered with the votes of `voters`. -/
def sampleDelivery (voters : List Voter) : Op := .onFinalizedMetadata 7 voters

end Rudis.Rewards

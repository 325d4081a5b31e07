import Rudis.Spec.Primitives
import Rudis.Spec.ActiveSet

/-!
# `Rudis.Spec.Intex.Proceeds`: contributors, proceeds and payout rounds of a day

The part of the Intex registry the creator rewards use (`intex/src/api.rs`, `intex/src/state.rs`):
the recorded contributors of a day, the pot its proceeds are collected in, the paginated legacy
distribution and the certified payout round with its bitmap of paid leaves.

The numbered contributor entries of a day are a list, and a mapping keyed by the hash of a day and a
chain or a word index is a mapping of the two. A record exists when its `active` flag is set, so it
is an `Option`. The packed metadata of a certified generation is written by the installation only,
which checks what a reader would reject as malformed.
-/

namespace Rudis.Intex

open Days (ActiveSet)

/-! ### Errors -/

inductive IntexError where
  | seriesNotFound
  | zeroIssuedAt
  | invalidState (expected actual : Nat)
  | invalidStateEither (first second actual : Nat)
  | realizedUnitsOverflow
  | badContributorBatch (why : String)
  | contributorProofMismatch
  | contributorLeavesAlreadyPaid (day : Nat)
  | certifiedRoundExists (day : Nat)

def IntexError.text : IntexError → String
  | .seriesNotFound => "series not found"
  | .zeroIssuedAt => "issuedAt must be non-zero"
  | .invalidState expected actual =>
    s!"invalid lifecycle state: expected {expected}, actual {actual}"
  | .invalidStateEither first second actual =>
    s!"expected lifecycle state {first} or {second}, actual {actual}"
  | .realizedUnitsOverflow => "realized units exceed the issued count for series"
  | .badContributorBatch why => s!"invalid contributor payout batch: {why}"
  | .contributorProofMismatch => "contributor batch does not match the certified root"
  | .contributorLeavesAlreadyPaid day => s!"contributor leaves already paid for series {day}"
  | .certifiedRoundExists day => s!"certified payout round already open for series {day}"

/-- A registry error reaches the caller as a revert. -/
def IntexError.raise (e : IntexError) : PrecompileError := .revert e.text

/-! ### Storage -/

/-- A paginated legacy distribution in flight. -/
structure DistProgress where
  amount : Nat
  totalNominal : Nat
  paidSoFar : Nat
  cursor : Nat

structure CertifiedPayoutRound where
  amount : Nat
  paidSoFar : Nat
  paidLeafCount : Nat

/-- The certified contributor authority of a day. -/
structure CertifiedContributorGeneration where
  contributorRoot : B256
  contributorCount : Nat
  eligibleNominalTotal : Nat

/-- One certified contributor record. -/
structure ContributorLeafData where
  owner : Address
  sourceTributeId : Nat
  nominal : Nat

/-- Maximum leaves in one payout batch. -/
def contributorChunkCapacity : Nat := 2 ^ 8

structure Registry where
  contributors : WorldwideDay → List (Address × Nat)
  contributorTotal : WorldwideDay → Nat
  distProgress : WorldwideDay → Option DistProgress
  activeDist : ActiveSet
  proceedsPot : WorldwideDay → Nat
  proceedsDeadline : WorldwideDay → Nat
  proceedsExpectedCount : WorldwideDay → Nat
  proceedsArrivedCount : WorldwideDay → Nat
  proceedsExpected : WorldwideDay → Nat → Bool
  proceedsArrived : WorldwideDay → Nat → Bool
  proceedsFinalizeOnDone : WorldwideDay → Bool
  awaitingProceeds : ActiveSet
  certified : WorldwideDay → Option CertifiedContributorGeneration
  payoutRound : WorldwideDay → Option CertifiedPayoutRound
  /-- One word of 256 paid flags per chunk. -/
  paidLeaves : WorldwideDay → Nat → Nat

def Registry.empty : Registry where
  contributors := fun _ => []
  contributorTotal := fun _ => 0
  distProgress := fun _ => none
  activeDist := .empty
  proceedsPot := fun _ => 0
  proceedsDeadline := fun _ => 0
  proceedsExpectedCount := fun _ => 0
  proceedsArrivedCount := fun _ => 0
  proceedsExpected := fun _ _ => false
  proceedsArrived := fun _ _ => false
  proceedsFinalizeOnDone := fun _ => false
  awaitingProceeds := .empty
  certified := fun _ => none
  payoutRound := fun _ => none
  paidLeaves := fun _ _ => 0

/-! ### Contributors -/

variable (day : WorldwideDay)

/-- Writes the contributor list of a day and its nominal total. -/
def writeContributors (contributors : List (Address × Nat)) : Call Registry Unit :=
  modify fun r =>
    { r with
      contributors := update r.contributors day contributors
      contributorTotal := update r.contributorTotal day
        (contributors.foldl (fun total c => wrappingAdd 256 total c.2) 0) }

/-- Records the contributors of a day; a certified generation closes this path. -/
def recordContributors (contributors : List (Address × Nat)) : Call Registry Unit := do
  let certified ← reads (·.certified day)
  failIf (certified.isSome = true)
    (.revert "legacy contributors cannot replace certified contributor authority")
  writeContributors day contributors

def clearContributors : Call Registry Unit :=
  modify fun r =>
    { r with
      contributors := update r.contributors day []
      contributorTotal := update r.contributorTotal day 0 }

/-- The contributor at an index; a slot past the list reads as zero. -/
def contributorAt (index : Nat) : Call Registry (Address × Nat) :=
  reads fun r => (r.contributors day).getD index (0, 0)

/-- Installs a certified contributor root once, on a day without legacy contributors. -/
def installCertifiedContributorRoot (g : CertifiedContributorGeneration) : Call Registry Unit := do
  failIf (g.contributorRoot = 0) (.revert "certified contributor root is zero")
  failIf (¬ (g.contributorCount = 0 ↔ g.eligibleNominalTotal = 0))
    (.revert "certified contributor aggregate exceeds its bound")
  let r ← reads id
  failIf (r.contributors day ≠ [] ∨ r.contributorTotal day ≠ 0)
    (.revert "certified contributor target is not empty")
  failIf ((r.certified day).isSome = true)
    (.revert "certified contributor root cannot be overwritten")
  modify fun r => { r with certified := update r.certified day (some g) }

/-! ### Paginated distribution -/

/-- Opens a paginated distribution and enrolls the day in the active set. -/
def startDistribution (amount totalNominal : Nat) : Call Registry Unit := do
  let progress ← reads (·.distProgress day)
  failIf (progress.isSome = true) (.revert "DistProgress already exists")
  modify fun r =>
    { r with
      distProgress := update r.distProgress day (some ⟨amount, totalNominal, 0, 0⟩)
      activeDist := r.activeDist.push day }

/-- Persists an updated progress record. -/
def saveProgress (progress : DistProgress) : Call Registry Unit :=
  modify fun r =>
    { r with distProgress := update r.distProgress day (some progress) }

/-- Ends one distribution round; the contributors stay. -/
def finishDistributionRound : Call Registry Unit :=
  modify fun r =>
    { r with
      distProgress := update r.distProgress day none
      activeDist := r.activeDist.remove day }

/-! ### Proceeds fan-in -/

/-- Marks one winning chain expected; returns how many chains have become expected. -/
def expectChain (expected chain : Nat) : Call Registry Nat := do
  let known ← reads (·.proceedsExpected day chain)
  if known then pure expected
  else do
    modify fun r =>
      { r with
        proceedsExpected := update r.proceedsExpected day
          (update (r.proceedsExpected day) chain true) }
    pure (expected + 1)

def armProceeds (winningChains : List Nat) (deadline : Nat) : Call Registry Unit := do
  let expected ← winningChains.foldlM (expectChain day) 0
  modify fun r =>
    { r with
      proceedsExpectedCount := update r.proceedsExpectedCount day
        (wrappingAdd 32 (r.proceedsExpectedCount day) expected)
      proceedsDeadline := update r.proceedsDeadline day deadline
      awaitingProceeds := r.awaitingProceeds.push day }

/-- Credits a chain's proceeds to the pot; a chain counts once toward the fan-in. -/
def creditProceeds (srcChainId amount : Nat) : Call Registry Unit := do
  modify fun r =>
    { r with
      proceedsPot := update r.proceedsPot day
        (wrappingAdd 256 (r.proceedsPot day) amount) }
  let r ← reads id
  when (r.proceedsExpected day srcChainId = true ∧ r.proceedsArrived day srcChainId = false)
    (modify fun r =>
      { r with
        proceedsArrived := update r.proceedsArrived day
          (update (r.proceedsArrived day) srcChainId true)
        proceedsArrivedCount := update r.proceedsArrivedCount day
          (wrappingAdd 32 (r.proceedsArrivedCount day) 1) })

/-- Every expected chain has routed its proceeds. -/
def proceedsReady (r : Registry) (day : WorldwideDay) : Bool :=
  0 < r.proceedsExpectedCount day ∧ r.proceedsArrivedCount day = r.proceedsExpectedCount day

/-- Reads and clears the pot. -/
def takeProceedsPot : Call Registry Nat := do
  let pot ← reads (·.proceedsPot day)
  modify fun r => { r with proceedsPot := update r.proceedsPot day 0 }
  pure pot

def setProceedsFinalizeOnDone (finalize : Bool) : Call Registry Unit :=
  modify fun r =>
    { r with proceedsFinalizeOnDone := update r.proceedsFinalizeOnDone day finalize }

/-- Clears the aggregation state of a day, its awaiting entry and its contributors. -/
def finalizeProceeds : Call Registry Unit := do
  modify fun r =>
    { r with
      proceedsPot := update r.proceedsPot day 0
      proceedsDeadline := update r.proceedsDeadline day 0
      proceedsExpectedCount := update r.proceedsExpectedCount day 0
      proceedsArrivedCount := update r.proceedsArrivedCount day 0
      proceedsFinalizeOnDone := update r.proceedsFinalizeOnDone day false
      awaitingProceeds := r.awaitingProceeds.remove day }
  clearContributors day

/-! ### Certified payout rounds -/

def openCertifiedPayoutRound (amount : Nat) : Call Registry Unit := do
  let round ← reads (·.payoutRound day)
  failIf (round.isSome = true) (IntexError.certifiedRoundExists day).raise
  modify fun r =>
    { r with payoutRound := update r.payoutRound day (some ⟨amount, 0, 0⟩) }

/-- Locates a chunk-aligned batch in the bitmap: its word, and its low bits. -/
def leafMask (startIndex leafCount : Nat) : Result (Nat × Nat) := do
  throwIf (leafCount = 0 ∨ contributorChunkCapacity < leafCount)
    (IntexError.badContributorBatch "batch leaf count out of range").raise
  throwIf (startIndex % contributorChunkCapacity ≠ 0)
    (IntexError.badContributorBatch "batch start is not chunk-aligned").raise
  pure (startIndex / contributorChunkCapacity, 2 ^ leafCount - 1)

/-- Checks that a batch is a full chunk of the leaves or the last part of them
(`RangeShape::resolve`). -/
def resolveRange (realCount startIndex leafCount siblingCount : Nat) : Result Unit := do
  let bad := fun why => (IntexError.badContributorBatch why).raise
  throwIf (realCount = 0) (bad "empty contributor population")
  throwIf (realCount ≤ startIndex) (bad "batch starts past the population")
  throwIf (2 ^ 31 < realCount) (bad "contributor population overflow")
  let treeHeight := realCount.nextPowerOfTwo.log2
  let subHeight := min treeHeight 8
  throwIf (startIndex % 2 ^ subHeight ≠ 0) (bad "batch start is not chunk-aligned")
  throwIf (leafCount = 0) (bad "batch carries no leaves")
  throwIf (2 ^ 32 ≤ leafCount) (bad "batch leaf count overflow")
  throwIf (2 ^ subHeight < leafCount) (bad "batch exceeds chunk capacity")
  throwIf (2 ^ 32 ≤ startIndex + leafCount) (bad "batch range overflow")
  throwIf (realCount < startIndex + leafCount) (bad "batch reaches past the contributor count")
  throwIf (leafCount ≠ 2 ^ subHeight ∧ startIndex + leafCount ≠ realCount)
    (bad "partial batch is not the tail")
  throwIf (siblingCount ≠ treeHeight - subHeight) (bad "proof height mismatch")

/-- Verifies a range of leaves against a certified root. -/
def verifyContributorLeafRange
    (verifyRoot : Nat → Nat → List ContributorLeafData → List B256 → B256 → Result Unit)
    (realCount startIndex : Nat) (leaves : List ContributorLeafData) (siblings : List B256)
    (expectedRoot : B256) : Result Unit := do
  throwIf (expectedRoot = 0) (IntexError.badContributorBatch "certified root is empty").raise
  resolveRange realCount startIndex leaves.length siblings.length
  verifyRoot realCount startIndex leaves siblings expectedRoot

/-- Rejects a batch whose leaves were paid already. -/
def requireCertifiedLeavesUnpaid (startIndex leafCount : Nat) : Call Registry Unit := do
  let (wordIndex, mask) ← ofExcept (leafMask startIndex leafCount)
  let word ← reads (·.paidLeaves day wordIndex)
  failIf (word &&& mask ≠ 0) (IntexError.contributorLeavesAlreadyPaid day).raise

/-- Marks a verified batch paid and advances the counters of the round. -/
def markCertifiedLeavesPaid (startIndex leafCount paidAmount : Nat) : Call Registry Unit := do
  let (wordIndex, mask) ← ofExcept (leafMask startIndex leafCount)
  let word ← reads (·.paidLeaves day wordIndex)
  failIf (word &&& mask ≠ 0) (IntexError.contributorLeavesAlreadyPaid day).raise
  let round ← reads (·.payoutRound day)
  let round ← ofExcept
    (okOr round (IntexError.badContributorBatch "payout round is not open").raise)
  let paidSoFar ← ofExcept (okOr (checkedAdd 256 round.paidSoFar paidAmount)
    (IntexError.badContributorBatch "paid amount overflow").raise)
  let paidLeafCount ← ofExcept (okOr (checkedAdd 32 round.paidLeafCount leafCount)
    (IntexError.badContributorBatch "paid leaf count overflow").raise)
  modify fun r =>
    { r with
      paidLeaves := update r.paidLeaves day
        (update (r.paidLeaves day) wordIndex (word ||| mask))
      payoutRound := update r.payoutRound day
        (some ⟨round.amount, paidSoFar, paidLeafCount⟩) }

end Rudis.Intex

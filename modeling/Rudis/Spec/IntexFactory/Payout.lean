import Rudis.Spec.Intex.Proceeds

/-!
# `Rudis.Spec.IntexFactory.Payout`: paying the creators of a day

`intexfactory/src/runtime.rs`: auction proceeds arrive chain by chain, a day is settled once they
are complete or late, and the creators are paid by the block hook (legacy days) or by permissionless
batches (certified days). `Op` lists the entry points and `step` runs one of them.

The shape of a certified batch is checked as in `intex/src/payout.rs`; `verifyRoot`, which rebuilds
the certified root from the leaves and their siblings, hashes and is a parameter. `World.surplus` is
not part of the contract: it tells the value held for the days from the rest of the balance.
-/

namespace Rudis.IntexFactory

open Intex (Registry ContributorLeafData CertifiedContributorGeneration DistProgress)

/-! ### Constants -/

def intexFactoryAddress : Address := 0x1015#160

def originRouterAddress : Address := 0x29163D789C2F891cA852579c583Ce6a6278ef030#160

/-- Payouts per distribution pass. -/
def distChunkLimit : Nat := 200

def proceedsFaninTimeoutSecs : Nat := 24 * 60 * 60

/-! ### Errors -/

inductive IntexFactoryError where
  | zeroAddress
  | zeroAmount
  | notOriginRouter
  | noContributors (day : Nat)
  | noDistribution (day : Nat)
  | distributionOverflow (day : Nat)
  | noCertifiedRound (day : Nat)
  | badContributorBatch
  | payoutExceedsRound (day : Nat)
  | notSettleable (state : Nat)
  | deadlineExpired
  | zeroBalance
  | amountExceedsBalance
  | notAuthorized
  | groupAlreadyIndexed (iso day : Nat)

def IntexFactoryError.text : IntexFactoryError → String
  | .zeroAddress => "zero address"
  | .zeroAmount => "amount must be positive"
  | .notOriginRouter => "caller is not the origin router"
  | .noContributors day => s!"no contributors recorded for series {day}"
  | .noDistribution day => s!"no in-flight distribution for series {day}"
  | .distributionOverflow day => s!"distribution payout math overflow for series {day}"
  | .noCertifiedRound day => s!"no open certified payout round for day {day}"
  | .badContributorBatch => "contributor batch has an invalid shape"
  | .payoutExceedsRound day => s!"contributor payout would exceed the round amount for day {day}"
  | .notSettleable state => s!"series not settleable in state {state}"
  | .deadlineExpired => "settlement deadline expired"
  | .zeroBalance => "zero balance"
  | .amountExceedsBalance => "amount exceeds balance"
  | .notAuthorized => "caller not authorized to settle for holder"
  | .groupAlreadyIndexed iso day => s!"currency {iso} day {day} is already indexed"

/-- A module error reaches the caller as a revert. -/
def IntexFactoryError.raise (e : IntexFactoryError) : PrecompileError := .revert e.text

/-! ### State -/

structure World where
  registry : Registry
  balances : Address → Nat
  /-- What the factory holds for no day: its balance at genesis, and what is sent to it other than
  with a call of `distribute`. -/
  surplus : Nat

def World.genesis (balances : Address → Nat) : World where
  registry := .empty
  balances := balances
  surplus := balances intexFactoryAddress

def onRegistry {α : Type} (m : Call Registry α) : Call World α :=
  zoom World.registry (fun registry w => { w with registry := registry }) m

/-- Runs a call on the native balances. -/
def onBalances {α : Type} (m : Call (Address → Nat) α) : Call World α :=
  zoom World.balances (fun balances w => { w with balances := balances }) m

/-- Moves native value. What the factory gets this way is for no day. -/
def transferValue (src dst : Address) (amount : Nat) : Call World Unit := do
  onBalances (transferBalance src dst amount)
  when (dst = intexFactoryAddress) (modify fun w => { w with surplus := w.surplus + amount })

variable (day : WorldwideDay)

/-! ### Settling the proceeds of a day -/

/-- Destroys proceeds held by the factory. -/
def burnProceeds (amount : Nat) : Call World Unit :=
  onBalances (decreaseBalance intexFactoryAddress amount)

/-- Proceeds that missed the window are burned. -/
def burnLatePot : Call World Unit := do
  let late ← onRegistry (Intex.takeProceedsPot day)
  when (late ≠ 0) (burnProceeds late)

def settleCertified (generation : CertifiedContributorGeneration) (pot : Nat) :
    Call World Unit := do
  if generation.contributorCount = 0 then burnProceeds pot
  else onRegistry (Intex.openCertifiedPayoutRound day pot)
  onRegistry (Intex.finalizeProceeds day)

def settleLegacy (complete : Bool) (total pot : Nat) : Call World Unit := do
  if total = 0 then do
    burnProceeds pot
    when (complete = true) (onRegistry (Intex.finalizeProceeds day))
  else do
    onRegistry (Intex.setProceedsFinalizeOnDone day complete)
    onRegistry (Intex.startDistribution day pot total)

/-- Starts a round for a day if its fan-in is satisfied or its deadline has passed. -/
def trySettleProceeds (now : Nat) : Call World Unit := do
  let r ← reads (·.registry)
  if (r.distProgress day).isSome then pure ()
  else if (r.payoutRound day).isSome then burnLatePot day
  else if r.proceedsDeadline day = 0 then
    -- never armed, or already finalized
    when ((r.certified day).isSome = true) (burnLatePot day)
  else if Intex.proceedsReady r day = false ∧ now < r.proceedsDeadline day then pure ()
  else if r.certified day = none ∧ r.contributorTotal day = 0 ∧ now < r.proceedsDeadline day then
    pure ()
  else do
    let pot ← onRegistry (Intex.takeProceedsPot day)
    if pot = 0 then onRegistry (Intex.finalizeProceeds day)
    else
      match r.certified day with
      | some generation => settleCertified day generation pot
      | none => settleLegacy day (Intex.proceedsReady r day) (r.contributorTotal day) pot

/-- Credits the proceeds of one chain, whose value the factory has received already. -/
def distribute (caller : Address) (day : WorldwideDay) (srcChainId amount now : Nat) :
    Call World Unit := do
  failIf (caller ≠ originRouterAddress) IntexFactoryError.notOriginRouter.raise
  failIf (amount = 0) IntexFactoryError.zeroAmount.raise
  onRegistry (Intex.creditProceeds day srcChainId amount)
  trySettleProceeds day now

/-- Settles every awaiting day, each in its own checkpoint; the set is listed first. -/
def sweepProceedsDeadlines (now : Nat) : Call World Unit := do
  let days ← reads (·.registry.awaitingProceeds.days)
  days.forM fun day => do
    let _ ← attempt (trySettleProceeds day now)
    pure ()

/-! ### Legacy distributions -/

/-- The share of the contributor at an index; the last one absorbs the remainder. -/
def shareOf (progress : DistProgress) (count i nominal paid : Nat) : Result Nat :=
  if i = count - 1 then .ok (wrappingSub 256 progress.amount paid)
  else do
    let product ← okOr (checkedMul 256 progress.amount nominal)
      (IntexFactoryError.distributionOverflow day).raise
    pure (product / progress.totalNominal)

/-- Pays the contributor at an index; returns what has been paid. -/
def payContributor (progress : DistProgress) (count paid i : Nat) : Call World Nat := do
  let (owner, nominal) ← onRegistry (Intex.contributorAt day i)
  let share ← ofExcept (shareOf day progress count i nominal paid)
  transferValue intexFactoryAddress owner share
  pure (wrappingAdd 256 paid share)

/-- A finished round: paid again over what came in meanwhile, or the day is finalized. -/
def finishRound : Call World Unit := do
  onRegistry (Intex.finishDistributionRound day)
  let finalize ← reads (·.registry.proceedsFinalizeOnDone day)
  when (finalize = true) do
    let pot ← onRegistry (Intex.takeProceedsPot day)
    if pot = 0 then onRegistry (Intex.finalizeProceeds day)
    else do
      let total ← reads (·.registry.contributorTotal day)
      onRegistry (Intex.startDistribution day pot total)

/-- Pays up to `limit` contributors of a distribution in flight. -/
def payChunk (limit : Nat) : Call World Unit := do
  let r ← reads (·.registry)
  let progress ← ofExcept (okOr (r.distProgress day) (IntexFactoryError.noDistribution day).raise)
  let count := (r.contributors day).length
  let stop := min (saturatingAdd 32 progress.cursor limit) count
  failIf (progress.totalNominal = 0) (IntexFactoryError.noContributors day).raise
  let paid ← (List.range' progress.cursor (stop - progress.cursor)).foldlM
    (payContributor day progress count) progress.paidSoFar
  if stop = count then finishRound day
  else onRegistry (Intex.saveProgress day { progress with cursor := stop, paidSoFar := paid })

/-- Advances every distribution in flight by one chunk, each in its own checkpoint. -/
def drainDistributions : Call World Unit := do
  let days ← reads (·.registry.activeDist.days)
  days.forM fun day => do
    let _ ← attempt (payChunk day distChunkLimit)
    pure ()

/-! ### Certified batches -/

section Certified

-- contributor count, start index, leaves, siblings, root
variable (verifyRoot : Nat → Nat → List ContributorLeafData → List B256 → B256 → Result Unit)

variable (day : WorldwideDay)

/-- The share of a leaf, always rounded down. -/
def leafShare (amount : Nat) (generation : CertifiedContributorGeneration)
    (leaf : ContributorLeafData) : Result Nat := do
  let product ← okOr (checkedMul 256 amount leaf.nominal)
    (IntexFactoryError.distributionOverflow day).raise
  pure (product / generation.eligibleNominalTotal)

def sumShares (shares : List Nat) : Result Nat :=
  shares.foldlM (fun paid share =>
    okOr (checkedAdd 256 paid share) (IntexFactoryError.distributionOverflow day).raise) 0

/-- Burns what floor division left behind, once every leaf of the round is paid. -/
def closeRoundIfComplete (contributorCount : Nat) : Call World Unit := do
  let round ← reads (·.registry.payoutRound day)
  let round ← ofExcept (okOr round (IntexFactoryError.noCertifiedRound day).raise)
  if round.paidLeafCount ≠ contributorCount then pure ()
  else do
    let remainder ← ofExcept (okOr (checkedSub round.amount round.paidSoFar)
      (.fatal "certified payout exceeded the round amount"))
    when (remainder ≠ 0) (onBalances (decreaseBalance intexFactoryAddress remainder))

/-- Pays one chunk-aligned range of certified contributors. -/
def payContributorBatch (startIndex : Nat) (leaves : List ContributorLeafData)
    (proof : List B256) : Call World Unit := do
  let r ← reads (·.registry)
  let round ← ofExcept (okOr (r.payoutRound day) (IntexFactoryError.noCertifiedRound day).raise)
  failIf (leaves.length ≥ 2 ^ 32) IntexFactoryError.badContributorBatch.raise
  onRegistry (Intex.requireCertifiedLeavesUnpaid day startIndex leaves.length)
  let generation ← ofExcept (okOr (r.certified day)
    (Intex.IntexError.badContributorBatch "day has no certified contributor root").raise)
  ofExcept (Intex.verifyContributorLeafRange verifyRoot generation.contributorCount startIndex leaves
    proof generation.contributorRoot)
  checkpoint do
    let shares ← ofExcept (leaves.mapM (leafShare day round.amount generation))
    let paid ← ofExcept (sumShares day shares)
    let totalPaid ← ofExcept (okOr (checkedAdd 256 round.paidSoFar paid)
      (IntexFactoryError.distributionOverflow day).raise)
    failIf (round.amount < totalPaid) (IntexFactoryError.payoutExceedsRound day).raise
    (leaves.zip shares).forM fun (leaf, share) =>
      transferValue intexFactoryAddress leaf.owner share
    onRegistry (Intex.markCertifiedLeavesPaid day startIndex leaves.length paid)
    closeRoundIfComplete day generation.contributorCount

end Certified

/-! ### Runs -/

/-- Arms the proceeds of a day that issues a series won on these chains. -/
def armDay (day : WorldwideDay) (winningChains : List Nat) (now : Nat) : Call World Unit :=
  onRegistry (Intex.armProceeds day winningChains (saturatingAdd 64 now proceedsFaninTimeoutSecs))

/-- Lysis records the contributors of a day once. -/
def recordOnce (day : WorldwideDay) (contributors : List (Address × Nat)) : Call World Unit := do
  let recorded ← reads (·.registry.contributors day)
  failIf (recorded ≠ []) (.revert "the contributors of the day are recorded")
  onRegistry (Intex.recordContributors day contributors)

inductive Op where
  | issue (day : WorldwideDay) (winningChains : List Nat) (now : Nat)
  | distribute (caller : Address) (day : WorldwideDay) (srcChainId amount now : Nat)
  | sweepProceedsDeadlines (now : Nat)
  | drainDistributions
  | payContributorBatch (day : WorldwideDay) (startIndex : Nat) (leaves : List ContributorLeafData)
      (proof : List B256)
  | recordContributors (day : WorldwideDay) (contributors : List (Address × Nat))
  | installCertifiedContributorRoot (day : WorldwideDay) (g : CertifiedContributorGeneration)
  /-- Native value moves between other accounts, or reaches the factory. -/
  | transfer (src dst : Address) (amount : Nat)

/-- A transfer by an account other than the factory. -/
def foreignTransfer (src dst : Address) (amount : Nat) : Call World Unit := do
  failIf (src = intexFactoryAddress) (.revert "the factory signs no transfer")
  transferValue src dst amount

variable (verifyRoot : Nat → Nat → List ContributorLeafData → List B256 → B256 → Result Unit)

/-- The value of a call reaches the factory before the call runs. -/
def receiveValue (caller : Address) (amount : Nat) : Call World Unit :=
  onBalances (transferBalance caller intexFactoryAddress amount)

def Op.call : Op → Call World Unit
  | .issue day winningChains now => armDay day winningChains now
  | .distribute caller day srcChainId amount now => do
    receiveValue caller amount
    IntexFactory.distribute caller day srcChainId amount now
  | .sweepProceedsDeadlines now => IntexFactory.sweepProceedsDeadlines now
  | .drainDistributions => IntexFactory.drainDistributions
  | .payContributorBatch day startIndex leaves proof =>
    IntexFactory.payContributorBatch verifyRoot day startIndex leaves proof
  | .recordContributors day contributors => recordOnce day contributors
  | .installCertifiedContributorRoot day g =>
    onRegistry (Intex.installCertifiedContributorRoot day g)
  | .transfer src dst amount => foreignTransfer src dst amount

/-- Runs an entry point; a failed one leaves nothing behind. -/
def step (op : Op) (w : World) : World := ((checkpoint (op.call verifyRoot)).run w).2

end Rudis.IntexFactory

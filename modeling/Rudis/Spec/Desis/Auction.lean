import Rudis.Spec.Desis.Clearing
import Rudis.Spec.PromisLimit
import Rudis.Spec.ActiveSet

/-!
# `Rudis.Spec.Desis.Auction`: the life of an auction day

`desis/src/api.rs`, `desis/src/runtime.rs` and `desis/src/state.rs`: a day is briefed with a supply,
the schedule tick walks it through its stages, target chains deliver bids, and the gate tick clears
it. `Op` lists the entry points and `step` runs one of them.

A mapping keyed by the hash of a day and a chain is a mapping of the two here, and the fields of one
chain's intake are one record. The bids of a chain are a list: the source stores a count and
numbered records, and reads no record past the count. The number of scheduled days and of days at
the gate is a `u32` of distinct `u32` days, which does not overflow.

What leaves the module is a parameter of each entry point: `Router` says what the origin router,
IntexFactory and the issuance answer, failures included. PromisLimit is the unallocated total. The
last three fields of `World` are not part of the contract: they record what a day was briefed with,
what it issued, and each credit the module made to PromisLimit. Events are left out.
-/

namespace Rudis.Desis

open Days (ActiveSet)

/-! ### Constants -/

def commitWindowSeconds : Nat := 24 * 3600

def revealWindowSeconds : Nat := 24 * 3600

def settlementWindowSeconds : Nat := 24 * 3600

def minCommitWindowSeconds : Nat := 18 * 3600

def bidsFaninTimeoutSecs : Nat := 12 * 3600

def bidQuantityFloorBps : Nat := 400

def promisLoadAnchorIso : Nat := 840

def promisLoadLaunchExponent : Nat := 11

def promisLoadDeadbandBps : Nat := 200

def promisLoadMaxExponent : Nat := 21

def maxReferencePrices : Nat := 6

def maxBidsPerBatch : Nat := 64

def maxBidBatches : Nat := 256

def dayStateGreen : Nat := 1

def dayStateRed : Nat := 2

def originRouterAddress : Address := 0x29163D789C2F891cA852579c583Ce6a6278ef030#160

/-! ### Errors -/

inductive DesisError where
  | invalidWorldwideDay (day : Nat)
  | invalidStageTransition
  | pendingClearingDataMissing (day : Nat)
  | unauthorizedOrigin (caller : Address)
  | unspellableBidCurrency (issuance reference : Nat)
  | bidBatchTooLarge (len max : Nat)

def DesisError.text : DesisError → String
  | .invalidWorldwideDay day => s!"invalid worldwide day: {day}"
  | .invalidStageTransition => "invalid stage transition"
  | .pendingClearingDataMissing day => s!"pending clearing data missing for series {day}"
  | .unauthorizedOrigin caller => "unauthorized origin: 0x" ++ caller.toHex
  | .unspellableBidCurrency issuance reference =>
    "relayed bid names a currency no series id can spell: " ++
      s!"issuance {issuance}, reference {reference}"
  | .bidBatchTooLarge len max =>
    s!"relayed bid batch carries {len} bids, over the {max} the codec may send"

/-- A module error reaches the caller as a revert. -/
def DesisError.raise (e : DesisError) : PrecompileError := .revert e.text

/-! ### Stages -/

inductive AuctionStage where
  | none
  | briefed
  | started
  | revealing
  | clearing
  | cleared
  | cancelled
  deriving DecidableEq

/-- The stages a day does not leave. -/
def AuctionStage.isTerminal : AuctionStage → Bool
  | .cleared | .cancelled => true
  | _ => false

/-! ### Storage -/

variable (day : WorldwideDay)

/-- The bid intake of one chain for one day. -/
structure ChainIntake where
  lastGeneration : Nat
  totalBatches : Nat
  arrivedMask : Nat
  bids : List BidData
  done : Bool
  doneBatches : Nat
  doneBids : Nat

def ChainIntake.empty : ChainIntake := ⟨0, 0, 0, [], false, 0, 0⟩

/-- Drops the bids and the completeness tracking; the generation stays. -/
def ChainIntake.reset (c : ChainIntake) : ChainIntake :=
  { ChainIntake.empty with lastGeneration := c.lastGeneration }

def AuctionConfig.zero : AuctionConfig := ⟨0, ⟨0, 0, 0⟩, 0, 0, 0, []⟩

structure Store where
  config : WorldwideDay → AuctionConfig
  stage : WorldwideDay → AuctionStage
  pendingSupplyIntex : WorldwideDay → Nat
  pendingSupplyPromis : WorldwideDay → Nat
  briefGreen : WorldwideDay → Bool
  auctionAt : WorldwideDay → Nat
  clearingInitiated : WorldwideDay → Bool
  clearingDeadline : WorldwideDay → Nat
  chains : WorldwideDay → Nat → ChainIntake
  dayBidCount : WorldwideDay → Nat
  gateActive : ActiveSet
  schedActive : ActiveSet
  lastClearedWorldwideDay : WorldwideDay
  lastClearingIssuedCount : Nat
  promisLoadExponent : Nat
  promisLoadAnchorDigits : Nat

def Store.empty : Store where
  config := fun _ => .zero
  stage := fun _ => .none
  pendingSupplyIntex := fun _ => 0
  pendingSupplyPromis := fun _ => 0
  briefGreen := fun _ => false
  auctionAt := fun _ => 0
  clearingInitiated := fun _ => false
  clearingDeadline := fun _ => 0
  chains := fun _ _ => .empty
  dayBidCount := fun _ => 0
  gateActive := .empty
  schedActive := .empty
  lastClearedWorldwideDay := 0
  lastClearingIssuedCount := 0
  promisLoadExponent := 0
  promisLoadAnchorDigits := 0

structure World where
  store : Store
  totalUnallocated : Nat
  briefed : WorldwideDay → Nat
  issued : WorldwideDay → Nat
  /-- The credits PromisLimit received from here, in order. -/
  credits : List (WorldwideDay × Nat)

def World.genesis (totalUnallocated : Nat) : World where
  store := .empty
  totalUnallocated := totalUnallocated
  briefed := fun _ => 0
  issued := fun _ => 0
  credits := []

/-- Writes the storage of the module. -/
def write (f : Store → Store) : Call World Unit := modify fun w => { w with store := f w.store }

def writeStage (stage : AuctionStage) : Call World Unit :=
  write fun s => { s with stage := update s.stage day stage }

def writeAuctionConfig (config : AuctionConfig) : Call World Unit :=
  write fun s => { s with config := update s.config day config }

def removeSchedActive : Call World Unit :=
  write fun s => { s with schedActive := s.schedActive.remove day }

def removeGateActive : Call World Unit :=
  write fun s => { s with gateActive := s.gateActive.remove day }

/-- Credits PromisLimit for a day. -/
def addToTotalUnallocated (amount : Nat) : Call World Unit := do
  let _ ← zoom World.totalUnallocated (fun total w => { w with totalUnallocated := total })
    (PromisLimit.checkedAddCarryOver amount)
  modify fun w => { w with credits := w.credits ++ [(day, amount)] }

/-! ### The PROMIS load ladder -/

def promisLoadMinor (exponent : Nat) : Nat := 10 ^ min exponent promisLoadMaxExponent

/-- `decimal_digits`, from `digits` on, with the rest of the table as fuel. -/
def digitsFrom (rate : Nat) : Nat → Nat → Nat
  | 0, digits => digits
  | fuel + 1, digits => if 10 ^ digits ≤ rate then digitsFrom rate fuel (digits + 1) else digits

/-- Decimal digits of a rate, up to the length of the table of powers. -/
def decimalDigits (rate : Nat) : Nat :=
  if rate = 0 then 0 else digitsFrom rate (promisLoadMaxExponent + 1) 1

def launchAnchorDigits (rate : Nat) : Nat := promisLoadLaunchExponent + decimalDigits rate

def anchorExponent (anchorDigits rate : Nat) : Nat :=
  min (anchorDigits - decimalDigits rate) promisLoadMaxExponent

/-- The decade a day quoted at `rate` runs on; `current` holds inside its deadband. -/
def promisLoadExponent (anchorDigits : Nat) (current : Option Nat) (rate : Nat) : Nat :=
  match current with
  | none => anchorExponent anchorDigits rate
  | some exponent =>
    let exponent := min exponent promisLoadMaxExponent
    let decade := max 1 (min (anchorDigits - exponent) (promisLoadMaxExponent + 1))
    let scaled := wrappingMul 256 rate 10000
    let lo := 10 ^ (decade - 1) * (10000 - promisLoadDeadbandBps)
    let hi := 10 ^ decade * (10000 + promisLoadDeadbandBps)
    if lo ≤ scaled ∧ scaled < hi then exponent else anchorExponent anchorDigits rate

/-- The entry price of the currency the ladder reads. -/
def anchorRate (referencePrices : List ReferenceCurrencyPrice) : Option Nat :=
  (referencePrices.find? fun row => row.isoCode = promisLoadAnchorIso).map (·.entryPriceMinor)

/-- Steps the ladder at a brief, and returns the load of the day. -/
def stepPromisLoad (referencePrices : List ReferenceCurrencyPrice) : Call World Nat := do
  let stored ← reads (·.store.promisLoadExponent)
  let current := if stored ≠ 0 then some stored else none
  match anchorRate referencePrices with
  | none => pure (promisLoadMinor (current.getD promisLoadLaunchExponent))
  | some rate => do
    let digits ← reads (·.store.promisLoadAnchorDigits)
    let anchorDigits := if digits = 0 then launchAnchorDigits rate else digits
    let exponent := promisLoadExponent anchorDigits current rate
    write fun s =>
      { s with promisLoadAnchorDigits := anchorDigits, promisLoadExponent := exponent }
    pure (promisLoadMinor exponent)

/-! ### The brief -/

section Brief

-- The first letter a currency is spelled with inside a series id, if it can be spelled.
variable (letterOf : Nat → Option Nat)

/-- One row of the price table: kept unless its letter is taken or the table is full. -/
def chooseRow (kept : List ReferenceCurrencyPrice) (row : ReferenceCurrencyPrice) :
    List ReferenceCurrencyPrice :=
  match letterOf row.isoCode with
  | none => kept
  | some letter =>
    if (kept.find? fun k => letterOf k.isoCode = some letter).isSome then kept
    else if kept.length = maxReferencePrices then kept
    else kept ++ [row]

/-- The currencies a day will price: one per letter, in the order of their codes. -/
def chooseReferencePrices (rows : List ReferenceCurrencyPrice) : List ReferenceCurrencyPrice :=
  (rows.insertionSort fun a b => a.isoCode ≤ b.isoCode).foldl (chooseRow letterOf) []

def AuctionConfig.fromReferencePrices (referencePrices : List ReferenceCurrencyPrice)
    (promisLoadMinor : Nat) : AuctionConfig :=
  ⟨promisLoadMinor, ⟨0, 0, 0⟩, 0, 0, 0, referencePrices⟩

/-- The schedule anchor of a day briefed at `now`: this midnight, or the next one when too little
of the commit window is left. -/
def briefAnchor (now : Nat) : Result Nat := do
  let midnight := now - now % secondsPerDay
  let elapsed := now - midnight
  let remaining := commitWindowSeconds - elapsed
  let anchorTs ←
    if minCommitWindowSeconds ≤ remaining then pure midnight
    else okOr (checkedAdd 64 midnight secondsPerDay) (.revert "brief anchor timestamp overflow")
  throwIf (anchorTs ≥ 2 ^ 32) (.revert "brief anchor exceeds u32")
  pure anchorTs

/-- Every technical prerequisite of a brief; returns the schedule anchor. -/
def preflightBrief (day : WorldwideDay) (now : Nat) : Call World Nat := do
  failIf (isValidDay day = false) (DesisError.invalidWorldwideDay day).raise
  let stage ← reads (·.store.stage day)
  failIf (stage ≠ .none) DesisError.invalidStageTransition.raise
  ofExcept (briefAnchor now)

def recordPreflightedBrief (day : WorldwideDay) (supplyPromis : Nat)
    (referencePrices : List ReferenceCurrencyPrice) (isGreen : Bool) (anchor : Nat) :
    Call World Unit := do
  let load ← stepPromisLoad referencePrices
  let chosen := chooseReferencePrices letterOf referencePrices
  writeAuctionConfig day (.fromReferencePrices chosen load)
  writeStage day .briefed
  write fun s =>
    { s with
      pendingSupplyPromis := update s.pendingSupplyPromis day supplyPromis
      briefGreen := update s.briefGreen day isGreen
      auctionAt := update s.auctionAt day anchor
      schedActive := s.schedActive.push day }
  modify fun w => { w with briefed := update w.briefed day supplyPromis }

inductive BriefOverflowPolicy where
  | carryOver
  | reject
  deriving DecidableEq

inductive AuctionBriefReceipt where
  | accepted
  | rejectedToCarryOver (supply maxAccepted : Nat)

/-- Records the auction brief of a day; a supply past `u128` is the one committed rejection. -/
def dispatchAuctionBrief (day : WorldwideDay) (supplyPromis : Nat)
    (referencePrices : List ReferenceCurrencyPrice) (isGreen : Bool) (now : Nat)
    (overflow : BriefOverflowPolicy) : Call World AuctionBriefReceipt :=
  checkpoint do
    let anchor ← preflightBrief day now
    if u128Max < supplyPromis then do
      failIf (overflow = .reject) (.revert "auction brief supply exceeds Desis u128 domain")
      pure (.rejectedToCarryOver supplyPromis u128Max)
    else do
      recordPreflightedBrief letterOf day supplyPromis referencePrices isGreen anchor
      pure .accepted

end Brief

/-! ### The schedule -/

/-- Resolved IntexFactory parameters. -/
structure IntexParams where
  callWindow : Nat
  callThreshold : Nat
  callNoticePeriod : Nat
  callRate : Nat
  floorRate : Nat
  commitBondMinor : Nat

/-- What the other modules and the origin router answer during one entry point. -/
structure Router where
  readParams : Result IntexParams
  /-- The START message: day, config, parameters, the three window ends and the day state. -/
  sendStageStart : WorldwideDay → AuctionConfig → IntexParams → Nat → Nat → Nat → Nat → Result Unit
  sendStageClearing : WorldwideDay → Result Unit
  /-- The frozen target snapshot of a day. -/
  targetsOf : WorldwideDay → Result (List Nat)
  /-- Issuance and the result and refund messages of a cleared day. -/
  sendResults : WorldwideDay → AuctionConfig → List Nat → List Nat → ClearingResult → Result Unit

section Schedule

variable (router : Router)

/-- The prior clearing's bid floor, at today's load. -/
def minBidQtyOf (s : Store) (todayLoad : Nat) : Result Nat :=
  if s.lastClearedWorldwideDay = 0 ∨ todayLoad = 0 then .ok 0
  else do
    let prevLoad := (s.config s.lastClearedWorldwideDay).promisLoadMinor
    let product ← okOr (checkedMul 128 s.lastClearingIssuedCount prevLoad)
      (.revert "min bid quantity scaling overflow")
    let scaled ← okOr (checkedMul 128 product bidQuantityFloorBps)
      (.revert "min bid quantity scaling overflow")
    pure (min (scaled / wrappingMul 128 10000 todayLoad) (2 ^ 16 - 1))

/-- Folds the prior-clearing bid floor and the parameters into a config. -/
def foldProfile (s : Store) (config : AuctionConfig) : Result (AuctionConfig × IntexParams) := do
  let minBidQty ← minBidQtyOf s config.promisLoadMinor
  let iparams ← router.readParams
  pure ({ config with
    minIntexBidQuantity := minBidQty
    callTrigger := ⟨iparams.callWindow, iparams.callThreshold, iparams.callNoticePeriod⟩
    commitBondMinor := iparams.commitBondMinor }, iparams)

variable (day : WorldwideDay)

/-- Returns the unsold supply of a retiring day to PromisLimit. -/
def refundUnsoldSupply : Call World Unit := do
  let supply ← reads (·.store.pendingSupplyPromis day)
  when (supply ≠ 0) do
    write fun s => { s with pendingSupplyPromis := update s.pendingSupplyPromis day 0 }
    addToTotalUnallocated day supply

def ts32 (ts : Nat) : Result Nat := do
  throwIf (ts ≥ 2 ^ 32) (.revert "schedule timestamp exceeds u32")
  pure ts

/-- The ends of the three windows of a day. -/
structure Windows where
  commitEnd : Nat
  revealEnd : Nat
  issuanceEnd : Nat

def windowsOf (anchor : Nat) : Windows :=
  let commitEnd := saturatingAdd 64 anchor commitWindowSeconds
  let revealEnd := saturatingAdd 64 commitEnd revealWindowSeconds
  ⟨commitEnd, revealEnd, saturatingAdd 64 revealEnd settlementWindowSeconds⟩

inductive StartOutcome where
  | started
  | retired
  deriving DecidableEq

/-- Dispatches the START message of a briefed day: a red or unpriced day is born cancelled, a day
past its commit window is cancelled unstarted, otherwise it starts. -/
def startAuction (windows : Windows) (now : Nat) : Call World StartOutcome := do
  let store ← reads (·.store)
  let (config, iparams) ← ofExcept (foldProfile router store (store.config day))
  writeAuctionConfig day config
  let commit ← ofExcept (ts32 windows.commitEnd)
  let reveal ← ofExcept (ts32 windows.revealEnd)
  let issuance ← ofExcept (ts32 windows.issuanceEnd)
  let unpriced := config.referencePrices.isEmpty
  let red := store.briefGreen day = false
  if unpriced ∨ red then do
    ofExcept (router.sendStageStart day config iparams commit reveal issuance dayStateRed)
    writeStage day .cancelled
    when (unpriced = true) (refundUnsoldSupply day)
    removeSchedActive day
    pure .retired
  else if windows.commitEnd ≤ now then do
    writeStage day .cancelled
    refundUnsoldSupply day
    removeSchedActive day
    pure .retired
  else do
    ofExcept (router.sendStageStart day config iparams commit reveal issuance dayStateGreen)
    writeStage day .started
    pure .started

/-- Arms the clearing from the brief supply and broadcasts the clearing stage. -/
def armClearing (now : Nat) : Call World Unit := do
  let config ← reads (·.store.config day)
  failIf (config.promisLoadMinor = 0) (DesisError.invalidWorldwideDay day).raise
  let supplyPromis ← reads (·.store.pendingSupplyPromis day)
  failIf (u128Max < supplyPromis) (DesisError.invalidWorldwideDay day).raise
  let supplyIntex := min (supplyPromis / config.promisLoadMinor) (2 ^ 32 - 1)
  write fun s =>
    { s with
      clearingInitiated := update s.clearingInitiated day true
      pendingSupplyIntex := update s.pendingSupplyIntex day supplyIntex
      clearingDeadline := update s.clearingDeadline day
        (saturatingAdd 64 now bidsFaninTimeoutSecs)
      gateActive := s.gateActive.push day }
  writeStage day .clearing
  ofExcept (router.sendStageClearing day)

/-- An overdue day: its supply goes back and it is retired. -/
def retireOverdue : Call World Unit := do
  refundUnsoldSupply day
  removeGateActive day
  writeStage day .cancelled
  removeSchedActive day

/-- The schedule loop of one day, with what would be done after a number of rounds. Each round moves
the day one stage on, and the third one returns. -/
def advanceLoop (stop : Call World Unit) (day : WorldwideDay) (now : Nat) : Nat → Call World Unit
  | 0 => stop
  | rounds + 1 => do
    let stage ← reads (·.store.stage day)
    let anchor ← reads (·.store.auctionAt day)
    let windows := windowsOf anchor
    if stage = .cleared ∨ stage = .cancelled then removeSchedActive day
    else if windows.issuanceEnd ≤ now then retireOverdue day
    else if stage = .briefed ∧ anchor ≤ now then do
      let outcome ← startAuction router day windows now
      when (outcome = .started) (advanceLoop stop day now rounds)
    else if stage = .started ∧ windows.commitEnd ≤ now then do
      writeStage day .revealing
      advanceLoop stop day now rounds
    else if stage = .revealing ∧ windows.revealEnd ≤ now then armClearing router day now
    else pure ()

/-- Walks one day's schedule. -/
def advanceDay (now : Nat) : Call World Unit := advanceLoop router (Tx.fail .outOfGas) day now 3

/-- Advances every scheduled day, each in its own checkpoint; the set is listed first. -/
def scheduleTick (now : Nat) : Call World Unit := do
  let days ← reads (·.store.schedActive.days)
  days.forM fun day => do
    let _ ← attempt (advanceDay router day now)
    pure ()

end Schedule

/-! ### Bid ingestion -/

inductive Intake where
  | opened
  | closed
  | unknownDay
  deriving DecidableEq

def intakeState : AuctionStage → Result Intake
  | .revealing | .clearing => .ok .opened
  | .cleared | .cancelled => .ok .closed
  | .none => .ok .unknownDay
  | .briefed | .started => .error DesisError.invalidStageTransition.raise

variable (day : WorldwideDay)

def writeChain (chainId : Nat) (c : ChainIntake) : Call World Unit :=
  write fun s =>
    { s with chains := update s.chains day (update (s.chains day) chainId c) }

/-- Drops a chain's bids for a generation supersede or a cleanup. -/
def resetChainIntake (chainId : Nat) : Call World Unit := do
  let c ← reads (·.store.chains day chainId)
  write fun s =>
    { s with
      dayBidCount := update s.dayBidCount day (s.dayBidCount day - c.bids.length) }
  writeChain day chainId c.reset

/-- The chain is done once its marker and every batch have arrived with matching totals. -/
def ChainIntake.finalize (c : ChainIntake) : ChainIntake :=
  if c.done then c
  else if c.doneBatches = 0 then c
  else if c.totalBatches ≠ c.doneBatches ∨
      ((List.range 256).countP fun i => c.arrivedMask.testBit i) ≠ c.totalBatches ∨
      c.bids.length ≠ c.doneBids then c
  else { c with done := true }

def tryFinalizeChain (chainId : Nat) : Call World Unit := do
  let c ← reads (·.store.chains day chainId)
  writeChain day chainId c.finalize

def requireOriginRouter (caller : Address) : Call World Unit :=
  failIf (caller ≠ originRouterAddress) (DesisError.unauthorizedOrigin caller).raise

def requireNonzeroWorldwideDay : Call World Unit :=
  failIf (day = 0) (DesisError.invalidWorldwideDay day).raise

section Bids

variable (letterOf : Nat → Option Nat)

/-- Both currencies of every bid can be spelled in a series id. -/
def requireSpellable (bids : List BidData) : Result Unit :=
  let bad := bids.find? fun bid =>
    (letterOf bid.issuanceCurrency).isNone || (letterOf bid.referenceCurrency).isNone
  match bad with
  | some bid =>
    .error (DesisError.unspellableBidCurrency bid.issuanceCurrency bid.referenceCurrency).raise
  | none => .ok ()

/-- Applies a batch to an intake that is open for its generation. -/
def applyBatch (day : WorldwideDay) (srcChainId generation batchIndex totalBatches : Nat)
    (bids : List BidData) : Call World Unit := do
  let last ← reads fun w => (w.store.chains day srcChainId).lastGeneration
  when (last < generation) do
    resetChainIntake day srcChainId
    let c ← reads (·.store.chains day srcChainId)
    writeChain day srcChainId { c with lastGeneration := generation, totalBatches := totalBatches }
  let c ← reads (·.store.chains day srcChainId)
  failIf (totalBatches ≠ c.totalBatches ∨ c.totalBatches ≤ batchIndex)
    (.revert "processBidsBatch: batch total/index mismatch for generation")
  if c.arrivedMask.testBit batchIndex then pure ()
  else do
    write fun s =>
      { s with
        dayBidCount := update s.dayBidCount day
          (wrappingAdd 32 (s.dayBidCount day) bids.length) }
    writeChain day srcChainId
      { c with bids := c.bids ++ bids, arrivedMask := c.arrivedMask ||| 2 ^ batchIndex }
    tryFinalizeChain day srcChainId

/-- Accepts a relayed bid batch. -/
def processBidsBatch (caller : Address) (day : WorldwideDay)
    (srcChainId generation batchIndex totalBatches : Nat) (bids : List BidData) :
    Call World Unit := do
  requireOriginRouter caller
  requireNonzeroWorldwideDay day
  failIf (totalBatches = 0 ∨ maxBidBatches < totalBatches ∨ totalBatches ≤ batchIndex)
    (.revert "processBidsBatch: invalid batch index/total")
  failIf (maxBidsPerBatch < bids.length)
    (DesisError.bidBatchTooLarge bids.length maxBidsPerBatch).raise
  ofExcept (requireSpellable letterOf bids)
  let stage ← reads (·.store.stage day)
  let intake ← ofExcept (intakeState stage)
  if intake ≠ .opened then pure ()
  else do
    let last ← reads fun w => (w.store.chains day srcChainId).lastGeneration
    if generation < last then pure ()
    else applyBatch day srcChainId generation batchIndex totalBatches bids

/-- Accepts a chain's completeness marker. -/
def processBidsDone (caller : Address) (day : WorldwideDay)
    (srcChainId relayGeneration totalBatches totalBids : Nat) : Call World Unit := do
  requireOriginRouter caller
  requireNonzeroWorldwideDay day
  failIf (totalBatches = 0 ∨ 256 < totalBatches) (.revert "processBidsDone: invalid total batches")
  let stage ← reads (·.store.stage day)
  let intake ← ofExcept (intakeState stage)
  if intake ≠ .opened then pure ()
  else do
    let c ← reads (·.store.chains day srcChainId)
    if relayGeneration < c.lastGeneration then pure ()
    else do
      failIf (c.lastGeneration < relayGeneration)
        (.revert "processBidsDone: marker generation ahead of its batches")
      if c.doneBatches ≠ 0 then pure ()
      else do
        writeChain day srcChainId { c with doneBatches := totalBatches, doneBids := totalBids }
        tryFinalizeChain day srcChainId

end Bids

/-! ### Clearing -/

section Gate

variable (router : Router)

/-- The bids of the chains, tagged with their source. -/
def readChainsBids (s : Store) (day : WorldwideDay) (chainIds : List Nat) : List TaggedBid :=
  chainIds.flatMap fun chainId => (s.chains day chainId).bids.map fun bid => (chainId, bid)

/-- Persists the outcome of a clearing and clears the working set of the day. -/
def closeDay (day : WorldwideDay) (snapshot : List Nat) (issued : Nat) : Call World Unit := do
  writeStage day .cleared
  write fun s => { s with lastClearedWorldwideDay := day, lastClearingIssuedCount := issued }
  snapshot.forM (resetChainIntake day)
  write fun s =>
    { s with
      dayBidCount := update s.dayBidCount day 0
      pendingSupplyIntex := update s.pendingSupplyIntex day 0
      pendingSupplyPromis := update s.pendingSupplyPromis day 0
      clearingInitiated := update s.clearingInitiated day false
      clearingDeadline := update s.clearingDeadline day 0 }
  removeGateActive day
  modify fun w => { w with issued := update w.issued day issued }

/-- Clears a day over the included chains and returns its unsold PROMIS. -/
def clearInner (day : WorldwideDay) (snapshot included : List Nat) : Call World Unit := do
  let store ← reads (·.store)
  failIf (store.stage day ≠ .clearing) DesisError.invalidStageTransition.raise
  failIf (store.clearingInitiated day = false) (DesisError.pendingClearingDataMissing day).raise
  let config := store.config day
  let result := calculateClearing (sortBids (readChainsBids store day included)) config
    (store.pendingSupplyIntex day) config.minIntexBidQuantity
  closeDay day snapshot result.issuedIntexCount
  let issuedPromis := wrappingMul 256 result.issuedIntexCount config.promisLoadMinor
  let unusedPromis := store.pendingSupplyPromis day - issuedPromis
  when (unusedPromis ≠ 0) (addToTotalUnallocated day unusedPromis)
  ofExcept (router.sendResults day config snapshot included result)

/-- Clears a day once every snapshot chain has finalized, or the deadline has passed. -/
def forceClear (day : WorldwideDay) (now : Nat) : Call World Unit := do
  let snapshot ← ofExcept (router.targetsOf day)
  let store ← reads (·.store)
  let included := snapshot.filter fun chainId => (store.chains day chainId).done
  let skipped := snapshot.filter fun chainId => !(store.chains day chainId).done
  if skipped ≠ [] ∧ now < store.clearingDeadline day then pure ()
  else clearInner router day snapshot included

/-- Attempts to clear every day at the gate, each in its own checkpoint; the set is listed first. -/
def tickGate (now : Nat) : Call World Unit := do
  let days ← reads (·.store.gateActive.days)
  days.forM fun day => do
    let _ ← attempt (forceClear router day now)
    pure ()

end Gate

/-! ### Runs -/

inductive Op where
  | dispatchAuctionBrief (day : WorldwideDay) (supplyPromis : Nat)
      (referencePrices : List ReferenceCurrencyPrice) (isGreen : Bool) (now : Nat)
      (overflow : BriefOverflowPolicy)
  | scheduleTick (router : Router) (now : Nat)
  | tickGate (router : Router) (now : Nat)
  | processBidsBatch (caller : Address) (day : WorldwideDay)
      (srcChainId generation batchIndex totalBatches : Nat) (bids : List BidData)
  | processBidsDone (caller : Address) (day : WorldwideDay)
      (srcChainId relayGeneration totalBatches totalBids : Nat)
  /-- The other users of PromisLimit. -/
  | promisLimit (totalUnallocated : Nat)

variable (letterOf : Nat → Option Nat)

def Op.call : Op → Call World Unit
  | .dispatchAuctionBrief day supplyPromis referencePrices isGreen now overflow => do
    let _ ← Desis.dispatchAuctionBrief letterOf day supplyPromis referencePrices isGreen now
      overflow
    pure ()
  | .scheduleTick router now => Desis.scheduleTick router now
  | .tickGate router now => Desis.tickGate router now
  | .processBidsBatch caller day srcChainId generation batchIndex totalBatches bids =>
    Desis.processBidsBatch letterOf caller day srcChainId generation batchIndex totalBatches bids
  | .processBidsDone caller day srcChainId relayGeneration totalBatches totalBids =>
    Desis.processBidsDone caller day srcChainId relayGeneration totalBatches totalBids
  | .promisLimit totalUnallocated =>
    modify fun w => { w with totalUnallocated := totalUnallocated }

/-- Runs an entry point; a failed one leaves nothing behind. -/
def step (op : Op) (w : World) : World := ((checkpoint (op.call letterOf)).run w).2

end Rudis.Desis

import Rudis.Spec.Intex.Series
import Rudis.Spec.IntexFactory.Payout
import Rudis.Spec.PromisLimit

/-!
# `Rudis.Spec.IntexFactory.Units`: the units of a series between two ledgers

The calls that realize Intex units: settlement (`intexfactory/src/runtime.rs`), the expiry sweep
(`intexfactory/src/expired.rs`) and parking into a Gem position (`gemfactory/src/runtime.rs`). The
registry is one ledger, the NFT contract (`contracts/intex/src/shared/IntexNFT1155.sol`) the other;
the second learns of a lifecycle change from a notice that `drain_notices` sends, or drops.

What the modelled calls do not decide is an argument of the operation: whether the prices breach a
trigger, which groups a sweep reaches on its budget and in which order, whether a PayNote covers the
cost, and which notices are delivered. Transfers and bridging set a holder's NFT balance. The ghost
`forfeited` counts the units whose load a sweep returned to PromisLimit.
-/

namespace Rudis.IntexFactory.Units

open Intex (SeriesId SeriesRecord SeriesStore IntexState)

/-! ### The NFT contract -/

structure NftSeries where
  state : IntexState
  calledAt : Nat
  callNoticePeriod : Nat
  deriving DecidableEq

structure Nft where
  series : SeriesId → Option NftSeries
  /-- Balances of the `Issued` token. -/
  balanceOf : SeriesId → Address → Nat

namespace Nft

variable (seriesId : SeriesId)

def load : Call Nft NftSeries := do
  let data ← reads (·.series seriesId)
  ofExcept (okOr data (.revert "NonexistentToken"))

def write (data : NftSeries) : Call Nft Unit :=
  modify fun n => { n with series := update n.series seriesId (some data) }

def setBalance (holder : Address) (balance : Nat) : Call Nft Unit :=
  modify fun n =>
    { n with
      balanceOf := update n.balanceOf seriesId
        (update (n.balanceOf seriesId) holder balance) }

def burn (holder : Address) (amount : Nat) : Call Nft Unit := do
  let balance ← reads (·.balanceOf seriesId holder)
  failIf (balance < amount) (.revert "ERC1155InsufficientBalance")
  setBalance seriesId holder (balance - amount)

def createSeries (callNoticePeriod : Nat) : Call Nft Unit := do
  let known ← reads (·.series seriesId)
  failIf (known.isSome = true) (.revert "TokenAlreadyExists")
  write seriesId ⟨.issued, 0, callNoticePeriod⟩

def markQualified : Call Nft Unit := do
  let data ← load seriesId
  failIf (data.state ≠ .issued) (.revert "InvalidState")
  write seriesId { data with state := .qualified }

def markCalled (calledAt now : Nat) : Call Nft Unit := do
  let data ← load seriesId
  failIf (data.state ≠ .issued ∧ data.state ≠ .qualified) (.revert "InvalidState")
  failIf (calledAt = 0 ∨ now < calledAt) (.revert "CalledAtInvalid")
  write seriesId { data with state := .called, calledAt := calledAt }

/-- Burns units of a series the NFT still shows `Issued` or `Qualified`. -/
def parkIntex (holder : Address) (seriesId : SeriesId) (amount : Nat) : Call Nft Nat := do
  failIf (holder = 0) (.revert "ZeroAddress")
  failIf (amount = 0) (.revert "ZeroAmount")
  let data ← load seriesId
  failIf (data.state ≠ .issued ∧ data.state ≠ .qualified) (.revert "InvalidState")
  burn seriesId holder amount
  pure amount

/-- Turns `Issued` units into soulbound `Settled` ones. -/
def settle (src dst : Address) (amount now : Nat) : Call Nft Unit := do
  failIf (src = 0 ∨ dst = 0) (.revert "ZeroAddress")
  failIf (amount = 0) (.revert "ZeroAmount")
  let data ← load seriesId
  failIf (data.state ≠ .qualified ∧ data.state ≠ .called) (.revert "InvalidStateForSettle")
  when (data.state = .called) do
    let deadline ← ofExcept (okOr (checkedAdd 32 data.calledAt data.callNoticePeriod)
      (.revert "arithmetic overflow"))
    failIf (deadline < now) (.revert "SettleAfterDeadline")
  burn seriesId src amount

end Nft

/-! ### State -/

abbrev GroupKey := Nat × WorldwideDay

structure CalledGroup where
  members : List SeriesId
  deadline : Nat
  deriving DecidableEq

inductive Notice where
  | qualified (key : GroupKey)
  | called (seriesId : SeriesId) (calledAt : Nat)
  deriving DecidableEq

structure GemPosition where
  merchant : Address
  sourceIntexId : SeriesId
  remainingCapacity : Nat
  sourceEntryPrice : Nat
  sourceFloorPrice : Nat
  issuanceCurrency : Nat
  referenceCurrency : Nat
  parkedAt : Nat
  expiresAt : Nat
  deriving DecidableEq

structure World where
  registry : SeriesStore
  unqualified : GroupKey → List SeriesId
  qualified : GroupKey → List SeriesId
  calledGroups : GroupKey → Option CalledGroup
  notices : List Notice
  nft : Nft
  promisLimit : Nat
  referenceCurrencies : List Nat
  authorizedSettler : Address → SeriesId → Address
  positions : Nat → Option GemPosition
  positionValidity : Nat
  totalIntexParked : Nat
  forfeited : SeriesId → Nat

def World.genesis (referenceCurrencies : List Nat) (positionValidity : Nat) : World where
  registry := .empty
  unqualified := fun _ => []
  qualified := fun _ => []
  calledGroups := fun _ => none
  notices := []
  nft := ⟨fun _ => none, fun _ _ => 0⟩
  promisLimit := 0
  referenceCurrencies := referenceCurrencies
  authorizedSettler := fun _ _ => 0
  positions := fun _ => none
  positionValidity := positionValidity
  totalIntexParked := 0
  forfeited := fun _ => 0

/-- Runs a registry call. -/
def onSeries {α : Type} (m : Call SeriesStore α) : Call World α :=
  zoom World.registry (fun registry w => { w with registry := registry }) m

/-- Runs a call of the NFT contract. -/
def onNft {α : Type} (m : Call Nft α) : Call World α :=
  zoom World.nft (fun nft w => { w with nft := nft }) m

/-- Runs a PromisLimit call. -/
def onPromisLimit {α : Type} (m : Call Nat α) : Call World α :=
  zoom World.promisLimit (fun promisLimit w => { w with promisLimit := promisLimit }) m

/-- Runs a call whose failure is logged and left behind. -/
def bestEffort {α : Type} (m : Call World α) : Call World Unit := do
  let _ ← attempt m
  pure ()

/-! ### Lifecycle -/

variable (key : GroupKey)

def insertUnqualified (seriesId : SeriesId) : Call World Unit :=
  modify fun w =>
    { w with unqualified := update w.unqualified key (w.unqualified key ++ [seriesId]) }

/-- Creates a series and enrolls it for qualification; an empty one is not created. -/
def issue (seriesId : SeriesId) (params : SeriesRecord) : Call World Unit := do
  if params.issuedIntexCount = 0 then pure ()
  else do
    onSeries (Intex.createSeries seriesId params)
    insertUnqualified (params.referenceCurrency, params.worldwideDay) seriesId

def enqueueNotice (notice : Notice) : Call World Unit :=
  modify fun w => { w with notices := w.notices ++ [notice] }

/-- Qualifies a group once the rate is above its floor price. -/
def tryQualifyGroup (rate : Nat) : Call World Unit := do
  let members ← reads (·.unqualified key)
  match members with
  | [] => pure ()
  | first :: _ => do
    let series ← onSeries (Intex.loadSeries first)
    if series.state ≠ .issued ∨ rate ≤ series.floorPriceMinor then pure ()
    else do
      members.forM fun seriesId => onSeries (Intex.markQualified seriesId)
      let indexed ← reads (·.qualified key)
      failIf (indexed ≠ []) (IntexFactoryError.groupAlreadyIndexed key.1 key.2).raise
      modify fun w =>
        { w with
          unqualified := update w.unqualified key []
          qualified := update w.qualified key members }
      enqueueNotice (.qualified key)

/-- Parks a called group with its members and the deadline the expiry sweep needs. -/
def pushCalledGroup (deadline : Nat) (members : List SeriesId) : Call World Unit := do
  if members = [] then pure ()
  else do
    let group ← reads (·.calledGroups key)
    failIf (group.isSome = true) (IntexFactoryError.groupAlreadyIndexed key.1 key.2).raise
    modify fun w =>
      { w with calledGroups := update w.calledGroups key (some ⟨members, deadline⟩) }

/-- Force-calls a qualified group whose trigger was breached often enough. -/
def tryCallGroup (breached : Bool) (now : Nat) : Call World Unit := do
  let members ← reads (·.qualified key)
  match members with
  | [] => pure ()
  | first :: _ => do
    let series ← onSeries (Intex.loadSeries first)
    if series.state ≠ .qualified ∨ breached = false then pure ()
    else do
      failIf (2 ^ 32 ≤ now) (.revert "block timestamp exceeds u32")
      members.forM fun seriesId => onSeries (Intex.markCalled seriesId now)
      modify fun w => { w with qualified := update w.qualified key [] }
      pushCalledGroup key (now + series.callNoticePeriod) members
      members.forM fun seriesId => enqueueNotice (.called seriesId now)

/-! ### Expiry -/

/-- Expires one member; returns the load that goes back. -/
def expireMember (seriesId : SeriesId) : Call World Nat := do
  let forfeited ← onSeries (Intex.expireSeries seriesId)
  let returned ← ofExcept (okOr (checkedMul 256 forfeited.promisLoadMinor forfeited.units)
    (.revert "forfeited promis load overflow"))
  modify fun w =>
    { w with
      forfeited := update w.forfeited seriesId (w.forfeited seriesId + forfeited.units) }
  pure returned

/-- Adds what a member returned; a member that cannot expire is skipped. -/
def creditMember (credit : Nat) (seriesId : SeriesId) : Call World Nat := do
  let returned ← attempt (expireMember seriesId)
  match returned with
  | .error _ => pure credit
  | .ok returned =>
    ofExcept (okOr (checkedAdd 256 credit returned) (.revert "forfeited promis credit overflow"))

def removeCalledGroup : Call World Unit :=
  modify fun w => { w with calledGroups := update w.calledGroups key none }

/-- Expires one group in a single credit. -/
def expireGroup (members : List SeriesId) : Call World Unit := do
  let credit ← members.foldlM creditMember 0
  when (credit ≠ 0) do
    let _ ← onPromisLimit (PromisLimit.checkedAddCarryOver credit)
    pure ()
  removeCalledGroup key

/-- Retires a group whose settlement window has closed; without credit if its expiry fails. -/
def retireGroup (now : Nat) (key : GroupKey) : Call World Unit := do
  let group ← reads (·.calledGroups key)
  match group with
  | none => pure ()
  | some group =>
    if now ≤ group.deadline then pure ()
    else do
      let expired ← attempt (expireGroup key group.members)
      match expired with
      | .ok _ => pure ()
      | .error _ => removeCalledGroup key

def sweepExpiryDeadlines (reached : List GroupKey) (now : Nat) : Call World Unit :=
  reached.forM (retireGroup now)

/-! ### Settlement -/

/-- Settles units of a holder against a PayNote. -/
def settle (seriesId : SeriesId) (intexHolder settler : Address) (amount now : Nat)
    (discharged : Result Unit) : Call World Unit := do
  failIf (intexHolder = 0 ∨ settler = 0) IntexFactoryError.zeroAddress.raise
  failIf (amount = 0) IntexFactoryError.zeroAmount.raise
  let series ← onSeries (Intex.loadSeries seriesId)
  failIf (series.state ≠ .qualified ∧ series.state ≠ .called)
    (IntexFactoryError.notSettleable series.state.toNat).raise
  failIf (series.state = .called ∧ series.calledAt + series.callNoticePeriod < now)
    IntexFactoryError.deadlineExpired.raise
  let w ← reads id
  failIf (w.nft.balanceOf seriesId intexHolder = 0) IntexFactoryError.zeroBalance.raise
  failIf (w.nft.balanceOf seriesId intexHolder < amount)
    IntexFactoryError.amountExceedsBalance.raise
  failIf (intexHolder ≠ settler ∧ w.authorizedSettler intexHolder seriesId ≠ settler)
    IntexFactoryError.notAuthorized.raise
  ofExcept discharged
  onNft (Nft.settle seriesId intexHolder settler amount now)
  failIf (2 ^ 32 ≤ amount) (.revert "settled amount exceeds u32")
  onSeries (Intex.recordSettledUnits seriesId amount)

/-! ### Parking into a Gem position -/

section Gem

-- a hash of the series and the block number
variable (generatePositionId : SeriesId → Nat → Nat)

/-- Burns the merchant's units on the NFT contract and issues a position over their load. -/
def issueGemPosition (caller : Address) (sourceIntexId : SeriesId) (amount blockNumber now : Nat) :
    Call World Unit := do
  failIf (caller = 0) (.revert "invalid owner")
  let known ← reads (·.registry.series sourceIntexId)
  let series ← ofExcept (okOr known (.revert "source intex not found"))
  let codes ← reads (·.referenceCurrencies)
  failIf (series.referenceCurrency ∉ codes)
    (.revert s!"iso_code {series.referenceCurrency} is not a registered reference currency")
  let units ← onNft (Nft.parkIntex caller sourceIntexId amount)
  let capacity ← ofExcept (okOr (checkedMul 256 series.promisLoadMinor units) (.revert "overflow"))
  failIf (2 ^ 32 ≤ units) (.revert "overflow")
  onSeries (Intex.recordParkedUnits sourceIntexId units)
  let w ← reads id
  let positionId := generatePositionId sourceIntexId blockNumber
  failIf ((w.positions positionId).isSome = true) (.revert "position already exists")
  let position : GemPosition :=
    { merchant := caller
      sourceIntexId := sourceIntexId
      remainingCapacity := capacity
      sourceEntryPrice := series.entryPriceMinor
      sourceFloorPrice := series.floorPriceMinor
      issuanceCurrency := series.issuanceCurrency
      referenceCurrency := series.referenceCurrency
      parkedAt := now
      expiresAt := saturatingAdd 64 now w.positionValidity }
  let newParked ← ofExcept (okOr (checkedAdd 256 w.totalIntexParked capacity) (.revert "overflow"))
  modify fun w =>
    { w with
      positions := update w.positions positionId (some position)
      totalIntexParked := newParked }

end Gem

/-! ### Notices -/

/-- What a delivered notice does on the NFT contract, which acknowledges a mark it refuses. -/
def deliver (notice : Notice) (now : Nat) : Call World Unit := do
  match notice with
  | .qualified key => do
    let members ← reads (·.qualified key)
    members.forM fun seriesId => bestEffort (onNft (Nft.markQualified seriesId))
  | .called seriesId calledAt =>
    -- a target refuses a zero stamp, so such a notice is dropped
    when (calledAt ≠ 0) (bestEffort (onNft (Nft.markCalled seriesId calledAt now)))

/-- Takes one notice per outcome from the queue and delivers it or drops it. -/
def drainNotices (outcomes : List Bool) (now : Nat) : Call World Unit := do
  let queue ← reads (·.notices)
  (queue.zip outcomes).forM fun (notice, delivered) =>
    when (delivered = true) (deliver notice now)
  modify fun w => { w with notices := queue.drop outcomes.length }

/-! ### Runs -/

inductive Op where
  | issue (seriesId : SeriesId) (params : SeriesRecord)
  | qualifyGroup (key : GroupKey) (rate : Nat)
  | callGroup (key : GroupKey) (breached : Bool) (now : Nat)
  | sweepExpiryDeadlines (reached : List GroupKey) (now : Nat)
  | settle (seriesId : SeriesId) (intexHolder settler : Address) (amount now : Nat)
      (discharged : Result Unit)
  | issueGemPosition (caller : Address) (sourceIntexId : SeriesId) (amount blockNumber now : Nat)
  | drainNotices (outcomes : List Bool) (now : Nat)
  | authorizeSettler (holder : Address) (seriesId : SeriesId) (settler : Address)
  /-- The issuance message reaches the NFT contract. -/
  | nftCreateSeries (seriesId : SeriesId) (callNoticePeriod : Nat)
  /-- A transfer or a bridge leaves a holder with this balance. -/
  | nftBalance (seriesId : SeriesId) (holder : Address) (balance : Nat)
  /-- Other modules credit and draw on PromisLimit. -/
  | promisLimit (total : Nat)

variable (generatePositionId : SeriesId → Nat → Nat)

def Op.call : Op → Call World Unit
  | .issue seriesId params => Units.issue seriesId params
  | .qualifyGroup key rate => tryQualifyGroup key rate
  | .callGroup key breached now => tryCallGroup key breached now
  | .sweepExpiryDeadlines reached now => Units.sweepExpiryDeadlines reached now
  | .settle seriesId intexHolder settler amount now discharged =>
    Units.settle seriesId intexHolder settler amount now discharged
  | .issueGemPosition caller sourceIntexId amount blockNumber now =>
    Units.issueGemPosition generatePositionId caller sourceIntexId amount blockNumber now
  | .drainNotices outcomes now => Units.drainNotices outcomes now
  | .authorizeSettler holder seriesId settler =>
    modify fun w =>
      { w with
        authorizedSettler := update w.authorizedSettler holder
          (update (w.authorizedSettler holder) seriesId settler) }
  | .nftCreateSeries seriesId callNoticePeriod => onNft (Nft.createSeries seriesId callNoticePeriod)
  | .nftBalance seriesId holder balance => onNft (Nft.setBalance seriesId holder balance)
  | .promisLimit total => modify fun w => { w with promisLimit := total }

/-- Runs an entry point; a failed one leaves nothing behind. -/
def step (op : Op) (w : World) : World := ((checkpoint (op.call generatePositionId)).run w).2

end Rudis.IntexFactory.Units

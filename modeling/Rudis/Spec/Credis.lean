import Rudis.Spec.StorageVec

/-!
# `Rudis.Spec.Credis`: the position ledger

`credis/src/runtime.rs` and `credis/src/state.rs`: positions open, are called, are settled in any
number of payments, and are voided when a called one is not settled in time. `Op` lists the calls
and `step` runs one of them in the current block.

A position is a record keyed by its id. A record exists when its `smartAccount` is not zero, which
is how the storage layer tells a written record from an empty slot. The owner index is keyed by
the hash of an account and a number; here it is a mapping of the two. Events are left out.

`World.journal` is not part of the contract: it keeps what the calls returned, per position.
-/

namespace Rudis.Credis

/-! ### Constants and errors -/

def priceRateDen : Nat := 100

def callRatePct : Nat := 64

/-- Settlement window opened by a call, in seconds. -/
def callWindowSecs : Nat := 7 * 24 * 60 * 60

def daysPerYear : Nat := 365

inductive CredisError where
  | positionNotFound
  | positionAlreadyExists
  | positionClosed
  | invalidAmount
  | paymentBelowAccruedInterest
  | notCalled
  | callWindowOpen
  | nothingOutstanding
  | arithmeticOverflow
  deriving DecidableEq

/-- Every error reverts with its text. -/
def CredisError.toPrecompileError : CredisError → PrecompileError
  | .positionNotFound => .revert "position not found"
  | .positionAlreadyExists => .revert "position already exists"
  | .positionClosed => .revert "position is closed"
  | .invalidAmount => .revert "amount must be positive"
  | .paymentBelowAccruedInterest =>
    .revert "payment is below the interest accrued since the last settlement"
  | .notCalled => .revert "position is not called"
  | .callWindowOpen => .revert "call window has not lapsed"
  | .nothingOutstanding => .revert "position has no outstanding principal"
  | .arithmeticOverflow => .revert "credis arithmetic overflow"

/-- The value of a checked operation. -/
def checked {α : Type} (x : Option α) : Result α :=
  okOr x CredisError.arithmeticOverflow.toPrecompileError

/-! ### Storage -/

inductive CredisState where
  | opened
  | called
  | settled
  | void
  deriving DecidableEq

def CredisState.isTerminal : CredisState → Bool
  | .settled | .void => true
  | .opened | .called => false

structure Position where
  positionId : B256
  smartAccount : Address
  cca : Address
  asset : Address
  issuanceCurrency : Nat
  referenceCurrency : Nat
  eoaCt : List UInt8
  principal : Nat
  outstanding : Nat
  collateral : Nat
  collateralLocked : Nat
  policyRate : Nat
  entryPrice : Nat
  callPrice : Nat
  originatedAt : Nat
  lastSettledAt : Nat
  calledAt : Nat
  state : CredisState
  deriving DecidableEq

/-- An empty slot. -/
def Position.zero : Position :=
  ⟨0, 0, 0, 0, 0, 0, [], 0, 0, 0, 0, 0, 0, 0, 0, 0, 0, .opened⟩

/-- The record was written. -/
def Position.Exists (p : Position) : Prop := p.smartAccount ≠ 0

instance (p : Position) : Decidable p.Exists := inferInstanceAs (Decidable (_ ≠ _))

structure Store where
  positions : B256 → Position
  addressPositionCounts : Address → Nat
  addressPositionIds : Address → Nat → B256
  totalPositions : Nat
  positionIdAtIndex : Nat → B256
  activePositions : StorageVec B256
  activePositionIndex : B256 → Nat
  calledPositionCounts : Address → Nat

def Store.empty : Store where
  positions := fun _ => .zero
  addressPositionCounts := fun _ => 0
  addressPositionIds := fun _ _ => 0
  totalPositions := 0
  positionIdAtIndex := fun _ => 0
  activePositions := .empty 0
  activePositionIndex := fun _ => 0
  calledPositionCounts := fun _ => 0

def Store.writePosition (s : Store) (p : Position) : Store :=
  { s with positions := update s.positions p.positionId p }

variable (positionId : B256)

def loadPosition : Call Store Position := do
  let p ← reads (·.positions positionId)
  failIf (¬ p.Exists) CredisError.positionNotFound.toPrecompileError
  pure p

variable (p : Position)

def createPositionRecord : Call Store Unit := do
  let old ← reads (·.positions p.positionId)
  failIf old.Exists (.revert "Position already exists")
  modify (·.writePosition p)

def updatePositionRecord : Call Store Unit := do
  let old ← reads (·.positions p.positionId)
  failIf (¬ old.Exists) (.revert "Position not found")
  modify (·.writePosition p)

def appendToAddressIndex (account : Address) (positionId : B256) : Call Store Unit :=
  modify fun s =>
    let count := s.addressPositionCounts account
    { s with
      addressPositionIds := update s.addressPositionIds account
        (update (s.addressPositionIds account) count positionId)
      addressPositionCounts :=
        update s.addressPositionCounts account (wrappingAdd 32 count 1) }

def appendToGlobalIndex : Call Store Unit :=
  modify fun s =>
    { s with
      positionIdAtIndex := update s.positionIdAtIndex s.totalPositions positionId
      totalPositions := wrappingAdd 64 s.totalPositions 1 }

/-- Appends a position to the dense active index. -/
def insertActive : Call Store Unit :=
  modify fun s =>
    { s with
      activePositions := s.activePositions.push positionId
      activePositionIndex :=
        update s.activePositionIndex positionId s.activePositions.length }

/-- Moves the last active position to another index. -/
def moveLastActive (index last : Nat) : Call Store Unit := do
  let v ← reads (·.activePositions)
  let moved ← ofExcept (okOr (v.get last) CredisError.positionNotFound.toPrecompileError)
  let v' ← ofExcept (v.set index moved)
  modify fun s =>
    { s with
      activePositions := v'
      activePositionIndex := update s.activePositionIndex moved index }

/-- Swap-removes a position from the dense active index. -/
def removeActive : Call Store Unit := do
  let index ← reads (·.activePositionIndex positionId)
  let length ← reads (·.activePositions.length)
  let last ← ofExcept (okOr (checkedSub length 1) CredisError.positionNotFound.toPrecompileError)
  when (index ≠ last) (moveLastActive index last)
  modify fun s =>
    { s with
      activePositions := s.activePositions.pop 0
      activePositionIndex := update s.activePositionIndex positionId 0 }

def bumpCalledCount (account : Address) : Call Store Unit :=
  modify fun s =>
    { s with
      calledPositionCounts := update s.calledPositionCounts account
        (saturatingAdd 32 (s.calledPositionCounts account) 1) }

def dropCalledCount (account : Address) : Call Store Unit :=
  modify fun s =>
    { s with
      calledPositionCounts := update s.calledPositionCounts account
        (s.calledPositionCounts account - 1) }

/-! ### Terms -/

/-- Terms captured when a position opens. -/
structure OpenPositionParams where
  handleId : B256
  smartAccount : Address
  cca : Address
  eoaCt : List UInt8
  asset : Address
  issuanceCurrency : Nat
  referenceCurrency : Nat
  policyRate : Nat
  principal : Nat
  entryPrice : Nat
  collateral : Nat
  originatedAt : Nat
  deriving DecidableEq

structure Settlement where
  interest : Nat
  principalPaid : Nat
  totalPaid : Nat
  gratisReleased : Nat
  asset : Address
  smartAccount : Address
  cca : Address
  closed : Bool
  deriving DecidableEq

structure Void where
  gratisBurned : Nat
  principalWrittenOff : Nat
  interestWrittenOff : Nat
  smartAccount : Address
  cca : Address
  unpaidShare : Nat
  eoaCt : List UInt8
  deriving DecidableEq

def calcCallPrice (price : Nat) : Result Nat := do
  let v ← checked (checkedMul 256 price (priceRateDen + callRatePct))
  pure (v / priceRateDen)

/-- Timestamp after which a called position's remainder may be voided. -/
def settlementDeadline : Nat := saturatingAdd 64 p.calledAt callWindowSecs

/-- Whole days charged by a settlement at `now`. -/
def elapsedDays (now : Nat) : Nat := (now - p.lastSettledAt) / secondsPerDay

/-- Interest accrued since the accrual anchor: simple, ACT/365 over whole days, rounded up. -/
def accruedInterest (now : Nat) : Result Nat :=
  let days := elapsedDays p now
  if days = 0 ∨ p.outstanding = 0 ∨ p.policyRate = 0 then .ok 0
  else do
    let product ← checked (checkedMul 256 p.outstanding p.policyRate)
    let numerator ← checked (checkedMul 256 product days)
    let denominator ← checked (checkedMul 256 daysPerYear scale1e6)
    pure (divCeil numerator denominator)

/-- The collateral a payment of principal frees: the floored share, and all of it at the end. -/
def gratisReleased (principalPaid : Nat) : Result Nat :=
  if principalPaid = p.outstanding then .ok p.collateralLocked
  else do
    let product ← checked (checkedMul 256 p.collateral principalPaid)
    pure (product / p.principal)

def applyPayment (principalPaid released days : Nat) : Result Position := do
  let outstanding ← checked (checkedSub p.outstanding principalPaid)
  let collateralLocked ← checked (checkedSub p.collateralLocked released)
  pure { p with
    outstanding := outstanding
    collateralLocked := collateralLocked
    lastSettledAt := saturatingAdd 64 p.lastSettledAt (saturatingMul 64 days secondsPerDay)
    state := if outstanding = 0 then .settled else p.state }

/-! ### Calls -/

section Calls

variable (positionIdOf : B256 → Address → B256)

/-- Opens a position; its id is derived from the pledge handle and the account. -/
def openPosition (params : OpenPositionParams) : Call Store B256 := do
  failIf (params.principal = 0 ∨ params.collateral = 0) CredisError.invalidAmount.toPrecompileError
  let positionId := positionIdOf params.handleId params.smartAccount
  let old ← reads (·.positions positionId)
  failIf old.Exists CredisError.positionAlreadyExists.toPrecompileError
  let callPrice ← ofExcept (calcCallPrice params.entryPrice)
  createPositionRecord
    { positionId := positionId
      smartAccount := params.smartAccount
      cca := params.cca
      asset := params.asset
      issuanceCurrency := params.issuanceCurrency
      referenceCurrency := params.referenceCurrency
      eoaCt := params.eoaCt
      principal := params.principal
      outstanding := params.principal
      collateral := params.collateral
      collateralLocked := params.collateral
      policyRate := params.policyRate
      entryPrice := params.entryPrice
      callPrice := callPrice
      originatedAt := params.originatedAt
      lastSettledAt := params.originatedAt
      calledAt := 0
      state := .opened }
  appendToAddressIndex params.smartAccount positionId
  appendToGlobalIndex positionId
  insertActive positionId
  pure positionId

/-- Calls an open position; any other one is left as it is. -/
def markCalled (now : Nat) : Call Store Bool := do
  let p ← loadPosition positionId
  if p.state ≠ .opened then pure false
  else do
    updatePositionRecord { p with state := .called, calledAt := now }
    bumpCalledCount p.smartAccount
    pure true

/-- Applies a payment of `amount`: interest first, principal second. -/
def settle (amount now : Nat) : Call Store Settlement := do
  let p ← loadPosition positionId
  failIf (p.state.isTerminal = true) CredisError.positionClosed.toPrecompileError
  let interest ← ofExcept (accruedInterest p now)
  failIf (amount < interest) CredisError.paymentBelowAccruedInterest.toPrecompileError
  let principalPaid := min (amount - interest) p.outstanding
  let released ← ofExcept (gratisReleased p principalPaid)
  let p' ← ofExcept (applyPayment p principalPaid released (elapsedDays p now))
  updatePositionRecord p'
  when (p'.outstanding = 0) do
    removeActive positionId
    when (p.state = .called) (dropCalledCount p.smartAccount)
  let totalPaid ← ofExcept (checked (checkedAdd 256 interest principalPaid))
  pure
    { interest := interest
      principalPaid := principalPaid
      totalPaid := totalPaid
      gratisReleased := released
      asset := p'.asset
      smartAccount := p'.smartAccount
      cca := p'.cca
      closed := decide (p'.outstanding = 0) }

/-- Voids the remainder of a called position whose settlement window has lapsed. -/
def voidPosition (now : Nat) : Call Store Void := do
  let p ← loadPosition positionId
  failIf (p.state ≠ .called) CredisError.notCalled.toPrecompileError
  failIf (now < settlementDeadline p) CredisError.callWindowOpen.toPrecompileError
  failIf (p.outstanding = 0) CredisError.nothingOutstanding.toPrecompileError
  let interestWrittenOff ← ofExcept (accruedInterest p now)
  let scaled ← ofExcept (checked (checkedMul 256 p.outstanding scale1e6))
  updatePositionRecord { p with outstanding := 0, collateralLocked := 0, state := .void }
  removeActive positionId
  dropCalledCount p.smartAccount
  pure
    { gratisBurned := p.collateralLocked
      principalWrittenOff := p.outstanding
      interestWrittenOff := interestWrittenOff
      smartAccount := p.smartAccount
      cca := p.cca
      unpaidShare := scaled / p.principal
      eoaCt := p.eoaCt }

/-! ### Runs -/

/-- One payment of a position: when, on which outstanding principal and for how many days interest
was charged, the principal it paid and the collateral it freed. -/
structure Charge where
  time : Nat
  principal : Nat
  days : Nat
  interest : Nat
  paid : Nat
  released : Nat
  deriving DecidableEq

/-- What happened to one position. -/
structure Journal where
  charges : List Charge
  burned : Nat
  deriving DecidableEq

structure World where
  store : Store
  /-- Timestamp of the current block. -/
  now : Nat
  journal : B256 → Journal

def World.genesis : World := ⟨.empty, 0, fun _ => ⟨[], 0⟩⟩

inductive Op where
  /-- A new block; its timestamp is a `u64` and never goes back. -/
  | block (timestamp : UInt64)
  /-- The position originates in the current block. -/
  | openPosition (params : OpenPositionParams)
  | markCalled (positionId : B256)
  | settle (positionId : B256) (amount : Nat)
  | voidPosition (positionId : B256)

/-- Enters a payment in the journal of its position. -/
def World.charge (w : World) (positionId : B256) (s : Settlement) : World :=
  let p := w.store.positions positionId
  let j := w.journal positionId
  { w with
    journal := update w.journal positionId
      { j with charges := j.charges ++
          [⟨w.now, p.outstanding, elapsedDays p w.now, s.interest, s.principalPaid,
            s.gratisReleased⟩] } }

/-- Enters a void in the journal of its position. -/
def World.burn (w : World) (positionId : B256) (v : Void) : World :=
  let j := w.journal positionId
  { w with
    journal := update w.journal positionId { j with burned := j.burned + v.gratisBurned } }

/-- Runs a call; a failed one leaves nothing behind. -/
def World.commit {α : Type} (w : World) (m : Call Store α) (note : α → World) : World :=
  match (checkpoint m).run w.store with
  | (.ok a, s) => { note a with store := s }
  | (.error _, _) => w

/-- One call in the current block. -/
def step : Op → World → World
  | .block timestamp, w => { w with now := max w.now timestamp.toNat }
  | .openPosition params, w =>
    w.commit (openPosition positionIdOf { params with originatedAt := w.now }) fun _ => w
  | .markCalled positionId, w => w.commit (markCalled positionId w.now) fun _ => w
  | .settle positionId amount, w =>
    w.commit (settle positionId amount w.now) (w.charge positionId)
  | .voidPosition positionId, w => w.commit (voidPosition positionId w.now) (w.burn positionId)

end Calls

end Rudis.Credis

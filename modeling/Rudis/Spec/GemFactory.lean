import Rudis.Spec.Gem
import Rudis.Spec.IntexFactory.Units

/-!
# `Rudis.Spec.GemFactory`: positions and the gems issued from them

`gemfactory/src/runtime.rs`: `issue_gem_position` (its body is in `Rudis.Spec.IntexFactory.Units`)
and `issue_merchant_gem`. The COEN rate of the block and the resolved Gem parameters are arguments,
the two id hashes parameters. The owner index and the live queue of positions are left out; no write
to them fails.
-/

namespace Rudis.GemFactory

open Gem (GemParams)
open Intex (SeriesId)
open IntexFactory.Units (World GemPosition)

structure State where
  world : World
  gem : Gem.Store
  totalGemsIssued : Nat

/-- What a block fixes for its calls. -/
structure IssueEnv extends BlockEnv where
  /-- The fresh COEN rate of a currency. -/
  coenRate : Nat → Result Nat
  terms : GemParams

def onGem {α : Type} (m : Call Gem.Store α) : Call State α :=
  zoom State.gem (fun gem s => { s with gem := gem }) m

/-! ### Prices -/

def overflow : PrecompileError := .revert "overflow"

def readReferenceOracleRate (env : IssueEnv) (referenceCurrency : Nat) : Result Nat := do
  let rate ← env.coenRate referenceCurrency
  throwIf (rate = 0) (.revert "oracle nominal unavailable")
  pure rate

def computeCost (entry load costNum : Nat) : Result Nat := do
  let product ← okOr (checkedMul 256 entry load) overflow
  let numerator ← okOr (checkedMul 256 product costNum) overflow
  let denominator ← okOr (checkedMul 256 scale1e6 100) overflow
  throwIf (entry ≠ 0 ∧ load ≠ 0 ∧ numerator / denominator = 0) (.revert "gem cost rounds to zero")
  pure (numerator / denominator)

def markup (entryPrice rate : Nat) : Result Nat := do
  let acc ← okOr (checkedMul 256 entryPrice (100 + rate)) overflow
  pure (acc / 100)

def derivedFloor (entryPrice floorRate : Nat) : Result Nat :=
  markup entryPrice floorRate

def derivedCallPrice (entryPrice callRate : Nat) : Result Nat :=
  markup entryPrice callRate

structure GemPrices where
  entry : Nat
  floor : Nat
  call : Nat

/-- The prices of a merchant gem, never below those of the source Intex. -/
def merchantPrices (env : IssueEnv) (record : GemPosition) (promisLoad : Nat) :
    Result GemPrices := do
  let coenRate ← readReferenceOracleRate env record.referenceCurrency
  let entryPrice := max coenRate record.sourceEntryPrice
  let _ ← computeCost entryPrice promisLoad 100
  let floorPrice ← derivedFloor entryPrice env.terms.floorRate
  let callPrice ← derivedCallPrice entryPrice env.terms.callRate
  pure ⟨entryPrice, max floorPrice record.sourceFloorPrice, callPrice⟩

/-! ### Issuance -/

section
variable (generatePositionId : SeriesId → Nat → Nat) (generateGemId : Address → Nat → Nat → Nat)

/-- Parks units of a series; returns the position issued for them. -/
def issueGemPosition (env : IssueEnv) (caller : Address) (sourceIntexId : SeriesId) (amount : Nat) :
    Call State Nat := do
  zoom State.world (fun world s => { s with world := world })
    (IntexFactory.Units.issueGemPosition generatePositionId caller sourceIntexId amount
      env.blockNumber env.timestamp)
  pure (generatePositionId sourceIntexId env.blockNumber)

def merchantGem : Nat := 5

/-- Issues one merchant gem to a customer, draining the position's capacity. -/
def issueMerchantGem (env : IssueEnv) (caller : Address) (positionId : Nat) (owner : Address)
    (promisLoad : Nat) : Call State Nat := do
  failIf (owner = 0) (.revert "invalid owner")
  failIf (promisLoad = 0) (.revert "promis load must be positive")
  let known ← reads (·.world.positions positionId)
  let record ← ofExcept (okOr known (.revert "position not found"))
  failIf (record.merchant ≠ caller) (.revert "only position owner can issue merchant gem")
  failIf (record.expiresAt ≤ env.timestamp) (.revert "position expired")
  let remaining ← ofExcept (okOr (checkedSub record.remainingCapacity promisLoad)
    (.revert "insufficient factory capacity"))
  let prices ← ofExcept (merchantPrices env record promisLoad)
  let gemId ← onGem (Gem.addGem generateGemId env.terms env.blockNumber
    { owner := owner
      gemType := merchantGem
      promisLoadMinor := promisLoad
      entryPriceMinor := prices.entry
      floorPriceMinor := prices.floor
      callPriceMinor := prices.call
      callRate := env.terms.callRate
      issuanceCurrency := record.issuanceCurrency
      referenceCurrency := record.referenceCurrency
      initialState := .issued
      issuedAt := env.timestamp })
  let total ← reads (·.totalGemsIssued)
  let newTotal ← ofExcept (okOr (checkedAdd 256 total 1) overflow)
  modify fun s =>
    { s with
      world :=
        { s.world with
          positions := update s.world.positions positionId
            (some { record with remainingCapacity := remaining }) }
      totalGemsIssued := newTotal }
  pure gemId

end

end Rudis.GemFactory

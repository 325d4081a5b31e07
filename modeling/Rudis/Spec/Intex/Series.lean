import Rudis.Spec.Intex.Proceeds

/-!
# `Rudis.Spec.Intex.Series`: the series records of the Intex registry

`intex/src/api.rs`: a series is created `Issued`, and moves to `Qualified`, `Called` and `Expired`.
Its units are settled or parked while they last; at expiry the rest is forfeited. A record exists
when its `issued_at` is set, so it is an `Option`.
-/

namespace Rudis.Intex


inductive IntexState where
  | issued
  | qualified
  | called
  | expired
  deriving DecidableEq

/-- The stored discriminant. -/
def IntexState.toNat : IntexState → Nat
  | .issued => 0
  | .qualified => 1
  | .called => 2
  | .expired => 3

abbrev SeriesId := BitVec 112

structure SeriesRecord where
  issuanceCurrency : Nat
  referenceCurrency : Nat
  issuedIntexCount : Nat
  promisLoadMinor : Nat
  entryPriceMinor : Nat
  floorPriceMinor : Nat
  callPriceMinor : Nat
  callWindow : Nat
  callThreshold : Nat
  callNoticePeriod : Nat
  issuedAt : Nat
  calledAt : Nat
  state : IntexState
  worldwideDay : WorldwideDay

structure SeriesStore where
  series : SeriesId → Option SeriesRecord
  settledUnits : SeriesId → Nat
  parkedUnits : SeriesId → Nat

def SeriesStore.empty : SeriesStore where
  series := fun _ => none
  settledUnits := fun _ => 0
  parkedUnits := fun _ => 0

variable (seriesId : SeriesId)

def loadSeries : Call SeriesStore SeriesRecord := do
  let record ← reads (·.series seriesId)
  ofExcept (okOr record IntexError.seriesNotFound.raise)

def updateSeriesRecord (record : SeriesRecord) : Call SeriesStore Unit :=
  modify fun r => { r with series := update r.series seriesId (some record) }

/-- Creates a series, always in `Issued` and not called. -/
def createSeries (params : SeriesRecord) : Call SeriesStore Unit := do
  failIf (params.issuedAt = 0) IntexError.zeroIssuedAt.raise
  let known ← reads (·.series seriesId)
  failIf (known.isSome = true) (.revert "series already exists")
  updateSeriesRecord seriesId { params with state := .issued, calledAt := 0 }

def markQualified : Call SeriesStore Unit := do
  let record ← loadSeries seriesId
  failIf (record.state ≠ .issued)
    (IntexError.invalidState IntexState.issued.toNat record.state.toNat).raise
  updateSeriesRecord seriesId { record with state := .qualified }

def markCalled (calledAt : Nat) : Call SeriesStore Unit := do
  let record ← loadSeries seriesId
  failIf (record.state ≠ .issued ∧ record.state ≠ .qualified)
    (IntexError.invalidStateEither IntexState.issued.toNat IntexState.qualified.toNat
      record.state.toNat).raise
  updateSeriesRecord seriesId { record with state := .called, calledAt := calledAt }

/-- What a series forfeited when its call window closed. -/
structure Forfeited where
  units : Nat
  promisLoadMinor : Nat

/-- Expires a called series; what is neither settled nor parked is forfeited. -/
def expireSeries : Call SeriesStore Forfeited := do
  let record ← loadSeries seriesId
  failIf (record.state ≠ .called)
    (IntexError.invalidState IntexState.called.toNat record.state.toNat).raise
  let r ← reads id
  let left ← ofExcept (okOr (checkedSub record.issuedIntexCount (r.settledUnits seriesId))
    IntexError.realizedUnitsOverflow.raise)
  let forfeited ← ofExcept (okOr (checkedSub left (r.parkedUnits seriesId))
    IntexError.realizedUnitsOverflow.raise)
  updateSeriesRecord seriesId { record with state := .expired }
  pure ⟨forfeited, record.promisLoadMinor⟩

inductive RealizedKind where
  | settled
  | parked
  deriving DecidableEq

/-- The counters of a series after realizing some of its units. -/
def realizedUnits (kind : RealizedKind) (settled parked units issued : Nat) :
    Result (Nat × Nat) := do
  let counters ←
    match kind with
    | .settled => do
      let settled ← okOr (checkedAdd 32 settled units) IntexError.realizedUnitsOverflow.raise
      pure (settled, parked)
    | .parked => do
      let parked ← okOr (checkedAdd 32 parked units) IntexError.realizedUnitsOverflow.raise
      pure (settled, parked)
  let realized ← okOr (checkedAdd 32 counters.1 counters.2) IntexError.realizedUnitsOverflow.raise
  throwIf (realized > issued) IntexError.realizedUnitsOverflow.raise
  pure counters

/-- Records realized units; the issued count of an absent series reads as zero. -/
def addRealizedUnits (units : Nat) (kind : RealizedKind) : Call SeriesStore Unit := do
  if units = 0 then pure ()
  else do
    let r ← reads id
    let counters ← ofExcept (realizedUnits kind (r.settledUnits seriesId)
      (r.parkedUnits seriesId) units ((r.series seriesId).elim 0 (·.issuedIntexCount)))
    modify fun r =>
      match kind with
      | .settled => { r with settledUnits := update r.settledUnits seriesId counters.1 }
      | .parked => { r with parkedUnits := update r.parkedUnits seriesId counters.2 }

/-- Their load belongs to the settler from now on. -/
def recordSettledUnits (units : Nat) : Call SeriesStore Unit :=
  addRealizedUnits seriesId units .settled

/-- Their load moved into the Gem position. -/
def recordParkedUnits (units : Nat) : Call SeriesStore Unit :=
  addRealizedUnits seriesId units .parked

end Rudis.Intex

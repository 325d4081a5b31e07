import Rudis.Lib.SwapRemove
import Rudis.Spec.BinTree

/-!
# `Rudis.Spec.IntexFactory.CallSweep`: the Called sweep and its slices

`intexfactory/src/called.rs` and `ScanBudget` of `intexfactory/src/qualified.rs`: a daily sweep walks
the qualified groups of every reference currency bin by bin, at most one budget's worth per block,
and resumes where the budget gave out. The sweep is open while `callSweepDay` is set.

The bins of a currency are the non-empty ones in ascending order, which is what the trie search
visits. Against the pinned day the decision on a group does not change, so a group carries it. The
eligible range of a currency ends at `pBin`, the bin of the window's price; it is absent when too
few days carry a price or the price has no bin.
-/

namespace Rudis.IntexFactory.CallSweep

open BinTree (maxBinId)

/-! ### Budget -/

def maxGroupDecisionsPerBlock : Nat := 256

def maxSeriesActionsPerBlock : Nat := 256

/-- Work one scan may do: a decision reads a group, an action writes one series. -/
structure ScanBudget where
  decisions : Nat
  actions : Nat
  actionsFull : Nat
  deriving DecidableEq

namespace ScanBudget

def forQualify : ScanBudget :=
  ⟨maxGroupDecisionsPerBlock, maxSeriesActionsPerBlock, maxSeriesActionsPerBlock⟩

def isSpent (b : ScanBudget) : Bool := b.decisions = 0 ∨ b.actions = 0

/-- Whole groups only; the first group of a scan may exceed the budget. -/
def admitsActions (b : ScanBudget) (members : Nat) : Bool :=
  members ≤ b.actions ∨ b.actions = b.actionsFull

def spendDecision (b : ScanBudget) : ScanBudget := { b with decisions := b.decisions - 1 }

def spendActions (b : ScanBudget) (series : Nat) : ScanBudget :=
  { b with actions := b.actions - series }

end ScanBudget

/-! ### Qualified groups -/

structure Group where
  worldwideDay : WorldwideDay
  /-- How many series the group has. -/
  members : Nat
  /-- What `try_call_group` finds on the pinned day: the series are Qualified, their terms are of a
  day at least, the trigger was breached often enough, and no write of the call fails. -/
  callable : Bool
  deriving DecidableEq

/-- How many series of a group are called. -/
def tryCallGroup (g : Group) : Nat := if g.callable then g.members else 0

structure Bin where
  id : Nat
  groups : List Group
  deriving DecidableEq

structure Currency where
  isoCode : Nat
  /-- The currency has a registered COEN pair. -/
  hasPair : Bool
  pBin : Option Nat
  /-- The non-empty bins, ascending. -/
  bins : List Bin
  callScanCursor : Nat
  deriving DecidableEq

structure Factory where
  callSweepDay : Nat
  callCurrencyCursor : Nat
  currencies : List Currency
  deriving DecidableEq

/-! ### Walking one currency -/

/-- Drops a called group from its bin. -/
def removeGroup (groups : List Group) (g : Group) : List Group :=
  groups.swapRemove (groups.idxOf g)

structure BinWalk where
  /-- What is left in the bin. -/
  groups : List Group
  budget : ScanBudget
  /-- The walk reached the end of the bin. -/
  done : Bool
  deriving DecidableEq

/-- Decides the groups of a snapshot of the bin; a called group leaves it. -/
def walkBin : List Group → List Group → ScanBudget → BinWalk
  | [], groups, budget => ⟨groups, budget, true⟩
  | g :: snapshot, groups, budget =>
    if budget.admitsActions g.members = false then ⟨groups, budget, false⟩
    else
      let budget := budget.spendDecision
      let applied := tryCallGroup g
      if applied = 0 then walkBin snapshot groups budget
      else walkBin snapshot (removeGroup groups g) (budget.spendActions applied)

structure CurrencyWalk where
  bins : List Bin
  cursor : Nat
  budget : ScanBudget
  /-- The eligible range was walked to the end. -/
  finished : Bool
  deriving DecidableEq

/-- The bin after a walk, gone when nothing is left in it. -/
def keepBin (id : Nat) (groups : List Group) (rest : List Bin) : List Bin :=
  if groups = [] then rest else ⟨id, groups⟩ :: rest

/-- Walks the bins at and past the cursor, up to `pBin`. -/
def walkBins (pBin : Nat) : List Bin → Nat → ScanBudget → CurrencyWalk
  | [], cursor, budget =>
    -- between bins, so the next slice resumes at a bin it has not opened
    if budget.isSpent then ⟨[], cursor, budget, false⟩ else ⟨[], 0, budget, true⟩
  | bin :: bins, cursor, budget =>
    if budget.isSpent then ⟨bin :: bins, cursor, budget, false⟩
    else if pBin < bin.id then ⟨bin :: bins, 0, budget, true⟩
    else
      let walk := walkBin bin.groups bin.groups budget
      if walk.done = false then
        ⟨keepBin bin.id walk.groups bins, bin.id, walk.budget, false⟩
      else if maxBinId < bin.id + 1 then
        ⟨keepBin bin.id walk.groups bins, 0, walk.budget, true⟩
      else
        let rest := walkBins pBin bins (bin.id + 1) walk.budget
        { rest with bins := keepBin bin.id walk.groups rest.bins }

/-- Scans the qualified groups of one currency on the shared budget. -/
def callCurrency (c : Currency) (budget : ScanBudget) : Currency × ScanBudget × Bool :=
  match c.pBin with
  | none => (c, budget, true)
  | some pBin =>
    let walk := walkBins pBin (c.bins.filter (c.callScanCursor ≤ ·.id)) c.callScanCursor budget
    ({ c with
        bins := c.bins.filter (·.id < c.callScanCursor) ++ walk.bins
        callScanCursor := walk.cursor },
      walk.budget, walk.finished)

/-! ### Slices -/

/-- Index of the currency the cursor names, or the head when the registry dropped it. -/
def currencyPosition (currencies : List Currency) (cursor : Nat) : Nat :=
  (currencies.findIdx? (·.isoCode = cursor)).getD 0

/-- What a slice carries from one currency to the next. -/
structure Slice where
  currencies : List Currency
  budget : ScanBudget
  resumeAt : Nat
  resumed : Bool
  swept : Bool
  deriving DecidableEq

/-- The round at the currency at position `i` of the ring. -/
def sliceRound (s : Slice) (i : Nat) (c : Currency) : Slice :=
  if c.hasPair = false then s
  else
    let result := callCurrency c s.budget
    let first := result.2.2 = false ∧ s.resumed = false
    { currencies := s.currencies.set i result.1
      budget := result.2.1
      resumeAt := if first then i else s.resumeAt
      resumed := if first then true else s.resumed
      swept := s.swept && result.2.2 }

/-- Goes round the ring of currencies until the budget is spent. -/
def sliceRing : List Nat → Slice → Slice
  | [], s => s
  | i :: ring, s =>
    if s.budget.isSpent then
      -- the first currency left unfinished is where the next slice picks up
      { s with resumeAt := if s.resumed then s.resumeAt else i, swept := false }
    else
      match s.currencies[i]? with
      | none => s
      | some c => sliceRing ring (sliceRound s i c)

/-- Advances an open sweep by one slice. -/
def runCallSlice (f : Factory) : Factory :=
  if f.callSweepDay = 0 then f
  else if f.currencies = [] then { f with callSweepDay := 0 }
  else
    let n := f.currencies.length
    let start := currencyPosition f.currencies f.callCurrencyCursor
    let ring := (List.range n).map fun offset => (start + offset) % n
    let s := sliceRing ring ⟨f.currencies, .forQualify, start, false, true⟩
    { callSweepDay := if s.swept then 0 else f.callSweepDay
      callCurrencyCursor := (s.currencies[s.resumeAt]?).elim 0 (·.isoCode)
      currencies := s.currencies }

/-- Opens a sweep over a finalized day and runs its first slice; a sweep in flight is superseded. -/
def scanAndCall (finalizedDay lastClosedDay : Nat) (f : Factory) : Factory :=
  if finalizedDay < lastClosedDay then f
  else
    runCallSlice
      { callSweepDay := lastClosedDay
        callCurrencyCursor := 0
        currencies := f.currencies.map fun c => { c with callScanCursor := 0 } }

end Rudis.IntexFactory.CallSweep

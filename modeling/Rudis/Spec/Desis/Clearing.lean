import Rudis.Spec.Primitives

/-!
# `Rudis.Spec.Desis.Clearing`: the clearing of one auction day

The pure part of `desis/src/runtime.rs`: `sort_bids`, `rate_lock` and `calculate_clearing`, with
the records of `desis/src/schema.rs` they work on. The clearing walks the sorted bids twice: once
to allocate the supply, which fixes the clearing rate, and once to split the lock of every bid
into what is paid and what goes back.

All fields are numbers of the source's fixed widths. The walk never leaves them: the allocation
stops at the supply, and the lock formula saturates explicitly.
-/

namespace Rudis.Desis

/-- Call-trigger parameters relayed with the auction, in seconds. -/
structure IntexCallTrigger where
  callWindow : Nat
  callThreshold : Nat
  callNoticePeriod : Nat

/-- Entry price of one reference currency, captured at the brief. -/
structure ReferenceCurrencyPrice where
  isoCode : Nat
  entryPriceMinor : Nat

/-- Auction configuration of a day. -/
structure AuctionConfig where
  /-- PROMIS units per Intex unit. -/
  promisLoadMinor : Nat
  callTrigger : IntexCallTrigger
  /-- Smallest acceptable bid rate, in millionths of the escrow basis. -/
  minIntexBidRate : Nat
  minIntexBidQuantity : Nat
  commitBondMinor : Nat
  referencePrices : List ReferenceCurrencyPrice

/-- The per-Intex escrow basis a bid rate applies to. -/
def AuctionConfig.escrowBasisMinor (config : AuctionConfig) : Nat := config.promisLoadMinor

/-- One bid relayed from a target chain. -/
structure BidData where
  bidderAddress : Address
  intexBidRate : Nat
  timestamp : Nat
  intexQuantity : Nat
  issuanceCurrency : Nat
  referenceCurrency : Nat

/-- A bid with its source chain. -/
abbrev TaggedBid := Nat × BidData

/-- Auction clearing result; the winner lists are parallel, and so are the bidder lists. -/
structure ClearingResult where
  issuedIntexCount : Nat
  clearingRate : Nat
  winners : List Address
  winnerQuantities : List Nat
  winnerChains : List Nat
  winnerCurrencies : List (Nat × Nat)
  allBidders : List Address
  refundedAmounts : List Nat
  paidAmounts : List Nat
  bidderChains : List Nat

/-- A bid ranks before or level with another: higher rate first, then the earlier timestamp. -/
def BidData.RanksBefore (a b : BidData) : Prop :=
  b.intexBidRate < a.intexBidRate ∨
    (a.intexBidRate = b.intexBidRate ∧ a.timestamp ≤ b.timestamp)

instance (a b : BidData) : Decidable (a.RanksBefore b) :=
  inferInstanceAs (Decidable (_ ∨ _))

/-- Sorts the bids by rank. The sort is stable: level bids keep their order. -/
def sortBids (bids : List TaggedBid) : List TaggedBid :=
  bids.insertionSort fun a b => a.2.RanksBefore b.2

/-- `u128::MAX`. -/
def u128Max : Nat := 2 ^ 128 - 1

/-- Escrow amount for `qty` Intexes at `rate` against the per-Intex basis, in native units. -/
def rateLock (qty basis rate : Nat) : Nat :=
  let amount := saturatingMul 256
    (saturatingMul 256 (saturatingMul 256 qty basis) rate / scale1e6) nativeUnitsPerProtocolUnit
  if amount ≤ u128Max then amount else u128Max

/-- What the allocation walk has built so far. -/
structure Allocation where
  winners : List Address
  winnerQuantities : List Nat
  winnerChains : List Nat
  winnerCurrencies : List (Nat × Nat)
  wonByIndex : List Nat
  totalAllocated : Nat
  clearingRate : Nat

/-- The allocation before the walk over `len` bids. -/
def Allocation.start (config : AuctionConfig) (len : Nat) : Allocation where
  winners := []
  winnerQuantities := []
  winnerChains := []
  winnerCurrencies := []
  wonByIndex := List.replicate len 0
  totalAllocated := 0
  clearingRate := config.minIntexBidRate

/-- Enters a winning bid at its index. -/
def Allocation.win (a : Allocation) (chainId : Nat) (bid : BidData) (i allocated : Nat) :
    Allocation where
  winners := a.winners ++ [bid.bidderAddress]
  winnerQuantities := a.winnerQuantities ++ [allocated]
  winnerChains := a.winnerChains ++ [chainId]
  winnerCurrencies := a.winnerCurrencies ++ [(bid.issuanceCurrency, bid.referenceCurrency)]
  wonByIndex := a.wonByIndex.set i allocated
  totalAllocated := a.totalAllocated + allocated
  clearingRate := bid.intexBidRate

/-- The allocation walk over the indexed bids. -/
def allocate (config : AuctionConfig) (supply minQty : Nat) :
    List (TaggedBid × Nat) → Allocation → Allocation
  | [], a => a
  | ((chainId, bid), i) :: rest, a =>
    if supply ≤ a.totalAllocated then a
    else if bid.intexBidRate < config.minIntexBidRate then allocate config supply minQty rest a
    else if bid.intexQuantity < minQty then allocate config supply minQty rest a
    else
      let allocatable := supply - a.totalAllocated
      let allocated := min bid.intexQuantity allocatable
      if 0 < allocated then allocate config supply minQty rest (a.win chainId bid i allocated)
      else allocate config supply minQty rest a

/-- What one bid pays and gets back at the end. -/
def settleBid (basis clearingRate : Nat) (bid : BidData) (won : Nat) : Nat × Nat :=
  let locked := rateLock bid.intexQuantity basis bid.intexBidRate
  if 0 < won then
    let paid := rateLock won basis clearingRate
    (paid, locked - paid)
  else (0, locked)

/-- Uniform-rate clearing of sorted bids. -/
def calculateClearing (bids : List TaggedBid) (config : AuctionConfig) (supply minQty : Nat) :
    ClearingResult :=
  let a := allocate config supply minQty bids.zipIdx (Allocation.start config bids.length)
  let settled := bids.zipIdx.map fun (entry, i) =>
    settleBid config.escrowBasisMinor a.clearingRate entry.2 (a.wonByIndex.getD i 0)
  { issuedIntexCount := a.totalAllocated
    clearingRate := a.clearingRate
    winners := a.winners
    winnerQuantities := a.winnerQuantities
    winnerChains := a.winnerChains
    winnerCurrencies := a.winnerCurrencies
    allBidders := bids.map fun entry => entry.2.bidderAddress
    refundedAmounts := settled.map Prod.snd
    paidAmounts := settled.map Prod.fst
    bidderChains := bids.map Prod.fst }

end Rudis.Desis

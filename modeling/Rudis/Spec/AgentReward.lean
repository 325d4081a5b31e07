import Rudis.Spec.Primitives

/-!
# `Rudis.Spec.AgentReward`: the capped distribution of a reward pool

`calculateDistributionWithCap` (`agentreward/src/distribution.rs`) shares a pool over addresses in
proportion to their tribute counts, with at most 32% for one address. What the cap and the floors
leave over is redistributed in rounds of two walks over the addresses in ascending order: the
first gives each open entry its part of the excess by its room, the second hands what is still
left to the open entries one after the other. The amounts are `U256`, whose operators wrap.
-/

namespace Rudis.AgentReward

/-- Maximum share per address, in percent. -/
def maxAddressSharePct : Nat := 32

def maxRedistributionIterations : Nat := 10

/-- Reward allocated to a single address. -/
structure AddressReward where
  address : Address
  tributeCount : Nat
  /-- What it is given of the pool. -/
  rewardAmount : Nat
  deriving DecidableEq

/-- One entry of the working list: the address, its count, its share so far, and whether the cap
stopped it. -/
structure Share where
  address : Address
  tributeCount : Nat
  /-- Its share so far. -/
  share : Nat
  /-- Set once the share has reached the cap. -/
  capped : Bool
  deriving DecidableEq

/-- The walks skip an entry that is capped or whose share has reached the cap. -/
def Share.isClosed (maxShare : Nat) (entry : Share) : Bool :=
  entry.capped || decide (maxShare ≤ entry.share)

/-- The entry after `*share += to_give`, with the capped mark set when the cap is reached. -/
def Share.receive (maxShare toGive : Nat) (entry : Share) : Share :=
  let share := wrappingAdd 256 entry.share toGive
  { entry with share := share, capped := entry.capped || decide (maxShare ≤ share) }

/-- `max_share`: 32% of the pool. -/
def maxShareOf (totalPool : Nat) : Nat := wrappingMul 256 totalPool maxAddressSharePct / 100

/-- The proportional share of one address, cut at the cap. -/
def initialShare (totalPool totalTributes : Nat) (entry : Address × Nat) : Share :=
  let share := wrappingMul 256 totalPool entry.2 / totalTributes
  if maxShareOf totalPool < share then
    { address := entry.1, tributeCount := entry.2, share := maxShareOf totalPool, capped := true }
  else
    { address := entry.1, tributeCount := entry.2, share := share, capped := false }

/-- What the open entries can still receive together. -/
def availableOf (maxShare : Nat) (shares : List Share) : Nat :=
  ((shares.filter fun entry => !entry.capped && decide (entry.share < maxShare)).map
    fun entry => maxShare - entry.share).foldl (wrappingAdd 256) 0

/-- The first walk of a round: an open entry is given the part of the excess its room has in
`available`. The excess shrinks from entry to entry, `available` does not. The walk ends when the
excess is used up. -/
def giveProportional (maxShare available : Nat) : List Share → Nat → List Share × Nat
  | [], excess => ([], excess)
  | entry :: rest, excess =>
    let skip := giveProportional maxShare available rest excess
    if entry.isClosed maxShare then (entry :: skip.1, skip.2)
    else
      let canReceive := maxShare - entry.share
      if canReceive = 0 then (entry :: skip.1, skip.2)
      else
        let proportional := wrappingMul 256 excess canReceive / available
        let toGive := min canReceive proportional
        if toGive = 0 then (entry :: skip.1, skip.2)
        else
          let excess := wrappingSub 256 excess toGive
          if excess = 0 then (entry.receive maxShare toGive :: rest, excess)
          else
            let next := giveProportional maxShare available rest excess
            (entry.receive maxShare toGive :: next.1, next.2)

/-- The second walk of a round: an open entry is given as much of the excess as it can take. The
last component is `dust_distributed`. -/
def giveDust (maxShare : Nat) : List Share → Nat → List Share × Nat × Bool
  | [], excess => ([], excess, false)
  | entry :: rest, excess =>
    let skip := giveDust maxShare rest excess
    if entry.isClosed maxShare then (entry :: skip.1, skip.2)
    else
      let canReceive := maxShare - entry.share
      if canReceive = 0 then (entry :: skip.1, skip.2)
      else
        let toGive := min canReceive excess
        let excess := wrappingSub 256 excess toGive
        if excess = 0 then (entry.receive maxShare toGive :: rest, excess, true)
        else
          let next := giveDust maxShare rest excess
          (entry.receive maxShare toGive :: next.1, next.2.1, true)

/-- The redistribution rounds, at most as many as the first argument says. -/
def redistribute (maxShare : Nat) : Nat → List Share → Nat → List Share × Nat
  | 0, shares, excess => (shares, excess)
  | iterations + 1, shares, excess =>
    if excess = 0 then (shares, excess)
    else
      let available := availableOf maxShare shares
      if available = 0 then (shares, excess)
      else
        let given := giveProportional maxShare available shares excess
        if given.2 = 0 then given
        else
          let dust := giveDust maxShare given.1 given.2
          if dust.2.2 then redistribute maxShare iterations dust.1 dust.2.1
          else (dust.1, dust.2.1)

/-- `sorted_counts.sort_by_key(|(addr, _)| *addr)`. -/
def sortedCounts (counts : List (Address × Nat)) : List (Address × Nat) :=
  counts.insertionSort fun a b => a.1.toNat ≤ b.1.toNat

/-- `total_tributes`, a sum of `u64`. -/
def totalTributesOf (counts : List (Address × Nat)) : Nat :=
  (counts.map Prod.snd).foldl (wrappingAdd 64) 0

/-- The reward an entry of the working list ends in. -/
def Share.toReward (entry : Share) : AddressReward where
  address := entry.address
  tributeCount := entry.tributeCount
  rewardAmount := entry.share

/-- Distributes a pool with a 32% per-address cap: the rewards, and the excess that found no
taker. -/
def calculateDistributionWithCap (totalPool : Nat) (counts : List (Address × Nat)) :
    List AddressReward × Nat :=
  if counts.isEmpty || totalPool = 0 then ([], totalPool)
  else
    let totalTributes := totalTributesOf counts
    if totalTributes = 0 then ([], totalPool)
    else
      let shares := (sortedCounts counts).map (initialShare totalPool totalTributes)
      let totalDistributed := (shares.map Share.share).foldl (wrappingAdd 256) 0
      let final := redistribute (maxShareOf totalPool) maxRedistributionIterations shares
        (totalPool - totalDistributed)
      (final.1.map Share.toReward, final.2)

/-- What the distribution gives an address. -/
def rewardOf (totalPool : Nat) (counts : List (Address × Nat)) (who : Address) : Nat :=
  match (calculateDistributionWithCap totalPool counts).1.find? fun r => r.address == who with
  | some r => r.rewardAmount
  | none => 0

end Rudis.AgentReward

import Rudis.Spec.System

/-!
# `Rudis.Spec.Oracle.SlashWindow`: the oracle's slash window

`slash_and_reset_counters` (`tally.rs`) walks the registered validators at the end of a slash
window: it jails and slashes those whose success share is below the configured minimum, resets
everybody's counters and drops the rates of pairs that are no longer voted on.
-/

namespace Rudis.Oracle

open Staking (onValidatorSet)

/-- Fixed-point one. -/
def scale1e18 : Nat := 10 ^ 18

/-- Most validators one slash window walks. -/
def maxOracleSlashWindowValidators : Nat := 128

/-- A trading pair in its configured orientation. -/
abbrev AddressPair := Address × Address

/-- The storage key of a pair: the same for both orientations. -/
def AddressPair.key (pair : AddressPair) : AddressPair :=
  if pair.1.toNat ≤ pair.2.toNat then pair else (pair.2, pair.1)

/-- A validator's vote counters in the current slash window. -/
structure PenaltyCounter where
  success : Nat
  abstain : Nat
  miss : Nat
  deriving DecidableEq

/-- A published rate with the block and the time it was published at. -/
structure ExchangeRate where
  rate : Nat
  block : Nat
  timestamp : Nat

/-- The slots the slash window reads and writes. -/
structure Store where
  configMinValidPerWindow : Nat
  configSlashFraction : Nat
  configAllowProtected : Bool
  penalty : Address → PenaltyCounter
  protectedValidator : Address → Bool
  pairCount : Nat
  pairByIndex : Nat → AddressPair
  voteTarget : AddressPair → Bool
  exchangeRate : Nat → ExchangeRate

/-- Everything the slash window reads and writes. -/
abbrev State := Contract Store

/-- Resets the three counters of a validator. -/
def Store.resetPenaltyCounter (s : Store) (validator : Address) : Store :=
  { s with penalty := update s.penalty validator ⟨0, 0, 0⟩ }

/-- Zeroes the rate of one registry index. -/
def Store.clearExchangeRate (s : Store) (index : Nat) : Store :=
  { s with exchangeRate := update s.exchangeRate index ⟨0, 0, 0⟩ }

/-- One round of `remove_excess_feeds`. -/
def Store.removeExcessFeed (s : Store) (index : Nat) : Store :=
  if s.voteTarget (AddressPair.key (s.pairByIndex index)) = false then s.clearExchangeRate index
  else s

/-- Drops the rates of deactivated pairs. -/
def Store.removeExcessFeeds (s : Store) : Store :=
  (List.range' 1 s.pairCount).foldl Store.removeExcessFeed s

/-- The votes counted in the window, a `u64` sum. -/
def PenaltyCounter.total (c : PenaltyCounter) : Nat :=
  wrappingAdd 64 (wrappingAdd 64 c.success c.abstain) c.miss

/-- `success * 1e18 / total`. -/
def PenaltyCounter.validRate (c : PenaltyCounter) : Nat := c.success * scale1e18 / c.total

/-- The slash percentage of a fixed-point fraction. -/
def slashPercent (fraction : Nat) : Nat := wrappingMul 256 fraction 100 / scale1e18

variable (X : Externals)

/-- Jails an underperformer and slashes it, unless the configured percentage is zero. -/
def punishUnderperformer (env : BlockEnv) (slashFraction : Nat) (addr : Address) :
    Call World Unit := do
  onValidatorSet (ValidatorSet.jailValidator X env addr)
  when (slashFraction ≠ 0 ∧ slashPercent slashFraction > 0)
    ((fun _ => ()) <$> Staking.slashStake X env addr (slashPercent slashFraction))

/-- One validator's round. -/
def slashRound (env : BlockEnv) (minValid : Nat) (allowProtected : Bool) (addr : Address) :
    Call State Unit := do
  let isProtected ← reads (·.store.protectedValidator addr)
  let counter ← reads (·.store.penalty addr)
  if allowProtected = true ∧ isProtected = true then
    writeStore (·.resetPenaltyCounter addr)
  else if counter.total = 0 then
    writeStore (·.resetPenaltyCounter addr)
  else if counter.validRate < minValid then
    checkpoint do
      let slashFraction ← reads (·.store.configSlashFraction)
      onWorld (punishUnderperformer X env slashFraction addr)
      writeStore (·.resetPenaltyCounter addr)
  else
    writeStore (·.resetPenaltyCounter addr)

/-- Processes the slash window. -/
def slashAndResetCounters (env : BlockEnv) : Call State Unit := do
  let minValid ← reads (·.store.configMinValidPerWindow)
  let allowProtected ← reads (·.store.configAllowProtected)
  let addresses ← query fun s =>
    ValidatorSet.registeredValidatorAddresses s.world.validatorSet
  failIf (addresses.length > maxOracleSlashWindowValidators)
    (.revert ("Oracle slash-window validator set size " ++ toString addresses.length ++
      " exceeds cap " ++ toString maxOracleSlashWindowValidators))
  addresses.forM (slashRound X env minValid allowProtected)
  writeStore Store.removeExcessFeeds

end Rudis.Oracle

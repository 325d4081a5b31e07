import Rudis.Spec.Primitives

/-!
# `Rudis.Spec.Lysis.Algorithm`: the fraction distribution in fixed point

`algorithm.rs` and `constants.rs` of the Lysis crate: the weights of the Fidelity leagues, their
moments, and the share of each league's nominal amount that is paid out, all as integers over
`scale`. The `U256` and `I256` operators of the source wrap; they are `wrappingAdd 256`,
`wrappingMul 256` and `i256` here. The root search works on 1024-bit integers and its loop is a
recursion on a bound of its rounds.
-/

namespace Rudis.Lysis

/-- One, in fixed point. -/
def scale : Nat := 10 ^ 6

/-- The order of the root the league's position enters with. -/
def policyADen : Nat := 5

/-- The order of the root the league's population enters with. -/
def policyBDen : Nat := 10

/-- The share of the middle weights that goes before the first league. -/
def policyC : Nat := scale * 2 / 10

/-- The sum of `U256` values. -/
def sum256 (l : List Nat) : Nat := l.foldl (wrappingAdd 256) 0

/-- What an `I256` operator leaves of a result: the value in `[-2 ^ 255, 2 ^ 255)`. -/
def i256 (x : Int) : Int := x.bmod (2 ^ 256)

/-! ### The fixed-point root -/

/-- `mid` to the power of `rounds + 1`, started at `power`; `none` once a partial power leaves
1024 bits or passes `limit`. -/
def partialPower (mid limit : Nat) : Nat → Nat → Option Nat
  | 0, power => some power
  | rounds + 1, power =>
    if power * mid ≥ 2 ^ 1024 ∨ power * mid > limit then none
    else partialPower mid limit rounds (power * mid)

/-- Whether the search goes below `mid`. -/
def midTooBig (q target limit mid : Nat) : Bool :=
  match partialPower mid limit (q - 1) mid with
  | none => true
  | some power => target < power

/-- The binary search for the root between `lo` and `hi`. -/
def rootSearch (q target limit : Nat) : Nat → Nat → Nat → Nat
  | 0, lo, _ => lo
  | fuel + 1, lo, hi =>
    if lo < hi then
      let mid := lo + (hi - lo + 1) / 2
      if midTooBig q target limit mid then rootSearch q target limit fuel lo (mid - 1)
      else rootSearch q target limit fuel mid hi
    else lo

/-- The `q`-th root of a number in fixed point. -/
def fpRoot (x q : Nat) : Result Nat := do
  if x = 0 then pure 0
  else if x = scale then pure scale
  else
    let target ← (List.range (q - 1)).foldlM
      (fun target _ => okOr (checkedMul 1024 target scale)
        (.revert "lysis: fp_root intermediate overflow")) x
    let limit := min (target * 2) (2 ^ 1024 - 1)
    -- The upper end is below `2 ^ 256`, so the search is over within 256 rounds.
    let root := rootSearch q target limit 256 1 (max x scale)
    throwIf (root ≥ 2 ^ 256) (.revert "lysis: fp_root result exceeds U256")
    pure root

/-! ### Weights -/

/-- The weight `groups ^ (1/5) * tributes ^ (1/10)` of a league without a usable divisor. -/
def fallbackTau (ng nt : Nat) : Result Nat := do
  let ngRoot ← fpRoot (wrappingMul 256 ng scale) policyADen
  let ntRoot ← fpRoot (wrappingMul 256 nt scale) policyBDen
  pure (wrappingMul 256 ngRoot ntRoot / scale)

/-- The weight between the leagues `i - 1` and `i`. -/
def middleTau (p : List Nat) (nt i : Nat) : Result Nat := do
  let pi := p.getD i 0
  let piPrev := p.getD (i - 1) 0
  if pi ≠ 0 ∧ piPrev ≠ 0 then
    let numerator ← fpRoot (wrappingMul 256 (2 * i - 1) scale / 2) policyADen
    let piRoot ← fpRoot (wrappingMul 256 pi scale) policyBDen
    let piPrevRoot ← fpRoot (wrappingMul 256 piPrev scale) policyBDen
    let minVal := min piRoot piPrevRoot
    if minVal ≠ 0 then pure (wrappingMul 256 numerator scale / minVal)
    else fallbackTau p.length nt
  else fallbackTau p.length nt

/-- The weights, one more than there are leagues. -/
def policyTauFp (p : List Nat) (nt : Nat) : Result (List Nat) := do
  let middle ← (List.range (p.length - 1)).mapM fun k => middleTau p nt (k + 1)
  let sumMiddle := sum256 middle
  pure (wrappingMul 256 policyC sumMiddle / scale :: middle
    ++ [wrappingMul 256 (scale - policyC) sumMiddle / scale])

/-! ### Moments -/

/-- Normalised weights, cumulative shares, and the mean and variance of the share. -/
structure MomentsFp where
  m : List Nat
  yCum : List Nat
  ey : Nat
  varY : Nat

/-- The moments of the shares under the weights. -/
def computeMomentsFp (yFp tau : List Nat) : MomentsFp :=
  let tTotal := sum256 tau
  let m := if tTotal ≠ 0 then tau.map fun t => wrappingMul 256 t scale / tTotal
    else tau.map fun _ => 0
  -- The running sums of the shares, with the last one set to one.
  let yCum := (yFp.scanl (wrappingAdd 256) 0).dropLast ++ [scale]
  let ey := sum256 (m.zipWith (fun mi yi => wrappingMul 256 mi yi / scale) yCum)
  let ey2 := sum256 (m.zipWith (fun mi yi =>
    wrappingMul 256 (wrappingMul 256 mi yi) yi / (scale * scale)) yCum)
  { m := m, yCum := yCum, ey := ey, varY := ey2 - wrappingMul 256 ey ey / scale }

/-! ### The distribution -/

/-- A `U256` as an `I256`. -/
def u256ToI256 (value : Nat) : Result Int := do
  throwIf (value ≥ 2 ^ 255) (.revert s!"lysis: U256 -> I256 conversion overflow ({value})")
  pure (value : Int)

/-- The term of one weight in a league's sum. -/
def distributionTerm (eyI betaNum betaDen : Int) (mj yj : Nat) : Result Int := do
  let yI ← u256ToI256 yj
  let yDiff := i256 (yI - eyI)
  let betaTerm := if betaDen > 0 then (i256 (betaNum * yDiff)).tdiv betaDen else 0
  let factor := i256 (scale + betaTerm)
  let mI ← u256ToI256 mj
  pure ((i256 (mI * factor)).tdiv scale)

/-- The fraction of the `i`-th league before the budget is enforced, `1 ≤ i`. -/
def rawFraction (moments : MomentsFp) (eyI betaNum betaDen fmaxI : Int) (i : Nat) : Result Nat := do
  let sum ← ((moments.m.zip moments.yCum).drop i).foldlM (fun sum item => do
    let term ← distributionTerm eyI betaNum betaDen item.1 item.2
    pure (i256 (sum + term))) (0 : Int)
  let result := (i256 (fmaxI * sum)).tdiv scale
  pure result.toNat

/-- The fraction of each league's nominal amount that is paid out. -/
def calcFractionDistributionFp (yFp p : List Nat) (nt fFp fmaxFp : Nat) : Result (List Nat) := do
  if p.isEmpty then pure [0]
  else if p.length = 1 then pure [fFp]
  else
    let tau ← policyTauFp p nt
    let moments := computeMomentsFp yFp tau
    let fOverFmax := wrappingMul 256 fFp scale / fmaxFp
    let eyI ← u256ToI256 moments.ey
    let fOverFmaxI ← u256ToI256 fOverFmax
    let betaNum := i256 (fOverFmaxI - eyI)
    let betaDen ← u256ToI256 moments.varY
    let fmaxI ← u256ToI256 fmaxFp
    let f1 ← (List.range yFp.length).mapM fun k =>
      rawFraction moments eyI betaNum betaDen fmaxI (k + 1)
    let weightedTotal := sum256 (f1.zipWith (fun f y => wrappingMul 256 f y / scale) yFp)
    if weightedTotal > fFp then
      pure (f1.map fun f => wrappingMul 256 f fFp / weightedTotal)
    else pure f1

/-- Percent a floor price stands above the price it is derived from. -/
def floorRatePercent : Nat := 8

def calcFloorPrice (price : Nat) : Nat := wrappingMul 256 price (100 + floorRatePercent) / 100

end Rudis.Lysis

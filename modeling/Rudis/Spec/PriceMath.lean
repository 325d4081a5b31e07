import Mathlib.Data.Nat.Digits.Defs
import Mathlib.Data.Nat.Log
import Rudis.Spec.BinTree

/-!
# `Rudis.Spec.PriceMath`: from a price to its bin

`blockchain/primitives/src/math`: the logarithm of `uint128x128_math.rs`, the division with a
512-bit dividend of `uint256x256_math.rs`, `get_id_from_price` of `price_helper.rs` and the
six-decimal adapter of `reference_price.rs`.

A `U256` is a natural below `2 ^ 256` and an `I256` an integer. The 512-bit product is computed on
limbs of 64 bits, the lowest first.
-/

namespace Rudis.PriceMath

/-! ### Bits -/

/-- One round of the search for the highest bit: `bits` of it, if the word is longer. -/
def msbRound (s : Nat × Nat) (bits : Nat) : Nat × Nat :=
  if s.1 > 2 ^ bits - 1 then (s.1 >>> bits, s.2 + bits) else s

variable (x : Nat)

/-- Index of the highest set bit; 0 for zero. -/
def mostSignificantBit : Nat :=
  let s := [128, 64, 32, 16, 8, 4, 2].foldl msbRound (x, 0)
  if s.1 > 1 then s.2 + 1 else s.2

/-! ### Logarithm -/

def logScaleOffset : Nat := 127

/-- 1.0 of the inner 129.127 fixed-point space. -/
def logScale : Nat := 2 ^ 127

def logScaleSquared : Nat := 2 ^ 254

/-- `I256::saturating_add`. -/
def i256SaturatingAdd (a b : Int) : Int := max (-2 ^ 255) (min (2 ^ 255 - 1) (a + b))

/-- The argument in 129.127, inverted below 1.0. -/
def logInner : Nat :=
  if x >>> 1 ≥ logScale then x >>> 1 else logScaleSquared / (x >>> 1)

def logSign : Int := if x >>> 1 ≥ logScale then 1 else -1

def logInteger : Nat := mostSignificantBit (logInner x >>> logScaleOffset)

/-- The argument over the power of two below it. -/
def logMantissa : Nat := logInner x >>> logInteger x

/-- One round of the refinement: whether the square reaches two, and the mantissa for the next. -/
def logRound (y : Nat) : Bool × Nat :=
  let y := wrappingMul 256 y y >>> logScaleOffset
  if y ≥ 1 <<< (logScaleOffset + 1) then (true, y >>> 1) else (false, y)

/-- The value squared by a round. -/
def logMantissaAt (x round : Nat) : Nat := (fun y => (logRound y).2)^[round] (logMantissa x)

/-- The refinement: a round per bit of `delta`, of which 256 are enough. -/
def logLoop : Nat → Int → Int → Nat → Int
  | 0, result, _, _ => result
  | fuel + 1, result, delta, y =>
    if delta > 0 then
      logLoop fuel (if (logRound y).1 then i256SaturatingAdd result delta else result) (delta / 2)
        (logRound y).2
    else result

/-- The logarithm of the inner argument; an exact power of two needs no refinement. -/
def logResult : Int :=
  let result : Int := logInteger x * 2 ^ logScaleOffset
  if logMantissa x ≠ logScale then logLoop 256 result (2 ^ (logScaleOffset - 1)) (logMantissa x)
  else result

/-- The binary logarithm of a 128.128 number, in signed 128.128. -/
def log2 (x : Nat) : Result Int :=
  if x = 1 then .ok (-128)
  else if x = 0 then .error (.revert "lb_math: log2 underflow (x == 0)")
  else .ok (logResult x * logSign x * 2)

/-! ### Division of a 512-bit product -/

/-- `as_limbs`: the four limbs of a word. -/
def asLimbs : List Nat := (List.range 4).map fun i => x / 2 ^ (64 * i) % 2 ^ 64

def fromLimbs (limbs : List Nat) : Nat := Nat.ofDigits (2 ^ 64) limbs

/-- The inner loop: the limb `x` times those of `ys` is added to the limbs of the product, and the
last carry is the limb behind them. -/
def mulRow (x : Nat) : List Nat → List Nat → Nat → List Nat
  | y :: ys, cur :: product, carry =>
    let p := (x * y + cur + carry) % 2 ^ 128
    p % 2 ^ 64 :: mulRow x ys product (p / 2 ^ 64)
  | _, _, carry => [carry % 2 ^ 64]

/-- The outer loop: after a row its first limb is final, and the next row starts at the second. -/
def mulRows (ys : List Nat) : List Nat → List Nat → List Nat
  | [], product => product
  | x :: xs, product =>
    (mulRow x ys product 0).headD 0 :: mulRows ys xs (mulRow x ys product 0).tail

/-- The low and the high word of a product. -/
def getMulProds (x y : Nat) : Nat × Nat :=
  let product := mulRows (asLimbs y) (asLimbs x) [0, 0, 0, 0]
  (fromLimbs (product.take 4), fromLimbs (product.drop 4))

/-- One round of the long division, with the remainder in a single word. -/
def remStep (denom word rem bit : Nat) : Nat :=
  let rem := (rem <<< 1) % 2 ^ 256 ||| (if word.testBit bit then 1 else 0)
  if rem ≥ denom then wrappingSub 256 rem denom else rem

/-- `x * y` modulo `denom`, by long division from the highest bit of the product. -/
def mulMod512 (x y denom : Nat) : Nat :=
  [(getMulProds x y).2, (getMulProds x y).1].foldl
    (fun rem word => (List.range 256).reverse.foldl (remStep denom word) rem) 0

/-- The inverse of an odd number modulo `2 ^ 256`, doubling its exact bits in each round. -/
def inverseMod (denomOdd : Nat) : Nat :=
  (List.range 6).foldl (fun inverse _ =>
    wrappingMul 256 inverse (wrappingSub 256 2 (wrappingMul 256 denomOdd inverse)))
    (wrappingMul 256 3 denomOdd ^^^ 2)

/-- `floor(x * y / denom)`, where `x * y` has the words `prod0` and `prod1`. -/
def getEndOfDivRoundDown (x y denom prod0 prod1 : Nat) : Result Nat :=
  if prod1 = 0 then do
    throwIf (denom = 0) (.revert "lb_math: mul_div by zero")
    pure (prod0 / denom)
  else do
    throwIf (prod1 ≥ denom) (.revert "lb_math: mul_div overflow")
    let remainder := mulMod512 x y denom
    let prod1Adj := if remainder > prod0 then wrappingSub 256 prod1 1 else prod1
    let prod0Adj := wrappingSub 256 prod0 remainder
    -- the largest power of two that divides the denominator
    let lpotdod := denom &&& wrappingSub 256 0 denom
    let lpotdodInv :=
      if lpotdod = 0 then 1 else wrappingAdd 256 (wrappingSub 256 0 lpotdod / lpotdod) 1
    let combined := prod0Adj / lpotdod ||| wrappingMul 256 prod1Adj lpotdodInv
    pure (wrappingMul 256 combined (inverseMod (denom / lpotdod)))

/-- `floor((x * y) >> offset)`. -/
def mulShiftRoundDown (x y offset : Nat) : Result Nat := do
  let prod0 := (getMulProds x y).1
  let prod1 := (getMulProds x y).2
  let result := if prod0 = 0 then 0 else prod0 >>> offset
  if prod1 = 0 then pure result
  else
    throwIf (prod1 ≥ (1 <<< offset) % 2 ^ 256) (.revert "lb_math: mul_shift overflow")
    pure (if offset > 0 then wrappingAdd 256 result ((prod1 <<< (256 - offset)) % 2 ^ 256)
      else result)

/-- `floor((x << offset) / denom)`. -/
def shiftDivRoundDown (x offset denom : Nat) : Result Nat :=
  let prod1 := if offset = 0 then 0 else x >>> (256 - offset)
  let y := if offset ≥ 256 then 0 else 1 <<< offset
  getEndOfDivRoundDown x y denom ((x <<< offset) % 2 ^ 256) prod1

/-! ### Bins -/

def basisPointMax : Nat := 10000

/-- The bin of price 1.0. -/
def realIdShift : Int := 2 ^ 23

/-- `1 + binStep / 10000` in 128.128. -/
def getBase (binStep : Nat) : Nat := 2 ^ 128 + (binStep <<< 128) / basisPointMax

/-- Saturates to the range of bin ids. -/
def clampId (idSigned : Int) : Nat := if idSigned < 0 then 0 else min idSigned.toNat BinTree.maxBinId

def getIdFromPrice (price binStep : Nat) : Result Nat := do
  let log2Price ← log2 price
  let log2Base ← log2 (getBase binStep)
  throwIf (log2Base = 0) (.revert "lb_math: log2(base) == 0")
  pure (clampId (i256SaturatingAdd (log2Price.tdiv log2Base) realIdShift))

/-- A six-decimal price in 128.128. -/
def coenIsoPriceTo128x128 (price : Nat) : Result Nat :=
  shiftDivRoundDown price 128 scale1e6

/-- The bin of a six-decimal price. -/
def coenIsoPriceToBinId (price binStep : Nat) : Result Nat := do
  let price ← coenIsoPriceTo128x128 price
  getIdFromPrice price binStep

end Rudis.PriceMath

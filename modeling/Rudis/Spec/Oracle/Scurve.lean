import Rudis.Spec.Primitives

/-!
# `Rudis.Spec.Oracle.Scurve`: the decay of a peak price

`system/oracle/src/scurve.rs`: `mul_scale_1e6` and `compute_scurve_value`. A price is a `U256`, and a
factor has six decimals.
-/

namespace Rudis.Oracle

/-- Days of a segment. -/
def period : Nat := 128

/-- The factor of each day of a segment. -/
def coefficients : List Nat :=
  [1000000, 999960, 999917, 999870, 999820, 999765, 999706, 999642, 999573, 999498, 999418, 999330,
   999236, 999134, 999024, 998905, 998776, 998638, 998488, 998326, 998152, 997964, 997762, 997543,
   997308, 997055, 996783, 996490, 996175, 995837, 995474, 995085, 994668, 994221, 993744, 993233,
   992687, 992105, 991485, 990825, 990124, 989379, 988590, 987756, 986874, 985944, 984965, 983937,
   982859, 981731, 980553, 979327, 978053, 976733, 975368, 973961, 972515, 971033, 969517, 967974,
   966405, 964817, 963213, 961599, 959980, 958360, 956746, 955143, 953554, 951986, 950442, 948927,
   947444, 945998, 944591, 943227, 941906, 940632, 939406, 938228, 937101, 936022, 934994, 934015,
   933085, 932204, 931369, 930580, 929836, 929134, 928474, 927854, 927272, 926727, 926216, 925738,
   925291, 924874, 924485, 924122, 923784, 923469, 923176, 922904, 922651, 922416, 922198, 921995,
   921807, 921633, 921471, 921322, 921183, 921054, 920935, 920825, 920723, 920629, 920542, 920461,
   920386, 920317, 920253, 920194, 920140, 920089, 920043, 920000]

/-- A value times a factor. -/
def mulScale1e6 (value factor : Nat) : Nat :=
  let whole := value / scale1e6
  let remainder := value % scale1e6
  wrappingAdd 256 (wrappingMul 256 whole factor) (wrappingMul 256 remainder factor / scale1e6)

/-- The loop over whole segments, which ends early at an anchor of zero. -/
def anchorAfter : Nat → Nat → Nat
  | 0, anchor => anchor
  | periods + 1, anchor =>
    let anchor := mulScale1e6 anchor (coefficients.getD (period - 1) 0)
    if anchor = 0 then anchor else anchorAfter periods anchor

def computeScurveValue (peakPrice dayIndex : Nat) : Nat :=
  mulScale1e6 (anchorAfter (dayIndex / period) peakPrice) (coefficients.getD (dayIndex % period) 0)

end Rudis.Oracle

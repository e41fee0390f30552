/-!
# Doubles

A double is an IEEE binary64 number with one NaN: the signs and payloads by which the format tells
NaNs apart are not kept.  Arithmetic and comparison are those of the format; this module adds the
two crossings between doubles and 64-bit integers.  Going up rounds to nearest.  Going down takes
the floor or the ceiling of the exact value, computed from its significand and exponent, and then
clamps to the integers there are.
-/

namespace ConsLisp

/-- A binary64 number.  All NaNs are identified, whatever their signs and payloads. -/
abbrev Double := Float

namespace Double

open Float.Model (UnpackedFloat)

/-- The nearest double to an integer, a tie going to the even significand.  Rounding is symmetric
about zero, so the magnitude is rounded and the sign put back. -/
def ofInt64 (n : Int64) : Double :=
  if n < 0 then -(-n).toUInt64.toFloat else n.toUInt64.toFloat

/-- Takes a double to an integer: `round n d` says what becomes of the exact value `n / d`, and
the result is clamped to 64 bits.  A NaN has no value and becomes zero. -/
def toInt64With (round : Int → Int → Int) (x : Double) : Int64 :=
  match x.toModel.unpack with
  | .notANumber => 0
  | .zero _ => 0
  | .infinity .positive => Int64.maxValue
  | .infinity .negative => Int64.minValue
  | .finite sign m e _ =>
    if 0 ≤ e then Int64.ofIntClamp (sign.apply (m * Nat.pow 2 e.toNat))
    else Int64.ofIntClamp (round (sign.apply m) (Nat.pow 2 (-e).toNat))

/-- The largest integer that is not above `x`, clamped to 64 bits. -/
def floor (x : Double) : Int64 :=
  x.toInt64With fun n d => n.fdiv d

/-- The smallest integer that is not below `x`, clamped to 64 bits. -/
def ceiling (x : Double) : Int64 :=
  x.toInt64With fun n d => -(-n).fdiv d

end Double

end ConsLisp

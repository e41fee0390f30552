import ConsLisp.Double.Basic
import Mathlib

/-!
# Equality of doubles

Two doubles are equal if they are the same double up to the sign of a zero, and a NaN equals nothing
(`Double.beq_iff`).  This rests on a lemma on packed doubles, `Float.beq_iff_ne_nan_and_eq`, that
can only be imported with the whole of the library.  So it has a module of its own.
-/

namespace ConsLisp

namespace Double

/-- A double without the sign of a zero. -/
def unsigned (x : Double) : Double :=
  if x = -0 then 0 else x

theorem beq_iff {x y : Double} :
    (x == y) = true ↔ (x.isNaN = false ∧ y.isNaN = false) ∧ x.unsigned = y.unsigned := by
  have hzeros : (0 : Double) ≠ -0 := by decide
  rw [Float.beq_iff_ne_nan_and_eq, Float.isNaN_eq_decide_eq_nan, Float.isNaN_eq_decide_eq_nan,
    decide_eq_false_iff_not, decide_eq_false_iff_not, unsigned, unsigned]
  split_ifs <;> grind

end Double

end ConsLisp

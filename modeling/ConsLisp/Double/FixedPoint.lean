import ConsLisp.Double.Basic

/-!
# Fixed-point text of a double

A double is written with a fixed number of decimal places.  Its value is `m * 2 ^ e` exactly, so
the digits are those of one rounded quotient of natural numbers: `roundedQuotient` takes the
nearest integer and sends a tie to the even one (`roundedQuotient_near`, `roundedQuotient_tie`).
No exponent is ever written, and the sign of the double is kept even when all digits are zero.
-/

namespace ConsLisp

/-- The integer nearest to `n / d`, of two equally near ones the even one. -/
def roundedQuotient (n d : Nat) : Nat :=
  if d < 2 * (n % d) ∨ (2 * (n % d) = d ∧ n / d % 2 = 1) then n / d + 1 else n / d

/-- The result is within half a unit of the exact quotient. -/
theorem roundedQuotient_near (n : Nat) {d : Nat} (hd : 0 < d) :
    2 * n ≤ (2 * roundedQuotient n d + 1) * d ∧ 2 * roundedQuotient n d * d ≤ 2 * n + d := by
  have lt := Nat.mod_lt n hd
  have parts : n / d * d + n % d = n := Nat.div_add_mod' n d
  have twice : 2 * (n / d) * d = 2 * (n / d * d) := Nat.mul_assoc _ _ _
  unfold roundedQuotient
  split <;> simp only [Nat.add_mul, Nat.mul_add, Nat.mul_one, Nat.one_mul, twice] <;> omega

/-- Exactly half way between two integers the even one is taken. -/
theorem roundedQuotient_tie {n d : Nat} (h : 2 * (n % d) = d) : roundedQuotient n d % 2 = 0 := by
  unfold roundedQuotient
  split <;> omega

namespace Double

/-- How many decimal places a double is shown with. -/
def places : Nat := 5

/-- Writes a number of units of the last decimal place: at least one digit before the point and
exactly `places` after it. -/
def pointText (units : Nat) : String :=
  let fraction := toString (units % Nat.pow 10 places)
  let zeros := String.ofList (List.replicate (places - fraction.length) '0')
  toString (units / Nat.pow 10 places) ++ "." ++ zeros ++ fraction

/-- How many units of the last decimal place there are in `m * 2 ^ e`, rounded. -/
def roundedUnits (m : Nat) (e : Int) : Nat :=
  if 0 ≤ e then m * Nat.pow 2 e.toNat * Nat.pow 10 places
  else roundedQuotient (m * Nat.pow 10 places) (Nat.pow 2 (-e).toNat)

/-- What stands before the digits of a number of this sign. -/
def signText : Float.Model.UnpackedFloat.Sign → String
  | .positive => ""
  | .negative => "-"

def text (x : Double) : String :=
  match x.toModel.unpack with
  | .notANumber => "NaN"
  | .infinity sign => signText sign ++ "inf"
  | .zero sign => signText sign ++ pointText 0
  | .finite sign m e _ => signText sign ++ pointText (roundedUnits m e)

end Double

end ConsLisp

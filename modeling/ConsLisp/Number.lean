import ConsLisp.Error

/-!
# Numbers

A number is a 64-bit integer or a double.  Two integers stay integers, and their arithmetic wraps
at 64 bits; as soon as one side is a double, both are taken as doubles.  A quotient of integers is
cut towards zero.
-/

namespace ConsLisp

/-- A value that can be calculated with. -/
inductive Number
  | integer (n : Int64)
  | double (x : Double)

namespace Number

/-- The number that a cell is, if it is one. -/
def ofCell? : Cell → Option Number
  | .integer n => some (integer n)
  | .double x => some (double x)
  | _ => none

def toCell : Number → Cell
  | integer n => .integer n
  | double x => .double x

/-- The nearest double to a number. -/
def toDouble : Number → Double
  | integer n => Double.ofInt64 n
  | double x => x

/-- Whether a number is zero, of either sign. -/
def isZero : Number → Bool
  | integer n => n == 0
  | double x => x == 0.0

/-- Calculates with integers if both sides are integers, and with doubles otherwise. -/
def combine (onIntegers : Int64 → Int64 → Int64) (onDoubles : Double → Double → Double) :
    Number → Number → Number
  | integer m, integer n => integer (onIntegers m n)
  | a, b => double (onDoubles a.toDouble b.toDouble)

def add : Number → Number → Number :=
  combine (· + ·) (· + ·)

def sub : Number → Number → Number :=
  combine (· - ·) (· - ·)

def mul : Number → Number → Number :=
  combine (· * ·) (· * ·)

/-- The quotient of two numbers.  No number is divided by zero, of whatever kind and sign. -/
def div (a b : Number) : Except EvalError Number :=
  if b.isZero then .error .divideByZero else .ok (combine (· / ·) (· / ·) a b)

def neg : Number → Number
  | integer n => integer (-n)
  | double x => double (-x)

/-- One divided by a number, which is a double also for an integer. -/
def reciprocal (a : Number) : Except EvalError Number :=
  if a.isZero then .error .divideByZero else .ok (double (1.0 / a.toDouble))

/-- Whether a number is less than another.  Integers are compared exactly; a NaN is not less than
anything, and nothing is less than it. -/
def lt : Number → Number → Bool
  | integer m, integer n => decide (m < n)
  | a, b => decide (a.toDouble < b.toDouble)

/-- The largest integer that is not above a number. -/
def floor : Number → Int64
  | integer n => n
  | double x => x.floor

/-- The smallest integer that is not below a number. -/
def ceiling : Number → Int64
  | integer n => n
  | double x => x.ceiling

theorem ofCell?_toCell (a : Number) : ofCell? a.toCell = some a := by
  cases a <;> rfl

theorem ofCell?_eq_some_iff {c : Cell} {a : Number} : ofCell? c = some a ↔ c = a.toCell := by
  constructor
  · cases c <;> simp [ofCell?] <;> rintro rfl <;> rfl
  · rintro rfl
    exact ofCell?_toCell a

end Number

end ConsLisp

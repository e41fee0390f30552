import ConsLisp.Eval.Procedure
import ConsLisp.Number

/-!
# Arithmetic and comparison

Operands are evaluated from left to right, and each is put into the result before the next one is
evaluated.  So the first operand that is not a number, or that divides by zero, ends the form with
the later operands untouched.
-/

namespace ConsLisp

namespace Evaluator

variable {F : Type} (self : Evaluator F)

/-- The number that a value is, for an operator that wants one. -/
def asNumber (op : Operator) (value : Cell) : Except EvalError Number :=
  match Number.ofCell? value with
  | some a => .ok a
  | none => .error (.typeMismatch (.builtin op) .number (.value value.kind))

def number (op : Operator) (expr : Cell) : EvalM F Number := do
  let value ← self.operand expr
  asNumber op value

/-- Evaluates operands and works each into the number reached so far. -/
def foldNumbers (op : Operator) (step : Number → Number → Except EvalError Number) (start : Number)
    (exprs : List Cell) : EvalM F Cell := do
  let total ← exprs.foldlM (fun acc expr => do step acc (← self.number op expr)) start
  return total.toCell

/-- The sum of all operands, zero if there are none. -/
def sum (exprs : List Cell) : EvalM F Cell :=
  self.foldNumbers .add (fun a b => .ok (a.add b)) (.integer 0) exprs

/-- The product of all operands, one if there are none. -/
def product (exprs : List Cell) : EvalM F Cell :=
  self.foldNumbers .mul (fun a b => .ok (a.mul b)) (.integer 1) exprs

/-- The first operand less all others; a single operand is negated. -/
def difference (expr : Cell) (exprs : List Cell) : EvalM F Cell := do
  let first ← self.number .sub expr
  if exprs.isEmpty then return first.neg.toCell
  else self.foldNumbers .sub (fun a b => .ok (a.sub b)) first exprs

/-- The first operand divided by all others in turn; of a single operand the reciprocal. -/
def quotient (expr : Cell) (exprs : List Cell) : EvalM F Cell := do
  let first ← self.number .div expr
  if exprs.isEmpty then return (← first.reciprocal).toCell
  else self.foldNumbers .div Number.div first exprs

/-- Whether the values of expressions ascend strictly from `previous` on.  Expressions after the
first one that does not ascend are left alone. -/
def ascendingFrom (previous : Number) : List Cell → EvalM F Cell
  | [] => return .ofBool true
  | expr :: exprs => do
    let next ← self.number .lessThan expr
    if previous.lt next then ascendingFrom next exprs else return .ofBool false

/-- Whether the values of all operands ascend strictly. -/
def ascending : List Cell → EvalM F Cell
  | [] => return .ofBool true
  | expr :: exprs => do self.ascendingFrom (← self.number .lessThan expr) exprs

/-- The largest integer that is not above the operand. -/
def floor (expr : Cell) : EvalM F Cell := do
  return .integer (← self.number .floor expr).floor

/-- The smallest integer that is not below the operand. -/
def ceiling (expr : Cell) : EvalM F Cell := do
  return .integer (← self.number .ceiling expr).ceiling

end Evaluator

end ConsLisp

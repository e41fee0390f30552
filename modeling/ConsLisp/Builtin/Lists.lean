import ConsLisp.Eval.Procedure
import ConsLisp.Number

/-!
# Pairs and predicates

Putting pairs together, taking them apart, and asking what a value is.  A predicate answers with
the integers one and zero, and it takes any value, operators included.
-/

namespace ConsLisp

namespace Evaluator

variable {F : Type} (self : Evaluator F)

/-- The pair of two values, neither of which may be an operator. -/
def cons (carExpr cdrExpr : Cell) : EvalM F Cell := do
  let car ← self.operand carExpr
  let cdr ← self.operand cdrExpr
  car.checkStorable (.builtin .cons)
  cdr.checkStorable (.builtin .cons)
  return .pair car cdr

/-- The halves of a pair, for an operator that takes one apart. -/
def halves (op : Operator) (value : Cell) : Except EvalError (Cell × Cell) :=
  match value with
  | .pair car cdr => .ok (car, cdr)
  | .nil => .error (.emptyOperand op)
  | other => .error (.notAPair (.builtin op) other.kind)

def car (expr : Cell) : EvalM F Cell := do
  let value ← self.operand expr
  let (car, _) ← halves .car value
  return car

def cdr (expr : Cell) : EvalM F Cell := do
  let value ← self.operand expr
  let (_, cdr) ← halves .cdr value
  return cdr

def test (property : Cell → Bool) (expr : Cell) : EvalM F Cell := do
  return .ofBool (property (← self.operand expr))

def isZeroNumber (value : Cell) : Bool :=
  (Number.ofCell? value).any Number.isZero

/-- Whether a value may be taken as a list: nil or a pair. -/
def isList (value : Cell) : Bool :=
  value.isNil || value.isPair

end Evaluator

end ConsLisp

import ConsLisp.Eval.Procedure

/-!
# Control

Choosing a branch, quoting, running data as code, printing, and calling with a list of arguments.
-/

namespace ConsLisp

namespace Evaluator

variable {F : Type} [Frame F] (self : Evaluator F)

/-- The truth of a test value.  Zero and the empty symbol are false, and a value that is neither a
number nor a symbol cannot be a test. -/
def truth (value : Cell) : Except EvalError Bool :=
  match value with
  | .integer n => .ok (n != 0)
  | .double x => .ok (x != 0.0)
  | .symbol name => .ok (!name.isEmpty)
  | other => .error (.typeMismatch (.builtin .ifElse) .test (.value other.kind))

/-- The value of one of two branches, the other one being left alone. -/
def ifElse (test consequent : Cell) (alternate : Option Cell) : EvalM F Cell := do
  let value ← self.operand test
  if ← truth value then self.operand consequent
  else
    match alternate with
    | some expr => self.operand expr
    | none => EvalM.fail .missingElseBranch

def eval (expr : Cell) : EvalM F Cell := do
  self.evaluate (← self.operand expr)

def print (expr : Cell) : EvalM F Cell := do
  let value ← self.operand expr
  EvalM.write (value.text ++ "\n")
  return .nil

/-- An expression that evaluates to a value.  Only symbols and pairs would be run as code, all
other values evaluate to themselves. -/
def quoted (value : Cell) : Cell :=
  match value with
  | .symbol _ | .pair _ _ => .ofList [.symbol Operator.quote.name, value]
  | other => other

/-- Calls what `calleeExpr` evaluates to with the members of the list that `listExpr` evaluates
to.  The members are passed as values: an operator gets them quoted, and one that reads syntax
cannot be called in this way. -/
def apply (calleeExpr listExpr : Cell) : EvalM F Cell := do
  let callee ← self.operand calleeExpr
  let list ← self.operand listExpr
  let values ← list.operands (.builtin .apply)
  match callee with
  | .procedure formals body => self.applyToValues formals body values
  | .operator op =>
    if op.takesSyntax then
      EvalM.fail (.typeMismatch (.builtin .apply) .valueTaker (.operator op))
    else self (.dispatch op (.ofList (values.map quoted)))
  | other => EvalM.fail (.notCallable other)

end Evaluator

end ConsLisp

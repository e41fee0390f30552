import ConsLisp.Eval.Procedure

/-!
# Binding forms

Names are given values in three ways: globally and for good by `define`, for the time of a call by
the formals of a `lambda`, and for the time of a body by `let`.
-/

namespace ConsLisp

namespace Evaluator

variable {F : Type} [Frame F] (self : Evaluator F)

/-- The name that a definition is about. -/
def definedName (target : Cell) : Except EvalError String :=
  match target with
  | .symbol name => do
    checkBindable name
    return name
  | other => .error (.typeMismatch (.builtin .define) .definedName (.value other.kind))

/-- Defines a name as the value of an expression.  The name is checked before the expression is
evaluated, and again after it, since the expression may have defined the name itself. -/
def define (target expr : Cell) : EvalM F Cell := do
  let name ← definedName target
  if ← EvalM.isGloballyBound name then EvalM.fail (.duplicateDefinition name)
  else
    let value ← self.operand expr
    value.checkStorable (.builtin .define)
    EvalM.define name value
    return .nil

/-- A procedure.  Neither its formals nor its body are looked at before it is applied. -/
def lambda (formals first : Cell) (rest : List Cell) : EvalM F Cell :=
  return .procedure formals (first :: rest)

/-- The two parts of a clause of `let`: what is bound, and the expression of its value. -/
def clause (c : Cell) : Except EvalError (Cell × Cell) := do
  match ← c.operands (.builtin .letIn) with
  | [name, expr] => return (name, expr)
  | parts => .error (.arityMismatch (.builtin .letIn) (.exactly 2) parts.length)

/-- Runs a body in which the names of the clauses have the values of their expressions.  This is
the application of a procedure with these names as formals, so no expression sees a name of the
same `let`. -/
def letIn (clauses : Cell) (body : List Cell) : EvalM F Cell := do
  let clauses ← clauses.operands (.builtin .letIn)
  let parts ← (clauses.mapM clause : Except EvalError (List (Cell × Cell)))
  self.applyToOperands (.ofList (parts.map Prod.fst)) body (.ofList (parts.map Prod.snd))

end Evaluator

end ConsLisp

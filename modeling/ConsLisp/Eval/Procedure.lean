import ConsLisp.Eval.Operands

/-!
# Applying procedures

A procedure is applied in three steps that never mix.  Its formals are read and checked against
the number of arguments; then the arguments are evaluated, in the scope of the caller; then they
are bound in one new frame, and the body runs inside it.  Since the frame goes on top of the
caller's stack, a body sees the bindings of everyone who is waiting for it.

What the evaluator does with an expression is a parameter here (`Evaluator`): the forms of this
library say what they ask of it, and `ConsLisp.Eval.Run` answers.
-/

namespace ConsLisp

inductive Task
  | operand (expr : Cell)
  /-- The result of an operator on a list of unevaluated operands. -/
  | dispatch (op : Operator) (args : Cell)

abbrev Evaluator (F : Type) := Task → EvalM F Cell

namespace Evaluator

variable {F : Type} (self : Evaluator F)

/-- The value of an expression that stands where a value is wanted. -/
def operand (expr : Cell) : EvalM F Cell :=
  self (.operand expr)

/-- The value of an expression that stands where something has to be run.  Nil names nothing to
run, although it is a value everywhere else. -/
def evaluate (expr : Cell) : EvalM F Cell :=
  match expr with
  | .nil => EvalM.fail .emptyExpression
  | _ => self.operand expr

theorem evaluate_of_ne_nil {expr : Cell} (h : expr ≠ .nil) :
    self.evaluate expr = self.operand expr := by
  cases expr with
  | nil => exact absurd rfl h
  | _ => rfl

def values (exprs : List Cell) : EvalM F (List Cell) :=
  exprs.mapM self.operand

/-- Evaluates expressions in order and yields the last value, or nil if there are none. -/
def sequence (exprs : List Cell) : EvalM F Cell :=
  exprs.foldlM (fun _ expr => self.operand expr) .nil

end Evaluator

/-! ## Formals -/

/-- How a procedure names its arguments. -/
inductive Formals
  | positional (names : List String)
  | variadic (name : String)
  deriving DecidableEq, Repr

namespace Formals

/-- Reads the names of formals, none of which may be among those `seen` before it. -/
def names (seen : List String) : List Cell → Except EvalError (List String)
  | [] => .ok []
  | .symbol name :: rest => do
    checkBindable name
    if name ∈ seen then .error (.duplicateDefinition name)
    else return name :: (← names (name :: seen) rest)
  | other :: _ => .error (.typeMismatch (.builtin .lambda) .formal (.value other.kind))

/-- Reads the formals of a procedure: nil or a list of distinct names, or a single name. -/
def ofCell (formals : Cell) : Except EvalError Formals :=
  match formals with
  | .nil => .ok (positional [])
  | .symbol name => do
    checkBindable name
    return variadic name
  | .pair _ _ => do
    let list ← formals.operands (.builtin .lambda)
    return positional (← names [] list)
  | other => .error (.typeMismatch (.builtin .lambda) .formals (.value other.kind))

/-- Whether a number of arguments suits the formals. -/
def checkCount : Formals → Nat → Except EvalError Unit
  | positional names, count =>
    if names.length = count then .ok ()
    else .error (.arityMismatch .procedure (.exactly names.length) count)
  | variadic _, _ => .ok ()

/-- The bindings that give each formal its argument.  No argument may be an operator. -/
def bindings (formals : Formals) (values : List Cell) : Except EvalError (List (String × Cell)) := do
  values.forM (Cell.checkStorable .procedure)
  match formals with
  | positional names => return names.zip values
  | variadic name => return [(name, Cell.ofList values)]

end Formals

/-! ## Application -/

namespace Evaluator

variable {F : Type} [Frame F] (self : Evaluator F)

/-- Applies a procedure to the values of operand expressions. -/
def applyToOperands (formals : Cell) (body : List Cell) (args : Cell) : EvalM F Cell := do
  let formals ← Formals.ofCell formals
  let exprs ← args.operands .procedure
  formals.checkCount exprs.length
  let values ← self.values exprs
  let bindings ← formals.bindings values
  EvalM.inFrame bindings (self.sequence body)

/-- Applies a procedure to values that are there already. -/
def applyToValues (formals : Cell) (body : List Cell) (values : List Cell) : EvalM F Cell := do
  let formals ← Formals.ofCell formals
  formals.checkCount values.length
  let bindings ← formals.bindings values
  EvalM.inFrame bindings (self.sequence body)

end Evaluator

end ConsLisp

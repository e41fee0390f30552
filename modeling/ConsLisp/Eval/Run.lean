import ConsLisp.Builtin.Arithmetic
import ConsLisp.Builtin.Binding
import ConsLisp.Builtin.Control
import ConsLisp.Builtin.Lists

/-!
# The evaluator

`Evaluator.step` says how one task is carried out when an evaluator for all further tasks is
given, and `run` ties the knot: each nested task gets one unit of budget less than the task that
asked for it, and a task without budget is exhausted.  The budget therefore bounds the nesting of
tasks, not their number, and a larger budget never changes the end of a run that was not exhausted.
-/

namespace ConsLisp

namespace Evaluator

variable {F : Type} [Frame F] (self : Evaluator F)

def builtin : Operator → Builtin F
  | .add => .any self.sum
  | .sub => .oneAndMore self.difference
  | .mul => .any self.product
  | .div => .oneAndMore self.quotient
  | .lessThan => .any self.ascending
  | .floor => .one self.floor
  | .ceiling => .one self.ceiling
  | .not => .one (self.test isZeroNumber)
  | .ifElse => .twoOrThree self.ifElse
  | .quote => .one pure
  | .eval => .one self.eval
  | .print => .one self.print
  | .apply => .two self.apply
  | .cons => .two self.cons
  | .car => .one self.car
  | .cdr => .one self.cdr
  | .nullp => .one (self.test Cell.isNil)
  | .intp => .one (self.test fun value => value.kind == .integer)
  | .doublep => .one (self.test fun value => value.kind == .double)
  | .symbolp => .one (self.test fun value => value.kind == .symbol)
  | .listp => .one (self.test isList)
  | .define => .two self.define
  | .lambda => .twoAndMore lambda
  | .letIn => .oneAndMore self.letIn

/-- Carries out an operator on a list of unevaluated operands.  A list that is not proper and a
wrong number of operands are found before anything is evaluated. -/
def dispatch (op : Operator) (args : Cell) : EvalM F Cell := do
  let operands ← args.operands (.builtin op)
  match (self.builtin op).run? operands with
  | some action => action
  | none => EvalM.fail (.arityMismatch (.builtin op) (self.builtin op).arity operands.length)

/-- Calls a value with unevaluated operands. -/
def call (callee args : Cell) : EvalM F Cell :=
  match callee with
  | .operator op => self.dispatch op args
  | .procedure formals body => self.applyToOperands formals body args
  | other => EvalM.fail (.notCallable other)

/-- The value of an expression.  A reserved word stands for its operator and any other symbol for
what it is bound to; a pair is a call; everything else stands for itself. -/
def value (expr : Cell) : EvalM F Cell :=
  match expr with
  | .symbol name =>
    match Operator.ofName? name with
    | some op => return .operator op
    | none => EvalM.lookup name
  | .pair head args => do self.call (← self.evaluate head) args
  | other => return other

/-- Carries out one task, leaving all nested tasks to `self`. -/
def step : Task → EvalM F Cell
  | .operand expr => do
    EvalM.noteEvaluate expr
    self.value expr
  | .dispatch op args => self.dispatch op args

end Evaluator

variable {F : Type} [Frame F]

/-- Carries out a task with a bound on the nesting of tasks. -/
def run : Nat → Evaluator F
  | 0 => fun _ => EvalM.exhausted
  | budget + 1 => fun task => Evaluator.step (run budget) task

/-- Evaluates a top-level expression.  Nil is not one. -/
def evaluate (budget : Nat) (expr : Cell) : EvalM F Cell :=
  Evaluator.evaluate (run budget) expr

/-- Carries out an operator on a list of unevaluated operands. -/
def dispatch (budget : Nat) (op : Operator) (args : Cell) : EvalM F Cell :=
  run budget (.dispatch op args)

/-- The budget of a run whose caller sets none. -/
def defaultBudget : Nat := 1000000

end ConsLisp

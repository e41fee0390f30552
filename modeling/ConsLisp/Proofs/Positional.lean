import ConsLisp.Eval.Run
import ConsLisp.Proofs.StackMachine

/-!
# Evaluation by position

The builtins take their operands by pattern, so none of them could ask for an operand that is not
there, and the quotient of integers has a value for every divisor.  Here each builtin has a list of
operands of whatever length, compares its length with the arity that it expects, and then picks the
operands by their positions; a quotient of integers needs a divisor, and the frames are on a stack
that can run out (`ConsLisp.Proofs.StackMachine`).  Whatever is done without a guard, or with the
wrong one, is a fault.

`Positional.run_mirrors` says that there is none: task by task, a run on the stack of an environment
is the run in the environment.
-/

namespace ConsLisp

/-- What a run on a stack does with tasks. -/
abbrev Positional (F : Type) := Task → StackM F Cell

namespace Positional

section Forms

variable {F : Type} (self : Positional F)

def operand (expr : Cell) : StackM F Cell :=
  self (.operand expr)

def evaluate (expr : Cell) : StackM F Cell :=
  match expr with
  | .nil => StackM.fail .emptyExpression
  | _ => self.operand expr

/-- Fails unless there are as many operands as an operator expects. -/
def checkArity (op : Operator) (expected : Arity) (operands : List Cell) : StackM F Unit :=
  if expected.accepts operands.length then pure ()
  else StackM.fail (.arityMismatch (.builtin op) expected operands.length)

/-- An operator with a single operand. -/
def single (op : Operator) (action : Cell → StackM F Cell) (operands : List Cell) :
    StackM F Cell := do
  checkArity op (.exactly 1) operands
  action (← StackM.operandAt operands 0)

/-! ## Arithmetic and comparison -/

def number (op : Operator) (expr : Cell) : StackM F Number := do
  let value ← self.operand expr
  Evaluator.asNumber op value

def foldNumbers (op : Operator) (step : Number → Number → StackM F Number) (start : Number)
    (exprs : List Cell) : StackM F Cell := do
  let total ← exprs.foldlM (fun acc expr => do step acc (← self.number op expr)) start
  return total.toCell

/-- The quotient of two integers, if it can be calculated. -/
def integerQuotient (m n : Int64) : Except Fault Int64 :=
  if n = 0 then .error .integerDivisionByZero else .ok (m / n)

/-- The quotient of two numbers, after a check of the divisor. -/
def divide (a b : Number) : StackM F Number :=
  if b.isZero then StackM.fail .divideByZero
  else
    match a, b with
    | .integer m, .integer n => do return .integer (← integerQuotient m n)
    | a, b => return .double (a.toDouble / b.toDouble)

def sum (operands : List Cell) : StackM F Cell :=
  self.foldNumbers .add (fun a b => return a.add b) (.integer 0) operands

def product (operands : List Cell) : StackM F Cell :=
  self.foldNumbers .mul (fun a b => return a.mul b) (.integer 1) operands

def difference (operands : List Cell) : StackM F Cell := do
  checkArity .sub (.atLeast 1) operands
  let first ← self.number .sub (← StackM.operandAt operands 0)
  if operands.length = 1 then return first.neg.toCell
  else
    let rest ← StackM.operandsFrom operands 1
    self.foldNumbers .sub (fun a b => return a.sub b) first rest

def quotient (operands : List Cell) : StackM F Cell := do
  checkArity .div (.atLeast 1) operands
  let first ← self.number .div (← StackM.operandAt operands 0)
  if operands.length = 1 then
    let result ← first.reciprocal
    return result.toCell
  else
    let rest ← StackM.operandsFrom operands 1
    self.foldNumbers .div divide first rest

def ascendingFrom (previous : Number) : List Cell → StackM F Cell
  | [] => return .ofBool true
  | expr :: exprs => do
    let next ← self.number .lessThan expr
    if previous.lt next then ascendingFrom next exprs else return .ofBool false

def ascending : List Cell → StackM F Cell
  | [] => return .ofBool true
  | expr :: exprs => do self.ascendingFrom (← self.number .lessThan expr) exprs

def rounded (op : Operator) (round : Number → Int64) : List Cell → StackM F Cell :=
  single op fun expr => do return .integer (round (← self.number op expr))

/-! ## Pairs, predicates and control -/

def test (op : Operator) (property : Cell → Bool) : List Cell → StackM F Cell :=
  single op fun expr => do return .ofBool (property (← self.operand expr))

def cons (operands : List Cell) : StackM F Cell := do
  checkArity .cons (.exactly 2) operands
  let car ← self.operand (← StackM.operandAt operands 0)
  let cdr ← self.operand (← StackM.operandAt operands 1)
  car.checkStorable (.builtin .cons)
  cdr.checkStorable (.builtin .cons)
  return .pair car cdr

/-- One of the halves of the pair that a single operand evaluates to. -/
def half (op : Operator) (pick : Cell × Cell → Cell) : List Cell → StackM F Cell :=
  single op fun expr => do
    let value ← self.operand expr
    let halves ← Evaluator.halves op value
    return pick halves

/-- The branch that the value of the condition selects. -/
def branch (operands : List Cell) : StackM F Cell := do
  let value ← self.operand (← StackM.operandAt operands 0)
  if ← Evaluator.truth value then self.operand (← StackM.operandAt operands 1)
  else
    match operands[2]? with
    | some expr => self.operand expr
    | none => StackM.fail .missingElseBranch

def ifElse (operands : List Cell) : StackM F Cell := do
  checkArity .ifElse (.between 2 3) operands
  self.branch operands

def quote : List Cell → StackM F Cell :=
  single .quote pure

def eval : List Cell → StackM F Cell :=
  single .eval fun expr => do self.evaluate (← self.operand expr)

def print : List Cell → StackM F Cell :=
  single .print fun expr => do
    let value ← self.operand expr
    StackM.write (value.text ++ "\n")
    return .nil

/-! ## Procedures and binding forms -/

variable [Frame F]

def values (exprs : List Cell) : StackM F (List Cell) :=
  exprs.mapM self.operand

def sequence (exprs : List Cell) : StackM F Cell :=
  exprs.foldlM (fun _ expr => self.operand expr) .nil

def applyToOperands (formals : Cell) (body : List Cell) (args : Cell) : StackM F Cell := do
  let formals ← Formals.ofCell formals
  let exprs ← args.operands .procedure
  formals.checkCount exprs.length
  let values ← self.values exprs
  let bindings ← formals.bindings values
  StackM.inFrame bindings (self.sequence body)

def applyToValues (formals : Cell) (body : List Cell) (values : List Cell) : StackM F Cell := do
  let formals ← Formals.ofCell formals
  formals.checkCount values.length
  let bindings ← formals.bindings values
  StackM.inFrame bindings (self.sequence body)

def applyTo (callee : Cell) (values : List Cell) : StackM F Cell :=
  match callee with
  | .procedure formals body => self.applyToValues formals body values
  | .operator op =>
    if op.takesSyntax then
      StackM.fail (.typeMismatch (.builtin .apply) .valueTaker (.operator op))
    else self (.dispatch op (.ofList (values.map Evaluator.quoted)))
  | other => StackM.fail (.notCallable other)

def apply (operands : List Cell) : StackM F Cell := do
  checkArity .apply (.exactly 2) operands
  let callee ← self.operand (← StackM.operandAt operands 0)
  let list ← self.operand (← StackM.operandAt operands 1)
  let values ← list.operands (.builtin .apply)
  self.applyTo callee values

def define (operands : List Cell) : StackM F Cell := do
  checkArity .define (.exactly 2) operands
  let target ← StackM.operandAt operands 0
  let name ← Evaluator.definedName target
  if ← StackM.isGloballyBound name then StackM.fail (.duplicateDefinition name)
  else
    let value ← self.operand (← StackM.operandAt operands 1)
    value.checkStorable (.builtin .define)
    StackM.define name value
    return .nil

def lambda (operands : List Cell) : StackM F Cell := do
  checkArity .lambda (.atLeast 2) operands
  let body ← StackM.operandsFrom operands 1
  let formals ← StackM.operandAt operands 0
  return .procedure formals body

/-- The two parts of a clause of `let`. -/
def clause (c : Cell) : StackM F (Cell × Cell) := do
  let parts ← c.operands (.builtin .letIn)
  checkArity .letIn (.exactly 2) parts
  let name ← StackM.operandAt parts 0
  let expr ← StackM.operandAt parts 1
  return (name, expr)

def letIn (operands : List Cell) : StackM F Cell := do
  checkArity .letIn (.atLeast 1) operands
  let clauses ← StackM.operandAt operands 0
  let clauses ← clauses.operands (.builtin .letIn)
  let parts ← clauses.mapM clause
  let body ← StackM.operandsFrom operands 1
  self.applyToOperands (.ofList (parts.map Prod.fst)) body (.ofList (parts.map Prod.snd))

/-! ## All tasks -/

def builtin : Operator → List Cell → StackM F Cell
  | .add => self.sum
  | .sub => self.difference
  | .mul => self.product
  | .div => self.quotient
  | .lessThan => self.ascending
  | .floor => self.rounded .floor Number.floor
  | .ceiling => self.rounded .ceiling Number.ceiling
  | .not => self.test .not Evaluator.isZeroNumber
  | .ifElse => self.ifElse
  | .quote => quote
  | .eval => self.eval
  | .print => self.print
  | .apply => self.apply
  | .cons => self.cons
  | .car => self.half .car Prod.fst
  | .cdr => self.half .cdr Prod.snd
  | .nullp => self.test .nullp Cell.isNil
  | .intp => self.test .intp fun value => value.kind == .integer
  | .doublep => self.test .doublep fun value => value.kind == .double
  | .symbolp => self.test .symbolp fun value => value.kind == .symbol
  | .listp => self.test .listp Evaluator.isList
  | .define => self.define
  | .lambda => lambda
  | .letIn => self.letIn

def dispatch (op : Operator) (args : Cell) : StackM F Cell := do
  let operands ← args.operands (.builtin op)
  self.builtin op operands

def call (callee args : Cell) : StackM F Cell :=
  match callee with
  | .operator op => self.dispatch op args
  | .procedure formals body => self.applyToOperands formals body args
  | other => StackM.fail (.notCallable other)

def value (expr : Cell) : StackM F Cell :=
  match expr with
  | .symbol name =>
    match Operator.ofName? name with
    | some op => return .operator op
    | none => StackM.lookup name
  | .pair head args => do self.call (← self.evaluate head) args
  | other => return other

/-- Carries out one task.  There is a fault unless the stack still has its global frame. -/
def step (task : Task) : StackM F Cell := do
  let _ ← StackM.globals
  match task with
  | .operand expr =>
    StackM.noteEvaluate expr
    self.value expr
  | .dispatch op args => self.dispatch op args

end Forms

/-- Carries out a task on a stack, with a bound on the nesting of tasks. -/
def run {F : Type} [Frame F] : Nat → Positional F
  | 0 => fun _ => StackM.exhausted
  | budget + 1 => fun task => step (run budget) task

end Positional

end ConsLisp

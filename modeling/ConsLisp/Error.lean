import ConsLisp.Cell.Text

/-!
# Errors

Everything that can stop an evaluation is a constructor of `EvalError` that carries what caused
it; the wording is made from that in one place, `EvalError.message`.  An error names the form that
was being called, an operator or a procedure, and says what that form wanted.
-/

namespace ConsLisp

inductive Arity
  | exactly (n : Nat)
  | atLeast (n : Nat)
  | between (low high : Nat)
  deriving DecidableEq, Repr

namespace Arity

def accepts : Arity → Nat → Bool
  | exactly n, count => count == n
  | atLeast n, count => decide (n ≤ count)
  | between low high, count => decide (low ≤ count ∧ count ≤ high)

def text : Arity → String
  | exactly n => "exactly " ++ toString n
  | atLeast n => "at least " ++ toString n
  | between low high => "between " ++ toString low ++ " and " ++ toString high

end Arity

/-- What is being called when an error arises. -/
inductive Form
  | builtin (op : Operator)
  | procedure
  deriving DecidableEq, Repr

/-- The word for a form: an operator is called by its own name. -/
def Form.name : Form → String
  | builtin op => op.name
  | procedure => "procedure"

/-- What a form wants in a place where it found something else. -/
inductive Expectation
  | number
  /-- Operators stand for themselves only in passing and are never stored. -/
  | storableValue
  | test
  | definedName
  | formal
  | formals
  /-- A callee that can be handed values, which an operator that reads syntax cannot. -/
  | valueTaker
  deriving DecidableEq, Repr

def Expectation.text : Expectation → String
  | number => "a number"
  | storableValue => "a storable value"
  | test => "a number or symbol as test"
  | definedName => "a symbol as name"
  | formal => "a symbol as formal"
  | formals => "nil, a symbol or a list of symbols as formals"
  | valueTaker => "a procedure or an operator that takes values"

/-- What a form found instead: a value, reported by its kind, or a certain operator. -/
inductive Found
  | value (kind : Kind)
  | operator (op : Operator)
  deriving DecidableEq, Repr

def Found.name : Found → String
  | value kind => kind.name
  | operator op => op.name

/-- Why an evaluation stopped. -/
inductive EvalError
  | unboundSymbol (name : String)
  | reservedName (name : String)
  | duplicateDefinition (name : String)
  /-- Nil stands where something has to be run. -/
  | emptyExpression
  | notCallable (callee : Cell)
  /-- A list was wanted and its spine ends in something other than nil. -/
  | notAPair (form : Form) (found : Kind)
  | emptyOperand (op : Operator)
  | arityMismatch (form : Form) (expected : Arity) (found : Nat)
  | divideByZero
  | typeMismatch (form : Form) (expected : Expectation) (found : Found)
  | missingElseBranch
  /-- The sink did not take all of a text. -/
  | output (reason : String)

namespace EvalError

def message : EvalError → String
  | unboundSymbol name => "Unbound symbol: '" ++ name ++ "'"
  | reservedName name => "Cannot bind reserved operator name '" ++ name ++ "'"
  | duplicateDefinition name => "'" ++ name ++ "' is already defined"
  | emptyExpression => "Cannot evaluate an empty expression"
  | notCallable callee => "Expected an operator or procedure, but got: " ++ callee.text
  | notAPair form found => "'" ++ form.name ++ "' expects a pair, but got a " ++ found.name
  | emptyOperand op => "'" ++ op.name ++ "' was given an empty list"
  | arityMismatch form expected found =>
    "'" ++ form.name ++ "' expects " ++ expected.text ++ " operands, got " ++ toString found
  | divideByZero => "Division by zero"
  | typeMismatch form expected found =>
    "'" ++ form.name ++ "' expects " ++ expected.text ++ ", but got a " ++ found.name
  | missingElseBranch => "'if' test was false and there is no else branch"
  | output reason => "Failed to write output: " ++ reason

def isUnboundSymbol : EvalError → Bool
  | unboundSymbol _ => true
  | _ => false

def isReservedName : EvalError → Bool
  | reservedName _ => true
  | _ => false

def isDuplicateDefinition : EvalError → Bool
  | duplicateDefinition _ => true
  | _ => false

end EvalError

/-- No form may bind a reserved word, since a symbol of that spelling is never looked up. -/
def checkBindable (name : String) : Except EvalError Unit :=
  if Operator.isReserved name then .error (.reservedName name) else .ok ()

end ConsLisp

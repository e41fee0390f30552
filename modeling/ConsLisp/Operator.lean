/-!
# Operators

The language has twenty-four built-in operations, and each one reserves the word it is spelled
with: a symbol of that spelling stands for the operation and is never looked up, so no form can
bind it.  Everything that asks "is this name reserved" goes through `Operator.ofName?`, and
`ofName?_eq_some_iff` says that it answers exactly for the spellings.
-/

namespace ConsLisp

/-- A built-in operation.  The order of the constructors is the order of `Operator.all`. -/
inductive Operator
  | add
  | ifElse
  | ceiling
  | sub
  | mul
  | div
  | floor
  | quote
  | cons
  | car
  | cdr
  | nullp
  | define
  | lessThan
  | not
  | print
  | eval
  | lambda
  | apply
  | letIn
  | intp
  | doublep
  | symbolp
  | listp
  deriving DecidableEq, Repr

namespace Operator

def all : List Operator :=
  [add, ifElse, ceiling, sub, mul, div, floor, quote, cons, car, cdr, nullp, define, lessThan,
    not, print, eval, lambda, apply, letIn, intp, doublep, symbolp, listp]

/-- The word that an operator reserves. -/
def name : Operator → String
  | add => "+"
  | ifElse => "if"
  | ceiling => "ceiling"
  | sub => "-"
  | mul => "*"
  | div => "/"
  | floor => "floor"
  | quote => "quote"
  | cons => "cons"
  | car => "car"
  | cdr => "cdr"
  | nullp => "nullp"
  | define => "define"
  | lessThan => "<"
  | not => "not"
  | print => "print"
  | eval => "eval"
  | lambda => "lambda"
  | apply => "apply"
  | letIn => "let"
  | intp => "intp"
  | doublep => "doublep"
  | symbolp => "symbolp"
  | listp => "listp"

/-- The operator that a word is reserved for, if it is reserved. -/
def ofName? (word : String) : Option Operator :=
  all.find? fun op => op.name == word

/-- Whether a word is reserved, so that it can neither be bound nor looked up. -/
def isReserved (word : String) : Bool :=
  (ofName? word).isSome

/-- Some operators read an operand as syntax (a name, formals, a list of bindings, quoted data).
A list of values cannot stand in for such an operand. -/
def takesSyntax : Operator → Bool
  | quote | define | lambda | letIn => true
  | _ => false

/-! ## Spelling and operator determine each other -/

theorem mem_all (op : Operator) : op ∈ all := by
  cases op <;> decide

@[simp] theorem ofName?_name (op : Operator) : ofName? op.name = some op := by
  cases op <;> rfl

theorem name_injective {op op' : Operator} (h : op.name = op'.name) : op = op' := by
  have := congrArg ofName? h
  simpa using this

theorem ofName?_eq_some_iff {word : String} {op : Operator} :
    ofName? word = some op ↔ op.name = word := by
  constructor
  · intro h
    exact beq_iff_eq.1 (List.find?_some (p := fun o : Operator => o.name == word) h)
  · rintro rfl
    exact ofName?_name op

theorem isReserved_iff {word : String} :
    isReserved word = true ↔ ∃ op : Operator, op.name = word := by
  simp [isReserved, Option.isSome_iff_exists, ofName?_eq_some_iff]

@[simp] theorem isReserved_name (op : Operator) : isReserved op.name = true := by
  simp [isReserved]

end Operator

end ConsLisp

import ConsLisp.Operator
import ConsLisp.Double.Basic

/-!
# Cells

Code and data are made of one type of tree.  A cell is an atom, a pair of cells, or a procedure,
which carries its formals and its body as cells; a list is a chain of pairs that ends in nil.
`Cell` nests itself in the list of a procedure's body, so it gets an induction principle of its
own, `Cell.induct`, in which every body expression has the hypothesis too.
-/

namespace ConsLisp

/-- What sort of value a cell is, as error messages and log events name it. -/
inductive Kind
  | nil
  | integer
  | double
  | symbol
  | operator
  | pair
  | procedure
  deriving DecidableEq, Repr

def Kind.name : Kind → String
  | nil => "nil"
  | integer => "integer"
  | double => "double"
  | symbol => "symbol"
  | operator => "operator"
  | pair => "pair"
  | procedure => "procedure"

inductive Cell
  | nil
  | integer (n : Int64)
  | double (x : Double)
  | symbol (name : String)
  /-- An operator as a value, which is not the symbol that it is spelled with. -/
  | operator (op : Operator)
  | pair (car cdr : Cell)
  /-- A procedure has no scope of its own: it is its formals and its body. -/
  | procedure (formals : Cell) (body : List Cell)
  deriving Inhabited

namespace Cell

def kind : Cell → Kind
  | nil => .nil
  | integer _ => .integer
  | double _ => .double
  | symbol _ => .symbol
  | operator _ => .operator
  | pair _ _ => .pair
  | procedure _ _ => .procedure

def isNil : Cell → Bool
  | nil => true
  | _ => false

def isPair : Cell → Bool
  | pair _ _ => true
  | _ => false

def car? : Cell → Option Cell
  | pair car _ => some car
  | _ => none

def cdr? : Cell → Option Cell
  | pair _ cdr => some cdr
  | _ => none

/-- The integer that stands for a truth value. -/
def ofBool (b : Bool) : Cell :=
  if b then integer 1 else integer 0

/-- Induction on cells, with the hypothesis for both halves of a pair and for a procedure's formals
and each of its body expressions. -/
@[elab_as_elim, induction_eliminator]
theorem induct {motive : Cell → Prop} (nil : motive nil)
    (integer : ∀ n, motive (integer n)) (double : ∀ x, motive (double x))
    (symbol : ∀ name, motive (symbol name)) (operator : ∀ op, motive (operator op))
    (pair : ∀ car cdr, motive car → motive cdr → motive (pair car cdr))
    (procedure : ∀ formals body, motive formals → (∀ c ∈ body, motive c) →
      motive (procedure formals body)) (c : Cell) : motive c :=
  @Cell.rec motive (fun body => ∀ c ∈ body, motive c) nil integer double symbol operator pair
    procedure (by simp) (fun _ _ head tail => by simpa using ⟨head, tail⟩) c

theorem kind_eq_nil_iff {c : Cell} : c.kind = .nil ↔ c = .nil := by
  cases c <;> simp [kind]

theorem kind_eq_pair_iff {c : Cell} : c.kind = .pair ↔ c.isPair = true := by
  cases c <;> simp [kind, isPair]

end Cell

end ConsLisp

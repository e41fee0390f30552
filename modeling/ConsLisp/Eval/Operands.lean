import ConsLisp.Cell.Spine
import ConsLisp.Eval.Monad

/-!
# Operands

The operands of a call are written as a list.  Before anything of a call is evaluated its operands
must form a proper list, and their number must suit the form.  The second check is not written
down anywhere: `Builtin` gives each operation the type of its operands, and a list of operands that
no operation of that type can take is an arity mismatch (`Builtin.run?_isSome`).
-/

namespace ConsLisp

namespace Cell

/-- The members of a list that `form` was given: nil or a chain of pairs that ends in nil. -/
def operands (form : Form) (args : Cell) : Except EvalError (List Cell) :=
  match args.tail with
  | .nil => .ok args.items
  | other => .error (.notAPair form other.kind)

/-- Operators may be passed on but not stored: they never become part of a frame or a pair. -/
def checkStorable (form : Form) (value : Cell) : Except EvalError Unit :=
  match value with
  | .operator _ => .error (.typeMismatch form .storableValue (.value value.kind))
  | _ => .ok ()

theorem operands_ofList (form : Form) (xs : List Cell) : operands form (ofList xs) = .ok xs := by
  simp [operands]

theorem operands_eq_ok_iff {form : Form} {args : Cell} {xs : List Cell} :
    operands form args = .ok xs ↔ args = ofList xs := by
  constructor
  · intro h
    unfold operands at h
    split at h
    · next tail_eq =>
      rw [← Except.ok.inj h, ofList, ← tail_eq, chain_items_tail]
    · cases h
  · rintro rfl
    exact operands_ofList form xs

end Cell

/-- An operation by the operands that it takes.  What the operands are evaluated to, and whether
they are evaluated at all, is up to the operation. -/
inductive Builtin (F : Type)
  | any (run : List Cell → EvalM F Cell)
  | one (run : Cell → EvalM F Cell)
  | two (run : Cell → Cell → EvalM F Cell)
  | twoOrThree (run : Cell → Cell → Option Cell → EvalM F Cell)
  | oneAndMore (run : Cell → List Cell → EvalM F Cell)
  | twoAndMore (run : Cell → Cell → List Cell → EvalM F Cell)

namespace Builtin

variable {F : Type}

def arity : Builtin F → Arity
  | any _ => .atLeast 0
  | one _ => .exactly 1
  | two _ => .exactly 2
  | twoOrThree _ => .between 2 3
  | oneAndMore _ => .atLeast 1
  | twoAndMore _ => .atLeast 2

/-- The operation on a list of operands, if it can take so many. -/
def run? : Builtin F → List Cell → Option (EvalM F Cell)
  | any run, operands => some (run operands)
  | one run, [a] => some (run a)
  | two run, [a, b] => some (run a b)
  | twoOrThree run, [a, b] => some (run a b none)
  | twoOrThree run, [a, b, c] => some (run a b (some c))
  | oneAndMore run, a :: rest => some (run a rest)
  | twoAndMore run, a :: b :: rest => some (run a b rest)
  | _, _ => none

/-- An operation takes exactly the operand lists whose length its arity accepts. -/
theorem run?_isSome (builtin : Builtin F) (operands : List Cell) :
    (builtin.run? operands).isSome = builtin.arity.accepts operands.length := by
  rcases operands with _ | ⟨a, _ | ⟨b, _ | ⟨c, _ | ⟨d, rest⟩⟩⟩⟩ <;> cases builtin <;>
    simp [run?, arity, Arity.accepts]

end Builtin

end ConsLisp

import ConsLisp.Cell.Basic

/-!
# Equality of cells

Two cells are equal when they have the same shape and equal atoms.  Doubles are compared as
numbers of their format: the two zeros are equal and a NaN equals nothing, so this is not the
identity of cells, and a cell that holds a NaN is not equal to itself.  Kinds never mix.
-/

namespace ConsLisp

namespace Cell

mutual

/-- Structural equality, with the comparison of doubles at the leaves. -/
def beq : Cell → Cell → Bool
  | nil, nil => true
  | integer m, integer n => m == n
  | double x, double y => x == y
  | symbol s, symbol t => s == t
  | operator op, operator op' => op == op'
  | pair a d, pair a' d' => a.beq a' && d.beq d'
  | procedure f b, procedure f' b' => f.beq f' && beqAll b b'
  | _, _ => false

/-- Equality of two lists of cells, position by position. -/
def beqAll : List Cell → List Cell → Bool
  | [], [] => true
  | c :: cs, c' :: cs' => c.beq c' && beqAll cs cs'
  | _, _ => false

end

instance : BEq Cell := ⟨beq⟩

end Cell

end ConsLisp

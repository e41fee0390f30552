import ConsLisp.Cell.Basic
import ConsLisp.Double.FixedPoint

/-!
# The text of a cell

Cells are shown in list notation.  A chain of pairs is written flat between one pair of
parentheses, its items separated by blanks, and a tail other than nil follows after a dot.
Symbols are written as they are, without quoting.
-/

namespace ConsLisp

namespace Cell

/-- The text of a cell that is not a pair.  A pair is left to `text`. -/
def atomText : Cell → String
  | nil => "()"
  | integer n => toString n.toInt
  | double x => x.text
  | symbol name => name
  | operator op => "#<operator:" ++ op.name ++ ">"
  | pair _ _ => ""
  | procedure _ _ => "#<procedure>"

mutual

def text : Cell → String
  | pair car cdr => "(" ++ car.text ++ cdr.restText
  | c => c.atomText

/-- What follows the first item of a list: the blank and text of each further item, a dot and the
tail if there is one, and the closing parenthesis. -/
def restText : Cell → String
  | nil => ")"
  | pair car cdr => " " ++ car.text ++ cdr.restText
  | c => " . " ++ c.atomText ++ ")"

end

end Cell

end ConsLisp

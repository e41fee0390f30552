import ConsLisp.Frame.Basic

/-!
# Scripts of frame operations

A single frame driven by a list of operations, each of which gives one answer.  The bindings are
listed in ascending order of their names, so that the answers do not depend on the container.
-/

namespace ConsLisp

namespace Frame

inductive Operation
  | insert (name : String) (value : Cell)
  | find (name : String)
  | erase (name : String)
  | size
  | isEmpty
  | bindings

inductive Reply
  | flag (b : Bool)
  | count (n : Nat)
  | found (value : Option Cell)
  | bindings (all : List (String × Cell))

variable {F : Type} [Frame F]

def Operation.apply (f : F) : Operation → Reply × F
  | .insert name value => let (added, f) := insertNew f name value; (.flag added, f)
  | .find name => (.found (find? f name), f)
  | .erase name => let (count, f) := remove f name; (.count count, f)
  | .size => (.count (Frame.size f), f)
  | .isEmpty => (.flag (Frame.isEmpty f), f)
  | .bindings => (.bindings (sorted f), f)

/-- The answers of a list of operations, carried out in order. -/
def replies (f : F) : List Operation → List Reply
  | [] => []
  | operation :: script =>
    let (reply, f) := operation.apply f
    reply :: replies f script

end Frame

end ConsLisp

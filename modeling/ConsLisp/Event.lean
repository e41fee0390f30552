import ConsLisp.Cell.Basic

/-!
# Log events

An environment keeps a record of what happens in it: every expression that is evaluated, every
definition, and every frame that comes and goes, each with the depth of the stack at that moment.
The record is always complete; how much of it is shown is a matter of its reader's `LogLevel`.
-/

namespace ConsLisp

/-- How much of the record is shown. -/
inductive LogLevel
  /-- The stack and the definitions. -/
  | debug
  /-- Also every expression. -/
  | trace
  deriving DecidableEq, Repr

inductive Event
  /-- The evaluation of an expression begins. -/
  | evaluate (kind : Kind) (depth : Nat)
  | definedGlobal (name : String) (kind : Kind)
  /-- The operands of a procedure are ready; its frame, which binds `bindings` names, is next. -/
  | applyingProcedure (bindings depth : Nat)
  | pushedFrame (depth : Nat)
  | poppedFrame (depth : Nat)
  deriving DecidableEq, Repr

namespace Event

/-- The level from which on an event is shown. -/
def level : Event → LogLevel
  | evaluate _ _ => .trace
  | _ => .debug

/-- Whether a reader at a level sees an event. -/
def shownAt (event : Event) : LogLevel → Bool
  | .trace => true
  | .debug => event.level == .debug

def message : Event → String
  | evaluate _ _ => "evaluate"
  | definedGlobal _ _ => "defined global"
  | applyingProcedure _ _ => "applying procedure"
  | pushedFrame _ => "pushed frame"
  | poppedFrame _ => "popped frame"

inductive FieldValue
  | text (s : String)
  | count (n : Nat)
  deriving DecidableEq, Repr

def fields : Event → List (String × FieldValue)
  | evaluate kind depth => [("kind", .text kind.name), ("depth", .count depth)]
  | definedGlobal name kind => [("symbol", .text name), ("kind", .text kind.name)]
  | applyingProcedure bindings depth => [("bindings", .count bindings), ("depth", .count depth)]
  | pushedFrame depth => [("depth", .count depth)]
  | poppedFrame depth => [("depth", .count depth)]

end Event

def LogLevel.name : LogLevel → String
  | debug => "DEBUG"
  | trace => "TRACE"

end ConsLisp

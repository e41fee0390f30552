/-!
# Output sinks

Printed text goes to a sink that keeps the bytes it has taken.  A sink may have room for a limited
number of bytes.  It takes what fits, also in the middle of a text, and then is full for good: the
bytes it holds are always a first part of all that was sent to it.
-/

namespace ConsLisp

structure Sink where
  /-- How many more bytes fit; without a number there is no limit. -/
  room : Option Nat
  /-- What the sink says for itself when a text does not fit. -/
  refusal : String
  written : ByteArray

namespace Sink

/-- A sink that has taken nothing yet. -/
def empty (room : Option Nat) (refusal : String) : Sink :=
  ⟨room, refusal, ByteArray.empty⟩

/-- A sink that takes everything, and so never has to say anything. -/
def unlimited : Sink :=
  empty none ""

/-- Sends a text to the sink, and says whether all of it was taken. -/
def write (sink : Sink) (text : String) : Bool × Sink :=
  let bytes := text.toUTF8
  match sink.room with
  | none => (true, { sink with written := sink.written ++ bytes })
  | some room =>
    if bytes.size ≤ room then
      (true, { sink with room := some (room - bytes.size), written := sink.written ++ bytes })
    else
      (false, { sink with room := some 0, written := sink.written ++ bytes.extract 0 room })

/-- The text of bytes that are UTF-8 up to a character cut off at the end, in whose place a
replacement character is shown.  A character has at most four bytes, so at most three are left of
one that was cut. -/
def textOf (bytes : ByteArray) : String :=
  let without (n : Nat) := String.fromUTF8? (bytes.extract 0 (bytes.size - n))
  match without 0 with
  | some text => text
  | none => ((without 1 <|> without 2 <|> without 3).getD "").push '\ufffd'

/-- The text taken since the sink held `start` bytes. -/
def textFrom (sink : Sink) (start : Nat) : String :=
  textOf (sink.written.extract start sink.written.size)

end Sink

end ConsLisp

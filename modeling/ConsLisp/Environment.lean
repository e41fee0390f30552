import ConsLisp.Error
import ConsLisp.Event
import ConsLisp.Frame.Basic
import ConsLisp.Sink

/-!
# Environments

An environment is the scope stack together with what the outside can see of a run: its output and
its record of events.  The global frame is kept apart from the frames above it, so no sequence of
pushes and pops can lose it.  Names are resolved from the innermost frame outwards.  Definitions
always go to the global frame, and each name is defined there at most once.
-/

namespace ConsLisp

structure Environment (F : Type) where
  globals : F
  /-- The frames above the global one, the innermost first. -/
  locals : List F
  output : Sink
  events : Array Event

namespace Environment

variable {F : Type} [Frame F]

/-- An environment without definitions, which prints to the given sink. -/
def fresh (output : Sink) : Environment F :=
  ⟨Frame.empty, [], output, #[]⟩

/-- The number of frames, the global one included. -/
def depth (env : Environment F) : Nat :=
  env.locals.length + 1

/-- What a name stands for: the innermost frame that binds it decides. -/
def lookup? (env : Environment F) (name : String) : Option Cell :=
  (env.locals.findSome? fun frame => Frame.find? frame name).or (Frame.find? env.globals name)

def isGloballyBound (env : Environment F) (name : String) : Bool :=
  Frame.contains env.globals name

def globalNames (env : Environment F) : List String :=
  Frame.names env.globals

def record (env : Environment F) (event : Event) : Environment F :=
  { env with events := env.events.push event }

def push (env : Environment F) (frame : F) : Environment F :=
  let env := { env with locals := frame :: env.locals }
  env.record (.pushedFrame env.depth)

/-- Takes the innermost frame off the stack.  The global frame stays. -/
def pop (env : Environment F) : Environment F :=
  let env := { env with locals := env.locals.tail }
  env.record (.poppedFrame env.depth)

/-- Defines a name in the global frame, whatever the depth.  Reserved words and names that are
already defined are refused. -/
def define? (env : Environment F) (name : String) (value : Cell) :
    Except EvalError (Environment F) := do
  checkBindable name
  match Frame.insert? env.globals name value with
  | none => .error (.duplicateDefinition name)
  | some globals => .ok ({ env with globals }.record (.definedGlobal name value.kind))

/-- Sends a text to the sink, and says whether all of it was taken. -/
def write (env : Environment F) (text : String) : Bool × Environment F :=
  let (taken, output) := env.output.write text
  (taken, { env with output })

end Environment

end ConsLisp

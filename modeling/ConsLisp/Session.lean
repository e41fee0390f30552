import ConsLisp.Eval.Run

/-!
# Sessions

A session is a list of steps that a host takes with one environment: evaluating, defining, looking
up, writing to the output, and opening scopes, inside which further steps are taken.  Each step is
reported with its answer and with what could be seen of the environment while it was taken.  The
frame of a scope is built from whatever bindings the host gives; they are not checked.
-/

namespace ConsLisp

namespace Session

/-- What a host may do with an environment as it is. -/
inductive Operation
  | evaluate (expr : Cell)
  | dispatch (op : Operator) (args : Cell)
  | lookup (name : String)
  | define (name : String) (value : Cell)
  | isGloballyBound (name : String)
  | globalNames
  | write (text : String)

inductive Step
  | single (operation : Operation)
  /-- Takes steps under one more frame. -/
  | scope (bindings : List (String × Cell)) (steps : List Step)

inductive Answer
  | value (c : Cell)
  | failure (error : EvalError)
  | exhausted
  | bound (b : Bool)
  | names (all : List String)
  /-- The operation has nothing to say beyond that it succeeded. -/
  | done

/-- What can be seen of an environment between two moments: the text written and the events
recorded from the one to the other, and the depth at the end. -/
structure Observation where
  out : String
  events : List Event
  depth : Nat

/-- The events of `after` that `before` does not have yet. -/
def newEvents {F : Type} (before after : Environment F) : List Event :=
  after.events.toList.drop before.events.size

/-- Observes the way from one environment to a later one. -/
def Observation.between {F : Type} (before after : Environment F) : Observation where
  out := after.output.textFrom before.output.written.size
  events := newEvents before after
  depth := after.depth

inductive Report
  | single (answer : Answer) (seen : Observation)
  /-- For a scope: which bindings were added to its frame, the depth inside, the events of the
  push, and the reports of the inner steps.  The observation is of the pop alone. -/
  | scope (added : List Bool) (inside : Nat) (pushEvents : List Event) (steps : List Report)
    (seen : Observation)

variable {F : Type} [Frame F]

def Operation.action (budget : Nat) : Operation → EvalM F Answer
  | .evaluate expr => Answer.value <$> ConsLisp.evaluate budget expr
  | .dispatch op args => Answer.value <$> ConsLisp.dispatch budget op args
  | .lookup name => Answer.value <$> EvalM.lookup name
  | .define name value => do
    EvalM.define name value
    return .value .nil
  | .isGloballyBound name => Answer.bound <$> EvalM.isGloballyBound name
  | .globalNames => fun env => .value (.names env.globalNames) env
  | .write text => do
    EvalM.write text
    return .done

/-- Carries out an operation.  An exhausted one is taken to leave the environment unchanged. -/
def Operation.take (budget : Nat) (operation : Operation) (env : Environment F) :
    Answer × Environment F :=
  match operation.action budget env with
  | .value a env => (a, env)
  | .failure e env => (.failure e, env)
  | .exhausted => (.exhausted, env)

mutual

def take (budget : Nat) : Step → Environment F → Report × Environment F
  | .single operation, env =>
    let (answer, after) := operation.take budget env
    (.single answer (.between env after), after)
  | .scope bindings steps, env =>
    let (added, frame) := Frame.insertAll (Frame.empty : F) bindings
    let pushed := env.push frame
    let (reports, last) := takeAll budget steps pushed
    let popped := last.pop
    (.scope added pushed.depth (newEvents env pushed) reports (.between last popped), popped)

def takeAll (budget : Nat) : List Step → Environment F → List Report × Environment F
  | [], env => ([], env)
  | step :: steps, env =>
    let (report, env) := take budget step env
    let (reports, env) := takeAll budget steps env
    (report :: reports, env)

end

/-- The reports of a whole session, which starts from a fresh environment and prints to the given
sink. -/
def reportsTo (F : Type) [Frame F] (budget : Nat) (output : Sink) (steps : List Step) :
    List Report :=
  (takeAll budget steps (Environment.fresh output : Environment F)).1

/-- The reports of a session whose sink has the given room and is closed when that is used up. -/
def reports (F : Type) [Frame F] (budget : Nat) (room : Option Nat) (steps : List Step) :
    List Report :=
  reportsTo F budget (.empty room "closed") steps

end Session

end ConsLisp

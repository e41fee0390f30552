import ConsLisp.Proofs.Growth

/-!
# A stack that can run out

In an environment the global frame is kept apart from the frames above it, so there is nothing that
could take it away.  Here all frames are on one stack: the global frame is the one at the bottom, it
is found by its position, and every frame that is taken off might be the last.  A step that cannot be
carried out is a `Fault`, which is not an error of the program that is evaluated: no form reports it,
and there is no stack to go on with.

`StackM` has the primitives of `EvalM` on such a stack, and two more that pick operands out of a list
by position.  `Environment.toStack` lays out the frames of an environment, and `Mirrors` says that an
action on stacks does there what an action on environments does, so it has no fault.
-/

namespace ConsLisp

/-- A step that cannot be carried out. -/
inductive Fault
  /-- So many operands do not reach up to this position. -/
  | noOperand (position count : Nat)
  | integerDivisionByZero
  | noGlobalFrame
  /-- The frame to be taken off is the only one. -/
  | popOfGlobalFrame
  deriving DecidableEq, Repr

/-- All frames on one stack, with what the outside can see of a run. -/
structure Stack (F : Type) where
  /-- The frames in the order in which they were pushed, so that the global one is the first. -/
  frames : List F
  output : Sink
  events : Array Event

namespace Stack

variable {F : Type} [Frame F]

def fresh (output : Sink) : Stack F :=
  ⟨[Frame.empty], output, #[]⟩

def depth (s : Stack F) : Nat :=
  s.frames.length

def record (s : Stack F) (event : Event) : Stack F :=
  { s with events := s.events.push event }

/-- The frame at the bottom. -/
def globals (s : Stack F) : Except Fault F :=
  match s.frames[0]? with
  | some frame => .ok frame
  | none => .error .noGlobalFrame

def setGlobals (s : Stack F) (frame : F) : Stack F :=
  { s with frames := s.frames.set 0 frame }

/-- What a name stands for: the frame that was pushed last and binds it decides. -/
def lookup? (s : Stack F) (name : String) : Option Cell :=
  s.frames.reverse.findSome? fun frame => Frame.find? frame name

def write (s : Stack F) (text : String) : Bool × Stack F :=
  let (taken, output) := s.output.write text
  (taken, { s with output })

def push (s : Stack F) (frame : F) : Stack F :=
  let s := { s with frames := s.frames ++ [frame] }
  s.record (.pushedFrame s.depth)

/-- Takes off the frame that was pushed last, which must not be the global one. -/
def pop (s : Stack F) : Except Fault (Stack F) :=
  if 1 < s.depth then
    let s := { s with frames := s.frames.dropLast }
    .ok (s.record (.poppedFrame s.depth))
  else .error .popOfGlobalFrame

end Stack

/-! ## Actions -/

/-- An action on a stack, which ends as an evaluation does unless there is a fault. -/
def StackM (F A : Type) : Type :=
  Stack F → Except Fault (Outcome (Stack F) A)

namespace StackM

variable {F A B : Type}

protected def pure (a : A) : StackM F A :=
  fun s => .ok (.value a s)

protected def bind (action : StackM F A) (next : A → StackM F B) : StackM F B :=
  fun s =>
    match action s with
    | .ok (.value a s) => next a s
    | .ok (.failure error s) => .ok (.failure error s)
    | .ok .exhausted => .ok .exhausted
    | .error fault => .error fault

instance : Monad (StackM F) where
  pure := StackM.pure
  bind := StackM.bind

theorem bind_apply (action : StackM F A) (next : A → StackM F B) (s : Stack F) :
    (action >>= next) s =
      match action s with
      | .ok (.value a s) => next a s
      | .ok (.failure error s) => .ok (.failure error s)
      | .ok .exhausted => .ok .exhausted
      | .error fault => .error fault := rfl

instance : LawfulMonad (StackM F) :=
  LawfulMonad.mk' (StackM F)
    (fun action => by
      funext s
      show (action >>= pure) s = action s
      rw [bind_apply]
      rcases action s with fault | (_ | _ | _) <;> rfl)
    (fun _ _ => rfl)
    (fun action next last => by
      funext s
      simp only [bind_apply]
      rcases action s with fault | (_ | _ | _) <;> rfl)

def fail (error : EvalError) : StackM F A :=
  fun s => .ok (.failure error s)

def exhausted : StackM F A :=
  fun _ => .ok .exhausted

def ofExcept : Except EvalError A → StackM F A
  | .ok a => pure a
  | .error e => fail e

/-- A step that cannot be carried out ends everything. -/
def ofFault : Except Fault A → StackM F A
  | .ok a => pure a
  | .error fault => fun _ => .error fault

instance : MonadLift (Except EvalError) (StackM F) := ⟨ofExcept⟩

instance : MonadLift (Except Fault) (StackM F) := ⟨ofFault⟩

/-! ## Primitives -/

/-- The operand at a position. -/
def operandAt (operands : List Cell) (position : Nat) : Except Fault Cell :=
  match operands[position]? with
  | some c => .ok c
  | none => .error (.noOperand position operands.length)

/-- All operands from a position on. -/
def operandsFrom (operands : List Cell) (position : Nat) : Except Fault (List Cell) :=
  if position ≤ operands.length then .ok (operands.drop position)
  else .error (.noOperand position operands.length)

variable [Frame F]

/-- The global frame, from where it must be. -/
def globals : StackM F F := fun s => (ofFault s.globals : StackM F F) s

def noteEvaluate (expr : Cell) : StackM F Unit :=
  fun s => .ok (.value () (s.record (.evaluate expr.kind s.depth)))

def lookup (name : String) : StackM F Cell :=
  fun s =>
    match s.lookup? name with
    | some value => .ok (.value value s)
    | none => .ok (.failure (.unboundSymbol name) s)

def isGloballyBound (name : String) : StackM F Bool := do
  return Frame.contains (← globals) name

def globalNames : StackM F (List String) := do
  return Frame.names (← globals)

def define (name : String) (value : Cell) : StackM F Unit := do
  checkBindable name
  let frame ← globals
  fun s =>
    match Frame.insert? frame name value with
    | none => .ok (.failure (.duplicateDefinition name) s)
    | some frame =>
      .ok (.value () ((s.setGlobals frame).record (.definedGlobal name value.kind)))

def write (text : String) : StackM F Unit :=
  fun s =>
    match s.write text with
    | (true, s) => .ok (.value () s)
    | (false, s) => .ok (.failure (.output s.output.refusal) s)

/-- Runs the body of a procedure in a frame of its own, which is taken off again however the body
ends. -/
def inFrame (bindings : List (String × Cell)) (body : StackM F A) : StackM F A :=
  fun s =>
    let frame : F := Frame.ofList bindings
    let s := s.record (.applyingProcedure (Frame.size frame) s.depth)
    match body (s.push frame) with
    | .ok (.value a s) => s.pop.map (.value a)
    | .ok (.failure e s) => s.pop.map (.failure e)
    | .ok .exhausted => .ok .exhausted
    | .error fault => .error fault

end StackM

/-! ## Environments as stacks -/

namespace Environment

variable {F : Type}

/-- The frames of an environment on one stack. -/
def toStack (env : Environment F) : Stack F :=
  ⟨env.globals :: env.locals.reverse, env.output, env.events⟩

theorem toStack_depth (env : Environment F) : env.toStack.depth = env.depth := by
  simp [Stack.depth, toStack, depth]

theorem toStack_push (env : Environment F) (frame : F) :
    (env.push frame).toStack = env.toStack.push frame := by
  simp [push, Stack.push, record, Stack.record, toStack, depth, Stack.depth]

/-- A frame above the global one can be taken off. -/
theorem toStack_pop {env : Environment F} (h : env.locals ≠ []) :
    env.toStack.pop = .ok env.pop.toStack := by
  obtain ⟨globals, locals, output, events⟩ := env
  cases locals with
  | nil => exact absurd rfl h
  | cons frame locals =>
    have hframes : (globals :: (locals.reverse ++ [frame])).dropLast = globals :: locals.reverse := by
      rw [← List.cons_append, List.dropLast_concat]
    simp [Stack.pop, toStack, Stack.depth, Stack.record, pop, record, depth, hframes]

variable [Frame F]

theorem toStack_lookup? (env : Environment F) (name : String) :
    env.toStack.lookup? name = env.lookup? name := by
  simp [Stack.lookup?, toStack, lookup?, List.findSome?_append]

theorem toStack_enter (env : Environment F) (bindings : List (String × Cell)) :
    (env.enter bindings).toStack =
      (env.toStack.record (.applyingProcedure (Frame.size (Frame.ofList bindings : F))
        env.toStack.depth)).push (Frame.ofList bindings) := by
  rw [enter, toStack_push, toStack_depth]
  rfl

end Environment

/-! ## Mirrored actions -/

section Mirrors

variable {F A B : Type}

/-- A run on a stack ends as a run in an environment does, on the stack of its last environment.  So
that the frame of a body can be taken off again, the frames above the global one are those of
`env`. -/
inductive Mirrored (env : Environment F) :
    Except Fault (Outcome (Stack F) A) → Outcome (Environment F) A → Prop
  | value {a} (last) : last.locals = env.locals →
    Mirrored env (.ok (.value a last.toStack)) (.value a last)
  | failure {e} (last) : last.locals = env.locals →
    Mirrored env (.ok (.failure e last.toStack)) (.failure e last)
  | exhausted : Mirrored env (.ok .exhausted) .exhausted

theorem Mirrored.eq_ok {env : Environment F} {r : Except Fault (Outcome (Stack F) A)}
    {o : Outcome (Environment F) A} (h : Mirrored env r o) :
    r = .ok (o.mapState Environment.toStack) := by
  cases h <;> rfl

/-- On the stack of an environment the first action does what the second one does in the
environment, and there is no fault. -/
def Mirrors (x : StackM F A) (y : EvalM F A) : Prop :=
  ∀ env, Mirrored env (x env.toStack) (y env)

namespace Mirrors

theorem pure (a : A) : Mirrors (pure a : StackM F A) (Pure.pure a) :=
  fun _ => .value _ rfl

theorem fail (e : EvalError) : Mirrors (StackM.fail e : StackM F A) (EvalM.fail e) :=
  fun _ => .failure _ rfl

theorem exhausted : Mirrors (StackM.exhausted : StackM F A) EvalM.exhausted :=
  fun _ => .exhausted

theorem lift (check : Except EvalError A) : Mirrors (liftM check : StackM F A) (liftM check) := by
  cases check with
  | ok a => exact pure a
  | error e => exact fail e

theorem bind {x : StackM F A} {y : EvalM F A} {f : A → StackM F B} {g : A → EvalM F B}
    (h : Mirrors x y) (hf : ∀ a, Mirrors (f a) (g a)) : Mirrors (x >>= f) (y >>= g) := by
  intro env
  have hmid := h env
  rw [StackM.bind_apply, EvalM.bind_apply]
  generalize x env.toStack = r, y env = o at hmid
  cases hmid with
  | @value a mid hlocals =>
    have hlast := hf a mid
    dsimp only
    generalize f a mid.toStack = r, g a mid = o at hlast
    cases hlast with
    | value last h => exact .value last (h.trans hlocals)
    | failure last h => exact .failure last (h.trans hlocals)
    | exhausted => exact .exhausted
  | failure _ hlocals => exact .failure _ hlocals
  | exhausted => exact .exhausted

theorem map (f : A → B) {x : StackM F A} {y : EvalM F A} (h : Mirrors x y) :
    Mirrors (f <$> x) (f <$> y) := by
  rw [← bind_pure_comp, ← bind_pure_comp]
  exact bind h fun a => pure (f a)

theorem mapM {f : A → StackM F B} {g : A → EvalM F B} (h : ∀ a, Mirrors (f a) (g a)) (xs : List A) :
    Mirrors (xs.mapM f) (xs.mapM g) := by
  induction xs with
  | nil => exact pure []
  | cons x xs ih =>
    rw [List.mapM_cons, List.mapM_cons]
    exact bind (h x) fun y => bind ih fun ys => pure (y :: ys)

theorem mapM_lift {f : A → StackM F B} {check : A → Except EvalError B}
    (h : ∀ a, Mirrors (f a) (liftM (check a))) (xs : List A) :
    Mirrors (xs.mapM f) (liftM (xs.mapM check)) := by
  induction xs with
  | nil => exact pure []
  | cons x xs ih =>
    have hcons : (liftM ((x :: xs).mapM check) : EvalM F (List B)) =
        liftM (check x) >>= fun y => liftM (xs.mapM check) >>= fun ys => Pure.pure (y :: ys) := by
      rw [List.mapM_cons]
      cases check x with
      | error e => rfl
      | ok y => cases xs.mapM check <;> rfl
    rw [List.mapM_cons, hcons]
    exact bind (h x) fun y => bind ih fun ys => pure (y :: ys)

theorem foldlM {f : B → A → StackM F B} {g : B → A → EvalM F B}
    (h : ∀ b a, Mirrors (f b a) (g b a)) (start : B) (xs : List A) :
    Mirrors (xs.foldlM f start) (xs.foldlM g start) := by
  induction xs generalizing start with
  | nil => exact pure start
  | cons x xs ih =>
    rw [List.foldlM_cons, List.foldlM_cons]
    exact bind (h start x) ih

/-- An operand that is there is picked without a fault. -/
theorem operandAt {operands : List Cell} {position : Nat} {c : Cell}
    (hc : operands[position]? = some c) {f : Cell → StackM F A} {y : EvalM F A}
    (h : Mirrors (f c) y) : Mirrors (liftM (StackM.operandAt operands position) >>= f) y := by
  have hat : StackM.operandAt operands position = .ok c := by
    rw [StackM.operandAt, hc]
  rw [hat]
  exact h

theorem operandsFrom {operands : List Cell} {position : Nat} (hle : position ≤ operands.length)
    {f : List Cell → StackM F A} {y : EvalM F A} (h : Mirrors (f (operands.drop position)) y) :
    Mirrors (liftM (StackM.operandsFrom operands position) >>= f) y := by
  have hfrom : StackM.operandsFrom operands position = .ok (operands.drop position) :=
    if_pos hle
  rw [hfrom]
  exact h

/-! ### Primitives -/

theorem noteEvaluate (expr : Cell) :
    Mirrors (StackM.noteEvaluate expr : StackM F Unit) (EvalM.noteEvaluate expr) := by
  intro env
  rw [StackM.noteEvaluate, env.toStack_depth]
  exact .value (env.record _) rfl

theorem write (text : String) : Mirrors (StackM.write text : StackM F Unit) (EvalM.write text) := by
  intro env
  have houtput : env.toStack.output = env.output := rfl
  unfold StackM.write EvalM.write Stack.write Environment.write
  rw [houtput]
  rcases env.output.write text with ⟨_ | _, output⟩
  · exact .failure { env with output } rfl
  · exact .value { env with output } rfl

variable [Frame F]

theorem lookup (name : String) :
    Mirrors (StackM.lookup name : StackM F Cell) (EvalM.lookup name) := by
  intro env
  rw [StackM.lookup, EvalM.lookup, env.toStack_lookup?]
  cases env.lookup? name with
  | some value => exact .value _ rfl
  | none => exact .failure _ rfl

theorem isGloballyBound (name : String) :
    Mirrors (StackM.isGloballyBound name : StackM F Bool) (EvalM.isGloballyBound name) :=
  fun _ => .value _ rfl

theorem globalNames :
    Mirrors (StackM.globalNames : StackM F (List String)) fun env => .value env.globalNames env :=
  fun _ => .value _ rfl

/-- A definition goes to the frame at the bottom of the stack, whatever is above it. -/
theorem define (name : String) (value : Cell) :
    Mirrors (StackM.define name value : StackM F Unit) (EvalM.define name value) := by
  intro env
  unfold StackM.define EvalM.define
  cases hname : Operator.isReserved name with
  | true =>
    have hcheck : checkBindable name = .error (.reservedName name) := if_pos hname
    rw [env.define?_of_isReserved value hname, hcheck]
    exact .failure env rfl
  | false =>
    rw [checkBindable_of_not_isReserved hname]
    show Mirrored env (match Frame.insert? env.globals name value with | none => _ | some _ => _) _
    obtain ⟨globals, hinsert, hdefine⟩ | ⟨hnone, hdefine⟩ := env.define?_cases value hname
    · rw [hinsert, hdefine]
      refine .value ({ env with globals }.record (.definedGlobal name value.kind)) ?_
      rfl
    · rw [hnone, hdefine]
      exact .failure env rfl

/-- The frame of a body is still there when the body has ended, so that it is not the global frame
that is taken off. -/
theorem inFrame {bindings : List (String × Cell)} {x : StackM F A} {y : EvalM F A}
    (h : Mirrors x y) : Mirrors (StackM.inFrame bindings x) (EvalM.inFrame bindings y) := by
  intro env
  have hbody := h (env.enter bindings)
  have hpop {last : Environment F} (hlast : last.locals = (env.enter bindings).locals) :
      last.toStack.pop = .ok last.pop.toStack ∧ last.pop.locals = env.locals := by
    refine ⟨Environment.toStack_pop ?_, congrArg List.tail hlast⟩
    rw [hlast]
    exact List.cons_ne_nil _ _
  rw [Environment.toStack_enter] at hbody
  rw [Environment.inFrame_apply]
  unfold StackM.inFrame
  dsimp only
  generalize x _ = r, y _ = o at hbody
  cases hbody with
  | value _ hlast =>
    obtain ⟨hpopped, hlocals⟩ := hpop hlast
    dsimp only
    rw [hpopped]
    exact .value _ hlocals
  | failure _ hlast =>
    obtain ⟨hpopped, hlocals⟩ := hpop hlast
    dsimp only
    rw [hpopped]
    exact .failure _ hlocals
  | exhausted => exact .exhausted

end Mirrors

end Mirrors

end ConsLisp

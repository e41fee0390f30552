import ConsLisp.Frame.Containers
import ConsLisp.Proofs.Mirroring
import ConsLisp.Proofs.Points

/-!
# Sessions without faults

A session is carried out on a stack from point to point as it is in an environment, but now a move
may be a fault: that of an operation, or of closing a scope when only the global frame is left.
As long as the stack of a session holds the global frame and one frame for each open scope, no move
is one (`Session.Point.next?_toStack`).  So a session on a stack only comes to points that mirror
points of the session, and from there every run mirrors a run (`Positional.run_mirrors`).
-/

namespace ConsLisp

variable {F : Type} [Frame F]

namespace Positional

theorem evaluate_run_mirrors (budget : Nat) (expr : Cell) :
    Mirrors (evaluate (run budget) expr : StackM F Cell) (ConsLisp.evaluate budget expr) :=
  evaluate_mirrors (run_mirrors budget) expr

theorem dispatch_run_mirrors (budget : Nat) (op : Operator) (args : Cell) :
    Mirrors (run budget (.dispatch op args) : StackM F Cell) (ConsLisp.dispatch budget op args) :=
  run_mirrors budget (.dispatch op args)

end Positional

namespace Session

/-! ## Operations on a stack -/

def Operation.actionOnStack (budget : Nat) : Operation → StackM F Answer
  | .evaluate expr => Answer.value <$> Positional.evaluate (Positional.run budget) expr
  | .dispatch op args => Answer.value <$> Positional.run budget (.dispatch op args)
  | .lookup name => Answer.value <$> StackM.lookup name
  | .define name value => do
    StackM.define name value
    return .value .nil
  | .isGloballyBound name => Answer.bound <$> StackM.isGloballyBound name
  | .globalNames => Answer.names <$> StackM.globalNames
  | .write text => do
    StackM.write text
    return .done

/-- Carries out an operation on a stack, which an exhausted one leaves unchanged. -/
def Operation.takeOnStack (budget : Nat) (operation : Operation) (s : Stack F) :
    Except Fault (Answer × Stack F) :=
  match operation.actionOnStack budget s with
  | .ok (.value a s) => .ok (a, s)
  | .ok (.failure e s) => .ok (.failure e, s)
  | .ok .exhausted => .ok (.exhausted, s)
  | .error fault => .error fault

theorem Operation.actionOnStack_mirrors (budget : Nat) (operation : Operation) :
    Mirrors (operation.actionOnStack budget : StackM F Answer) (operation.action budget) := by
  cases operation with
  | evaluate expr => exact .map _ (Positional.evaluate_run_mirrors budget expr)
  | dispatch op args => exact .map _ (Positional.dispatch_run_mirrors budget op args)
  | lookup name => exact .map _ (.lookup name)
  | define name value => exact .bind (.define name value) fun _ => .pure _
  | isGloballyBound name => exact .map _ (.isGloballyBound name)
  | globalNames => exact .map Answer.names .globalNames
  | write text => exact .bind (.write text) fun _ => .pure _

theorem Operation.takeOnStack_toStack (budget : Nat) (operation : Operation)
    (env : Environment F) :
    operation.takeOnStack budget env.toStack =
      .ok ((operation.take budget env).1, (operation.take budget env).2.toStack) := by
  have haction := (operation.actionOnStack_mirrors budget env).eq_ok
  rw [takeOnStack, take, haction]
  cases operation.action budget env <;> rfl

/-! ## Points on a stack -/

/-- A moment of a session that is carried out on a stack. -/
structure StackPoint (F : Type) where
  stack : Stack F
  /-- The steps to come in every open scope, as for a `Point`. -/
  todo : List (List Step)

namespace StackPoint

def start (output : Sink) (steps : List Step) : StackPoint F :=
  ⟨Stack.fresh output, [steps]⟩

/-- The next point, unless the session is over or there is a fault. -/
def next? (budget : Nat) : StackPoint F → Option (Except Fault (StackPoint F))
  | ⟨s, (.single operation :: steps) :: outer⟩ =>
    some ((operation.takeOnStack budget s).map fun taken => ⟨taken.2, steps :: outer⟩)
  | ⟨s, (.scope bindings inner :: steps) :: outer⟩ =>
    some (.ok ⟨s.push (Frame.ofList bindings), inner :: steps :: outer⟩)
  | ⟨s, [] :: steps :: outer⟩ => some (s.pop.map fun popped => ⟨popped, steps :: outer⟩)
  | ⟨_, [[]]⟩ => none
  | ⟨_, []⟩ => none

/-- The second point is the first one or comes later. -/
def Leads (budget : Nat) : StackPoint F → StackPoint F → Prop :=
  Relation.ReflTransGen fun now next => now.next? budget = some (.ok next)

end StackPoint

namespace Point

/-- The same moment on a stack. -/
def toStack (now : Point F) : StackPoint F :=
  ⟨now.env.toStack, now.todo⟩

/-- A session goes on without a fault while there is a frame for each open scope. -/
theorem next?_toStack (budget : Nat) {now : Point F} (h : now.env.depth = now.todo.length) :
    now.toStack.next? budget = (now.next? budget).map fun next => .ok next.toStack := by
  obtain ⟨env, todo⟩ := now
  match todo, h with
  | (.single operation :: steps) :: outer, _ =>
    have htake := operation.takeOnStack_toStack budget env
    show some (Except.map _ (operation.takeOnStack budget env.toStack)) = _
    rw [htake]
    rfl
  | (.scope bindings inner :: steps) :: outer, _ =>
    show some (Except.ok (StackPoint.mk (env.toStack.push (Frame.ofList bindings)) _)) = _
    rw [← env.toStack_push]
    rfl
  | [] :: steps :: outer, h =>
    have hlocals : env.locals ≠ [] := by
      intro hnil
      simp [Environment.depth, hnil] at h
    show some (Except.map _ env.toStack.pop) = _
    rw [Environment.toStack_pop hlocals]
    rfl
  | [[]], _ => rfl
  | [], _ => rfl

end Point

section Leads

variable {budget : Nat} {output : Sink} {steps : List Step}

/-- A session comes to the same points on a stack. -/
theorem Point.Leads.toStack {now : Point F} (h : (Point.start output steps).Leads budget now) :
    (StackPoint.start output steps).Leads budget now.toStack := by
  induction h with
  | refl => exact .refl
  | @tail mid next hmid hnext ih =>
    refine ih.tail ?_
    rw [Point.next?_toStack budget (Point.Leads.depth_eq hmid), hnext]
    rfl

/-- On a stack a session comes to no other points. -/
theorem StackPoint.Leads.exists_point {s : StackPoint F}
    (h : (StackPoint.start output steps).Leads budget s) :
    ∃ now : Point F, (Point.start output steps).Leads budget now ∧ now.toStack = s := by
  induction h with
  | refl => exact ⟨Point.start output steps, .refl, rfl⟩
  | tail _ hnext ih =>
    obtain ⟨mid, hmid, rfl⟩ := ih
    rw [Point.next?_toStack budget hmid.depth_eq] at hnext
    obtain ⟨next, hmove, hlast⟩ := Option.map_eq_some_iff.1 hnext
    exact ⟨next, hmid.tail hmove, Except.ok.inj hlast⟩

end Leads

/-! ## No faults -/

/-- At this point the stack holds the global frame and one frame for each open scope.  There is no
fault in the next move of the session, and none in any run that is begun here, which does what the
run in the environment of the session does. -/
structure StackPoint.FaultFree (budget : Nat) (s : StackPoint F) (now : Point F) : Prop where
  eq_toStack : s = now.toStack
  depth_eq : s.stack.depth = s.todo.length
  globals_eq : s.stack.globals = .ok now.env.globals
  next?_ok : ∀ r, s.next? budget = some r → ∃ later, r = .ok later
  evaluate : ∀ (fuel : Nat) (expr : Cell), Mirrored now.env
    (Positional.evaluate (Positional.run fuel) expr s.stack) (ConsLisp.evaluate fuel expr now.env)
  dispatch : ∀ (fuel : Nat) (op : Operator) (args : Cell), Mirrored now.env
    (Positional.run fuel (.dispatch op args) s.stack) (ConsLisp.dispatch fuel op args now.env)

theorem Point.Leads.faultFree {budget : Nat} {output : Sink} {steps : List Step}
    {now : Point F} (h : (Point.start output steps).Leads budget now) :
    now.toStack.FaultFree budget now where
  eq_toStack := rfl
  depth_eq := now.env.toStack_depth.trans h.depth_eq
  globals_eq := rfl
  next?_ok r hr := by
    rw [Point.next?_toStack budget h.depth_eq] at hr
    obtain ⟨next, -, hnext⟩ := Option.map_eq_some_iff.1 hr
    exact ⟨next.toStack, hnext.symm⟩
  evaluate fuel expr := Positional.evaluate_run_mirrors fuel expr now.env
  dispatch fuel op args := Positional.dispatch_run_mirrors fuel op args now.env

/-- **No input leads to a fault.**  A session on a stack goes through the points of the session, and
at each of them neither its next move nor any run that is begun there asks for an operand or a frame
that is missing, divides an integer by zero or takes off the global frame. -/
theorem no_input_leads_to_fault (budget : Nat) (output : Sink) (steps : List Step) :
    (∀ now : Point F, (Point.start output steps).Leads budget now →
      (StackPoint.start output steps).Leads budget now.toStack) ∧
    ∀ s : StackPoint F, (StackPoint.start output steps).Leads budget s →
      ∃ now : Point F, (Point.start output steps).Leads budget now ∧ s.FaultFree budget now := by
  refine ⟨fun now hnow => hnow.toStack, fun s hs => ?_⟩
  obtain ⟨now, hnow, rfl⟩ := hs.exists_point
  exact ⟨now, hnow, hnow.faultFree⟩

/-- In a scope, a product that wraps to zero is a divisor, and after that the operands are too few
for a division at all. -/
theorem no_input_leads_to_fault_at_wrapped_divisor :
    let wrapped : Cell := .ofList [.symbol "*", .integer 4294967296, .integer 4294967296]
    let steps : List Step := [.scope [("x", .integer 0)]
      [.single (.evaluate (.ofList [.symbol "/", .integer 7, wrapped]))]]
    let s : StackPoint OrderedFrame :=
      ⟨(Stack.fresh .unlimited).push (Frame.ofList [("x", .integer 0)]),
        [[.single (.evaluate (.ofList [.symbol "/", .integer 7, wrapped]))], []]⟩
    (StackPoint.start .unlimited steps).Leads 4 s ∧
      ∃ now : Point OrderedFrame, s.FaultFree 4 now ∧ s.stack.depth = 2 ∧
        (∃ last, Positional.evaluate (Positional.run 4)
            (.ofList [.symbol "/", .integer 7, wrapped]) s.stack =
          .ok (.failure .divideByZero last)) ∧
        ∃ last, Positional.run 1 (.dispatch .div .nil) s.stack =
          .ok (.failure (.arityMismatch (.builtin .div) (.atLeast 1) 0) last) := by
  intro wrapped steps s
  have hleads : (StackPoint.start .unlimited steps).Leads 4 s := .single rfl
  obtain ⟨now, -, hfree⟩ := (no_input_leads_to_fault 4 .unlimited steps).2 s hleads
  exact ⟨hleads, now, hfree, rfl, ⟨_, rfl⟩, ⟨_, rfl⟩⟩

end Session

end ConsLisp

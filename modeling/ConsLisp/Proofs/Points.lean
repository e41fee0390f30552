import ConsLisp.Proofs.Simulation
import ConsLisp.Proofs.StackDiscipline
import ConsLisp.Session
import Mathlib.Logic.Relation

/-!
# Sessions point by point

`Session.takeAll` says where a list of steps ends.  To speak of the way there, a session is cut into
points, each of which is an environment with the steps that are still to be taken in every open
scope.  `Session.Point.next?` goes from one point to the next: it carries out an operation, opens a
scope or closes one.  `Session.leads_takeAll` says that the points lead to where the session ends.
What a host is answered on the way is what the environment has to say (`Session.Operation.take_lookup`
and the lemmas beside it).

What holds of a host's operations is concluded from what holds of every evaluation
(`ClosedForHost.action`), so a session keeps the stack as runs do (`Session.take_locals`), and a
simulation goes along with it from point to point (`Environment.Simulation.next?`).
-/

namespace ConsLisp

variable {F G : Type} [Frame F] [Frame G]

/-! ## Operations -/

/-- A closed relation that also holds between what only a host does, who may define, look up and
ask for any name, and may list all of them. -/
structure ClosedForHost (R : ActionRel F G) : Prop extends Closed (fun _ => True) R where
  lookupAny_rel (name : String) : R (fun _ => True) (EvalM.lookup name) (EvalM.lookup name)
  define_rel (name : String) (value : Cell) :
    R (fun _ => True) (EvalM.define name value) (EvalM.define name value)
  isGloballyBound_rel (name : String) :
    R (fun _ => True) (EvalM.isGloballyBound name) (EvalM.isGloballyBound name)
  globalNames_rel :
    R (fun _ => True) (fun env => .value env.globalNames env) (fun env => .value env.globalNames env)

open Session in
theorem ClosedForHost.action {R : ActionRel F G} (hR : ClosedForHost R) (budget : Nat)
    (operation : Operation) :
    R (fun _ => True) (operation.action budget) (operation.action budget) := by
  have hmap {A : Type} {Q : A → Prop} {x : EvalM F A} {y : EvalM G A} (h : R Q x y)
      (f : A → Answer) : R (fun _ => True) (f <$> x) (f <$> y) := by
    rw [← bind_pure_comp, ← bind_pure_comp]
    exact hR.bind_rel h fun _ _ => hR.pure_rel trivial
  cases operation with
  | evaluate expr => exact hmap (hR.evaluate_run .all budget (.inl trivial)) _
  | dispatch op args => exact hmap (hR.dispatch_run .all budget trivial) _
  | lookup name => exact hmap (hR.lookupAny_rel name) _
  | define name value =>
    exact hR.bind_rel (hR.define_rel name value) fun _ _ => hR.pure_rel trivial
  | isGloballyBound name => exact hmap (hR.isGloballyBound_rel name) _
  | globalNames => exact hmap hR.globalNames_rel Answer.names
  | write text => exact hR.bind_rel (hR.write_rel text) fun _ _ => hR.pure_rel trivial

theorem KeepsStack.closedForHost (base : List F) : ClosedForHost (KeepsStack base) where
  toClosed := closed base
  lookupAny_rel := lookup
  define_rel := define
  isGloballyBound_rel _ env _ := ⟨rfl, trivial, .refl env⟩
  globalNames_rel env _ := ⟨rfl, trivial, .refl env⟩

theorem Environment.Simulation.closedForHost [LawfulFrame F] [LawfulFrame G]
    {rel : Environment F → Environment G → Prop} (hrel : Environment.Simulation rel) :
    ClosedForHost (Simulates rel) where
  toClosed := hrel.closed
  lookupAny_rel := Simulates.lookup hrel
  define_rel := Simulates.define hrel
  isGloballyBound_rel := Simulates.isGloballyBound hrel
  globalNames_rel env env' h := by
    show Outcome.Same _ rel (.value env.globalNames env) (.value env'.globalNames env')
    rw [hrel.globalNames_eq h]
    exact .value trivial h

namespace Session

theorem Operation.take_grows (budget : Nat) (operation : Operation) (env : Environment F) :
    env.Grows (operation.take budget env).2 := by
  have hends := ((KeepsStack.closedForHost []).action budget operation env List.nil_suffix).2
  unfold Operation.take
  cases haction : operation.action budget env with
  | value a last =>
    rw [haction] at hends
    exact hends.2
  | failure e last =>
    rw [haction] at hends
    exact hends
  | exhausted => exact .refl env

/-- An operation has the same answer in related environments, and leaves related ones behind. -/
theorem Operation.take_related [LawfulFrame F] [LawfulFrame G]
    {rel : Environment F → Environment G → Prop} (hrel : Environment.Simulation rel) (budget : Nat)
    (operation : Operation) {env : Environment F} {env' : Environment G} (h : rel env env') :
    (operation.take budget env).1 = (operation.take budget env').1 ∧
      rel (operation.take budget env).2 (operation.take budget env').2 := by
  have hsame := hrel.closedForHost.action budget operation env env' h
  unfold Operation.take
  generalize operation.action budget env = o, operation.action budget env' = o' at hsame
  cases hsame with
  | value _ hlast => exact ⟨rfl, hlast⟩
  | failure hlast => exact ⟨rfl, hlast⟩
  | exhausted => exact ⟨rfl, h⟩

/-! ### Answers -/

section Answers

variable {budget : Nat} {name : String} {value : Cell} {env last : Environment F}

/-- A definition has nothing to say beyond that it succeeded, or why it did not. -/
theorem Operation.take_define_of_value (h : EvalM.define name value env = .value () last) :
    (Operation.define name value).take budget env = (.value .nil, last) := by
  rw [take, action, EvalM.bind_of_value h]
  rfl

theorem Operation.take_define_of_failure {e : EvalError}
    (h : EvalM.define name value env = .failure e last) :
    (Operation.define name value).take budget env = (.failure e, last) := by
  rw [take, action, EvalM.bind_of_failure h]

/-- Whoever looks up a name changes nothing. -/
theorem Operation.take_lookup (budget : Nat) (name : String) (env : Environment F) :
    (Operation.lookup name).take budget env =
      ((env.lookup? name).elim (.failure (.unboundSymbol name)) .value, env) := by
  rw [take, action, ← bind_pure_comp, EvalM.bind_apply, EvalM.lookup]
  cases env.lookup? name <;> rfl

theorem Operation.take_isGloballyBound (budget : Nat) (name : String) (env : Environment F) :
    (Operation.isGloballyBound name).take budget env =
      (.bound (env.isGloballyBound name), env) := rfl

theorem Operation.take_globalNames (budget : Nat) (env : Environment F) :
    Operation.globalNames.take budget env = (.names env.globalNames, env) := rfl

end Answers

/-! ## Steps -/

mutual

/-- After a step the stack is what it was before it. -/
theorem take_locals (budget : Nat) :
    ∀ (step : Step) (env : Environment F), (take budget step env).2.locals = env.locals
  | .single operation, env => (operation.take_grows budget env).locals_eq
  | .scope bindings steps, env =>
    congrArg List.tail (takeAll_locals budget steps (env.push (Frame.ofList bindings)))

theorem takeAll_locals (budget : Nat) :
    ∀ (steps : List Step) (env : Environment F), (takeAll budget steps env).2.locals = env.locals
  | [], _ => rfl
  | step :: steps, env =>
    (takeAll_locals budget steps (take budget step env).2).trans (take_locals budget step env)

end

theorem take_depth (budget : Nat) (step : Step) (env : Environment F) :
    (take budget step env).2.depth = env.depth := by
  rw [Environment.depth, Environment.depth, take_locals]

/-! ## Points -/

/-- A moment of a session between two of its moves. -/
structure Point (F : Type) where
  env : Environment F
  /-- The steps to come in every open scope, the innermost first.  The last list is that of the
  session itself. -/
  todo : List (List Step)

namespace Point

/-- The beginning of a session. -/
def start (output : Sink) (steps : List Step) : Point F :=
  ⟨Environment.fresh output, [steps]⟩

/-- The next point, unless the session is over.  A scope is closed when nothing is left to do in
it. -/
def next? (budget : Nat) : Point F → Option (Point F)
  | ⟨env, (.single operation :: steps) :: outer⟩ =>
    some ⟨(operation.take budget env).2, steps :: outer⟩
  | ⟨env, (.scope bindings inner :: steps) :: outer⟩ =>
    some ⟨env.push (Frame.ofList bindings), inner :: steps :: outer⟩
  | ⟨env, [] :: steps :: outer⟩ => some ⟨env.pop, steps :: outer⟩
  | ⟨_, [[]]⟩ => none
  | ⟨_, []⟩ => none

/-- The second point is the first one or comes later. -/
def Leads (budget : Nat) : Point F → Point F → Prop :=
  Relation.ReflTransGen fun now next => now.next? budget = some next

end Point

mutual

theorem leads_take (budget : Nat) : ∀ (step : Step) (env : Environment F) (steps : List Step)
    (outer : List (List Step)),
      Point.Leads budget ⟨env, (step :: steps) :: outer⟩ ⟨(take budget step env).2, steps :: outer⟩
  | .single _, _, _, _ => .single rfl
  | .scope bindings inner, env, steps, outer =>
    .tail (.head rfl (leads_takeAll budget inner (env.push (Frame.ofList bindings)) (steps :: outer)))
      rfl

/-- Taking all steps is one of the points on the way. -/
theorem leads_takeAll (budget : Nat) : ∀ (steps : List Step) (env : Environment F)
    (outer : List (List Step)),
      Point.Leads budget ⟨env, steps :: outer⟩ ⟨(takeAll budget steps env).2, [] :: outer⟩
  | [], _, _ => .refl
  | step :: steps, env, outer =>
    (leads_take budget step env steps outer).trans
      (leads_takeAll budget steps (take budget step env).2 outer)

end

namespace Point

/-- The frames of the open scopes are on the stack, and no others. -/
theorem depth_of_next? {budget : Nat} {now next : Point F} (hnext : now.next? budget = some next)
    (h : now.env.depth = now.todo.length) : next.env.depth = next.todo.length := by
  obtain ⟨env, todo⟩ := now
  match todo, h with
  | (.single operation :: steps) :: outer, h =>
    obtain rfl := Option.some.inj hnext
    rw [← take_depth budget (.single operation) env] at h
    exact h
  | (.scope bindings inner :: steps) :: outer, h =>
    obtain rfl := Option.some.inj hnext
    exact congrArg (· + 1) h
  | [] :: steps :: outer, h =>
    obtain rfl := Option.some.inj hnext
    simp only [Environment.depth, List.length_cons] at h
    simp only [Environment.depth, Environment.pop, Environment.record, List.length_tail,
      List.length_cons]
    omega
  | [[]], _ => cases hnext
  | [], _ => cases hnext

theorem Leads.depth_eq {budget : Nat} {output : Sink} {steps : List Step} {now : Point F}
    (h : (start output steps).Leads budget now) : now.env.depth = now.todo.length := by
  induction h with
  | refl => rfl
  | tail _ hnext ih => exact depth_of_next? hnext ih

/-- The same steps are to be taken in related environments. -/
structure Related (rel : Environment F → Environment G → Prop) (now : Point F) (now' : Point G) :
    Prop where
  env : rel now.env now'.env
  todo_eq : now.todo = now'.todo

end Point

end Session

open Session

namespace Environment.Simulation

variable [LawfulFrame F] [LawfulFrame G] {rel : Environment F → Environment G → Prop}
  (hrel : Environment.Simulation rel)

include hrel

/-- Related points are followed by related points. -/
theorem next? (budget : Nat) {now : Point F} {now' : Point G} (h : now.Related rel now') :
    Option.Rel (Point.Related rel) (now.next? budget) (now'.next? budget) := by
  obtain ⟨env, todo⟩ := now
  obtain ⟨env', todo'⟩ := now'
  obtain ⟨henv, rfl⟩ := h
  match todo with
  | (.single operation :: steps) :: outer =>
    exact .some ⟨(operation.take_related hrel budget henv).2, rfl⟩
  | (.scope bindings inner :: steps) :: outer => exact .some ⟨hrel.push henv bindings, rfl⟩
  | [] :: steps :: outer => exact .some ⟨hrel.pop henv, rfl⟩
  | [[]] => exact .none
  | [] => exact .none

theorem leads {budget : Nat} {now later : Point F} {now' : Point G} (h : now.Related rel now')
    (hleads : now.Leads budget later) : ∃ later', now'.Leads budget later' ∧
      later.Related rel later' := by
  induction hleads with
  | refl => exact ⟨now', .refl, h⟩
  | tail _ hnext ih =>
    obtain ⟨mid', hmid', hrelated⟩ := ih
    have hrel := hrel.next? budget hrelated
    rw [hnext] at hrel
    generalize hnext' : mid'.next? budget = o at hrel
    cases hrel with
    | some hlast => exact ⟨_, hmid'.tail hnext', hlast⟩

end Environment.Simulation

end ConsLisp

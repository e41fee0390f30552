import ConsLisp.Environment

/-!
# Evaluation actions

An evaluation reads and extends an environment and ends in one of three ways: with a value, with
an error, or because its budget of nested evaluations is used up.  The first two leave an
environment behind, so that what happened before an error is not undone.  An exhausted run leaves
nothing, since nothing may be concluded from it.

All access to the environment goes through the primitives of this module.  Builtins and procedure
application are put together from them, and what holds for every primitive and is kept by
sequencing holds for every evaluation.
-/

namespace ConsLisp

inductive Outcome (S A : Type)
  | value (a : A) (state : S)
  | failure (error : EvalError) (state : S)
  | exhausted

def EvalM (F A : Type) : Type :=
  Environment F → Outcome (Environment F) A

namespace EvalM

variable {F A B : Type}

/-- Yields a value and leaves the environment alone. -/
protected def pure (a : A) : EvalM F A :=
  fun env => .value a env

/-- Goes on with the value of `action`; an error or exhaustion ends the whole. -/
protected def bind (action : EvalM F A) (next : A → EvalM F B) : EvalM F B :=
  fun env =>
    match action env with
    | .value a env => next a env
    | .failure error env => .failure error env
    | .exhausted => .exhausted

instance : Monad (EvalM F) where
  pure := EvalM.pure
  bind := EvalM.bind

def fail (error : EvalError) : EvalM F A :=
  fun env => .failure error env

def exhausted : EvalM F A :=
  fun _ => .exhausted

/-- A check that does not depend on the environment. -/
def ofExcept : Except EvalError A → EvalM F A
  | .ok a => pure a
  | .error e => fail e

instance : MonadLift (Except EvalError) (EvalM F) := ⟨ofExcept⟩

/-! ## Sequencing, by how the first action ends -/

theorem pure_apply (a : A) (env : Environment F) : (pure a : EvalM F A) env = .value a env := rfl

theorem fail_apply (e : EvalError) (env : Environment F) :
    (fail e : EvalM F A) env = .failure e env := rfl

theorem bind_apply (action : EvalM F A) (next : A → EvalM F B) (env : Environment F) :
    (action >>= next) env =
      match action env with
      | .value a env => next a env
      | .failure error env => .failure error env
      | .exhausted => .exhausted := rfl

theorem bind_of_value {action : EvalM F A} {next : A → EvalM F B} {env env' : Environment F} {a : A}
    (h : action env = .value a env') : (action >>= next) env = next a env' := by
  rw [bind_apply, h]

theorem bind_of_failure {action : EvalM F A} {next : A → EvalM F B} {env env' : Environment F}
    {e : EvalError} (h : action env = .failure e env') :
    (action >>= next) env = .failure e env' := by
  rw [bind_apply, h]

theorem bind_of_exhausted {action : EvalM F A} {next : A → EvalM F B} {env : Environment F}
    (h : action env = .exhausted) : (action >>= next) env = .exhausted := by
  rw [bind_apply, h]

theorem bind_eq_value_iff {action : EvalM F A} {next : A → EvalM F B} {env last : Environment F}
    {b : B} : (action >>= next) env = .value b last ↔
      ∃ a mid, action env = .value a mid ∧ next a mid = .value b last := by
  rw [bind_apply]
  constructor
  · intro h
    cases hx : action env with
    | value a mid => exact ⟨a, mid, rfl, by rwa [hx] at h⟩
    | failure e mid =>
      rw [hx] at h
      cases h
    | exhausted =>
      rw [hx] at h
      cases h
  · rintro ⟨a, mid, hx, h⟩
    rwa [hx]

theorem bind_pure_eq (action : EvalM F A) : (action >>= fun a => pure a) = action := by
  funext env
  rw [bind_apply]
  cases action env <;> rfl

theorem bind_bind_eq {C : Type} (action : EvalM F A) (next : A → EvalM F B)
    (last : B → EvalM F C) :
    (action >>= next) >>= last = action >>= fun a => next a >>= last := by
  funext env
  simp only [bind_apply]
  cases action env <;> rfl

instance : LawfulMonad (EvalM F) :=
  LawfulMonad.mk' (EvalM F) (fun action => bind_pure_eq action) (fun _ _ => rfl)
    (fun action next last => bind_bind_eq action next last)

theorem check_of_ok {check : Except EvalError A} {a : A} (h : check = .ok a)
    (next : A → EvalM F B) : ((liftM check : EvalM F A) >>= next) = next a := by
  rw [h]
  rfl

theorem check_of_error {check : Except EvalError A} {e : EvalError} (h : check = .error e)
    (next : A → EvalM F B) (env : Environment F) :
    ((liftM check : EvalM F A) >>= next) env = .failure e env := by
  rw [h]
  rfl

/-! ## Primitives -/

variable [Frame F]

/-- Notes that the evaluation of an expression begins. -/
def noteEvaluate (expr : Cell) : EvalM F Unit :=
  fun env => .value () (env.record (.evaluate expr.kind env.depth))

def lookup (name : String) : EvalM F Cell :=
  fun env =>
    match env.lookup? name with
    | some value => .value value env
    | none => .failure (.unboundSymbol name) env

def isGloballyBound (name : String) : EvalM F Bool :=
  fun env => .value (env.isGloballyBound name) env

def define (name : String) (value : Cell) : EvalM F Unit :=
  fun env =>
    match env.define? name value with
    | .ok env => .value () env
    | .error e => .failure e env

/-- Prints a text.  What the sink took of a text that does not fit stays printed, and the error is
what the sink says for itself. -/
def write (text : String) : EvalM F Unit :=
  fun env =>
    match env.write text with
    | (true, env) => .value () env
    | (false, env) => .failure (.output env.output.refusal) env

/-- Runs the body of a procedure in a frame of its own, which is taken off again however the body
ends. -/
def inFrame (bindings : List (String × Cell)) (body : EvalM F A) : EvalM F A :=
  fun env =>
    let frame : F := Frame.ofList bindings
    let env := env.record (.applyingProcedure (Frame.size frame) env.depth)
    match body (env.push frame) with
    | .value a env => .value a env.pop
    | .failure e env => .failure e env.pop
    | .exhausted => .exhausted

end EvalM

end ConsLisp

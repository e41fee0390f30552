import ConsLisp.Frame.Containers
import ConsLisp.Proofs.MalformedCalls

/-!
# Definitions are all or nothing

A definition looks at its name twice: before its expression is evaluated, and after it, since the
expression may run anything, another definition of the same name included.  `DefinitionEnds` says what
becomes of a definition that has passed the first look, for each way in which its expression can end.
Either the environment is the one that the expression left, or it is that with one binding added
(`Environment.DefinedAs`), and there is nothing in between.
-/

namespace ConsLisp

variable {F : Type} [Frame F]

/-! ## The form -/

namespace Evaluator

variable (self : Evaluator F)

omit [Frame F] in
theorem definedName_symbol {name : String} (h : Operator.isReserved name = false) :
    definedName (.symbol name) = .ok name := by
  rw [definedName, checkBindable_of_not_isReserved h]
  rfl

omit [Frame F] in
theorem definedName_of_isReserved {name : String} (h : Operator.isReserved name = true) :
    definedName (.symbol name) = .error (.reservedName name) := by
  simp [definedName, checkBindable, h]

omit [Frame F] in
theorem definedName_of_kind {target : Cell} (h : target.kind ≠ .symbol) :
    definedName target =
      .error (.typeMismatch (.builtin .define) .definedName (.value target.kind)) := by
  cases target with
  | symbol name => exact absurd rfl h
  | _ => rfl

/-- What is left of a definition when its name can be bound. -/
theorem define_symbol {name : String} (h : Operator.isReserved name = false) (expr : Cell) :
    self.define (.symbol name) expr = EvalM.defineAs name (self.operand expr) := by
  rw [define, EvalM.check_of_ok (definedName_symbol h)]
  rfl

theorem dispatch_define (target expr : Cell) :
    self.dispatch .define (.ofList [target, expr]) = self.define target expr :=
  self.dispatch_of_run? rfl

end Evaluator

namespace EvalM

variable {name : String} {action : EvalM F Cell} {env : Environment F}

/-- The first look at a name that is defined already is the last. -/
theorem defineAs_of_bound (h : env.isGloballyBound name = true) :
    defineAs name action env = .failure (.duplicateDefinition name) env := by
  refine (bind_of_value (rfl : isGloballyBound name env = .value _ env)).trans ?_
  rw [h]
  rfl

theorem defineAs_of_free (h : env.isGloballyBound name = false) :
    defineAs name action env = (do
      let value ← action
      value.checkStorable (.builtin .define)
      define name value
      return .nil : EvalM F Cell) env := by
  refine (bind_of_value (rfl : isGloballyBound name env = .value _ env)).trans ?_
  rw [h]
  rfl

end EvalM

/-! ## How definitions end -/

/-- The environment in which one more name is defined. -/
structure Environment.DefinedAs (env : Environment F) (name : String) (value : Cell)
    (env' : Environment F) : Prop where
  find?_eq : ∀ n, Frame.find? env'.globals n =
    if n = name then some value else Frame.find? env.globals n
  locals_eq : env'.locals = env.locals
  output_eq : env'.output = env.output
  events_eq : env'.events = env.events.push (.definedGlobal name value.kind)

/-- How the definition of a name that could be defined ends, by how the evaluation of its expression
has ended. -/
inductive DefinitionEnds (name : String) :
    Outcome (Environment F) Cell → Outcome (Environment F) Cell → Prop
  | failed {e last} : DefinitionEnds name (.failure e last) (.failure e last)
  | operator {op last} : DefinitionEnds name (.value (.operator op) last)
      (.failure (.typeMismatch (.builtin .define) .storableValue (.value .operator)) last)
  /-- The expression has defined the name itself. -/
  | taken {value last} : value.kind ≠ .operator → last.isGloballyBound name = true →
      DefinitionEnds name (.value value last) (.failure (.duplicateDefinition name) last)
  | defined {value last final} : value.kind ≠ .operator → last.isGloballyBound name = false →
      last.DefinedAs name value final → DefinitionEnds name (.value value last) (.value .nil final)
  | exhausted : DefinitionEnds name .exhausted .exhausted

section Lawful

variable [LawfulFrame F] {env : Environment F} {name : String}

theorem EvalM.define_of_bound (hname : Operator.isReserved name = false)
    (hbound : env.isGloballyBound name = true) (value : Cell) :
    define name value env = .failure (.duplicateDefinition name) env := by
  obtain ⟨globals, hinsert, -⟩ | ⟨-, hdef⟩ := env.define?_cases value hname
  · have hfree := Frame.find?_of_insert?_eq_some hinsert
    rw [Environment.isGloballyBound, Frame.contains, hfree] at hbound
    cases hbound
  · rw [define, hdef]

theorem EvalM.define_of_free (hname : Operator.isReserved name = false)
    (hfree : env.isGloballyBound name = false) (value : Cell) :
    ∃ final, define name value env = .value () final ∧ env.DefinedAs name value final := by
  obtain ⟨globals, hinsert, hdef⟩ | ⟨hnone, -⟩ := env.define?_cases value hname
  · refine ⟨{ env with globals }.record (.definedGlobal name value.kind), ?_, ?_, rfl, rfl, rfl⟩
    · rw [define, hdef]
    · intro n
      refine (LawfulFrame.find?_of_insert? _ _ _ _ hinsert n).trans ?_
      simp only [eq_comm]
  · rw [LawfulFrame.insert?_eq_none_iff] at hnone
    exact absurd (hnone.symm.trans hfree) (by simp)

/-- The second look decides, in the environment that the expression has left. -/
theorem definitionEnds_of_value (hname : Operator.isReserved name = false) (value : Cell)
    (last : Environment F) :
    DefinitionEnds name (.value value last) ((do
      value.checkStorable (.builtin .define)
      EvalM.define name value
      return .nil : EvalM F Cell) last) := by
  by_cases hkind : value.kind = .operator
  · cases value with
    | operator op => exact .operator
    | _ => cases hkind
  · rw [EvalM.check_of_ok (Cell.checkStorable_of_kind hkind)]
    cases hbound : last.isGloballyBound name with
    | true =>
      rw [EvalM.bind_of_failure (EvalM.define_of_bound hname hbound value)]
      exact .taken hkind hbound
    | false =>
      obtain ⟨final, hdefine, hfinal⟩ := EvalM.define_of_free hname hbound value
      rw [EvalM.bind_of_value hdefine]
      exact .defined hkind hbound hfinal

theorem definitionEnds_defineAs (hname : Operator.isReserved name = false)
    (hfree : env.isGloballyBound name = false) (action : EvalM F Cell) :
    DefinitionEnds name (action env) (EvalM.defineAs name action env) := by
  rw [EvalM.defineAs_of_free hfree]
  cases haction : action env with
  | value value last =>
    rw [EvalM.bind_of_value haction]
    exact definitionEnds_of_value hname value last
  | failure e last =>
    rw [EvalM.bind_of_failure haction]
    exact .failed
  | exhausted =>
    rw [EvalM.bind_of_exhausted haction]
    exact .exhausted

end Lawful

/-- **A definition is all or nothing.**  If its target is not a symbol, or is a reserved word, or is
defined already, then it fails and nothing is evaluated.  Otherwise the expression is evaluated once,
in the scope of the definition, and only if that yields a value that can be stored, and has not
defined the name itself, is the name defined as this value, globally and whatever else it may stand
for in the scope.  In every other case the environment is the one that the expression left. -/
theorem define_is_all_or_nothing [LawfulFrame F] (budget : Nat) (env : Environment F)
    (target expr : Cell) :
    (target.kind ≠ .symbol → dispatch (budget + 1) .define (.ofList [target, expr]) env =
      .failure (.typeMismatch (.builtin .define) .definedName (.value target.kind)) env) ∧
    ∀ name, target = .symbol name →
      (Operator.isReserved name = true → dispatch (budget + 1) .define (.ofList [target, expr]) env =
        .failure (.reservedName name) env) ∧
      (Operator.isReserved name = false → env.isGloballyBound name = true →
        dispatch (budget + 1) .define (.ofList [target, expr]) env =
          .failure (.duplicateDefinition name) env) ∧
      (Operator.isReserved name = false → env.isGloballyBound name = false →
        DefinitionEnds name ((run budget).operand expr env)
          (dispatch (budget + 1) .define (.ofList [target, expr]) env)) := by
  have hdispatch : dispatch (budget + 1) .define (.ofList [target, expr]) env =
      (run budget).define target expr env :=
    congrFun ((run budget).dispatch_define target expr) env
  rw [hdispatch]
  refine ⟨fun hkind => ?_, ?_⟩
  · exact EvalM.check_of_error (Evaluator.definedName_of_kind hkind) _ env
  · rintro name rfl
    refine ⟨fun hname => ?_, fun hname hbound => ?_, fun hname hfree => ?_⟩
    · exact EvalM.check_of_error (Evaluator.definedName_of_isReserved hname) _ env
    · rw [Evaluator.define_symbol _ hname]
      exact EvalM.defineAs_of_bound hbound
    · rw [Evaluator.define_symbol _ hname]
      exact definitionEnds_defineAs hname hfree _

/-- In a scope where the name is bound already, it can still be defined.  A definition whose
expression has defined the same name comes too late, and what it wanted is lost. -/
theorem define_is_all_or_nothing_under_shadow :
    let env : Environment OrderedFrame :=
      (Environment.fresh .unlimited).push (Frame.ofList [("x", .integer 7)])
    let early : Cell := letForm [] [Operator.define.form [.symbol "x", .integer 1], .integer 2]
    (∃ final, dispatch 2 .define (.ofList [.symbol "x", .symbol "x"]) env = .value .nil final ∧
      Frame.find? final.globals "x" = some (.integer 7)) ∧
    ∃ last, (run 5).operand early env = .value (.integer 2) last ∧
      dispatch 6 .define (.ofList [.symbol "x", early]) env =
        .failure (.duplicateDefinition "x") last ∧
      Frame.find? last.globals "x" = some (.integer 1) := by
  intro env early
  have hfree : env.isGloballyBound "x" = false := rfl
  refine ⟨?_, ?_⟩
  · have hx : (run 1).operand (.symbol "x") env =
        .value (.integer 7) (env.record (.evaluate .symbol env.depth)) := rfl
    have hends := (define_is_all_or_nothing 1 env (.symbol "x") (.symbol "x")).2 "x" rfl
    have hends := hends.2.2 rfl hfree
    rw [hx] at hends
    generalize dispatch 2 .define _ env = outcome at hends
    cases hends with
    | taken _ hbound => cases hbound
    | defined _ _ hfinal => exact ⟨_, rfl, hfinal.find?_eq "x"⟩
  · obtain ⟨last, hearly, hbound, hone⟩ : ∃ last,
        (run 5).operand early env = .value (.integer 2) last ∧
        last.isGloballyBound "x" = true ∧
        Frame.find? last.globals "x" = some (.integer 1) := ⟨_, rfl, rfl, rfl⟩
    have hends := (define_is_all_or_nothing 5 env (.symbol "x") early).2 "x" rfl
    have hends := hends.2.2 rfl hfree
    rw [hearly] at hends
    refine ⟨last, hearly, ?_, hone⟩
    generalize dispatch 6 .define _ env = outcome at hends
    cases hends with
    | taken => rfl
    | defined _ hfree => exact absurd (hbound.symm.trans hfree) (by simp)

end ConsLisp

import ConsLisp.Proofs.Positional
import ConsLisp.Proofs.Related

/-!
# The mirror of every evaluation

Each form by position mirrors the form by pattern, if the evaluators that they ask for all further
tasks mirror each other.  What a builtin does after its guard needs to be looked at only for
operands that the builtin takes (`Mirrors.guarded`), and then they are there to be picked.
`Positional.run_mirrors` is the induction on the budget.
-/

namespace ConsLisp

variable {F : Type}

/-- What an operation makes of operands, or its refusal of them. -/
def Builtin.onOperands (builtin : Builtin F) (op : Operator) (operands : List Cell) :
    EvalM F Cell :=
  match builtin.run? operands with
  | some action => action
  | none => EvalM.fail (.arityMismatch (.builtin op) builtin.arity operands.length)

namespace Mirrors

section Guards

variable {op : Operator} {expected : Arity} {operands : List Cell}

theorem accepted {A : Type} (h : expected.accepts operands.length = true) {x : Unit → StackM F A}
    {y : EvalM F A} (hx : Mirrors (x ()) y) :
    Mirrors (Positional.checkArity op expected operands >>= x) y := by
  rw [Positional.checkArity, if_pos h]
  exact hx

theorem refused {A : Type} (h : expected.accepts operands.length = false)
    {x : Unit → StackM F A} :
    Mirrors (Positional.checkArity op expected operands >>= x)
      (EvalM.fail (.arityMismatch (.builtin op) expected operands.length)) := by
  rw [Positional.checkArity, if_neg (Bool.eq_false_iff.1 h)]
  exact fail _

/-- A guard that expects the arity of an operation lets exactly those operands pass that the
operation takes. -/
theorem guarded (builtin : Builtin F) (harity : builtin.arity = expected)
    {x : Unit → StackM F Cell}
    (hx : ∀ y, builtin.run? operands = some y → Mirrors (x ()) y) :
    Mirrors (Positional.checkArity op expected operands >>= x) (builtin.onOperands op operands) := by
  have haccepts := builtin.run?_isSome operands
  rw [harity] at haccepts
  rw [Builtin.onOperands, harity]
  cases hrun : builtin.run? operands with
  | some y =>
    rw [hrun] at haccepts
    exact accepted haccepts.symm (hx y hrun)
  | none =>
    rw [hrun] at haccepts
    exact refused haccepts.symm

/-! What is done with the operands that pass is looked at by their number, for the two guards that
stand before more than one form. -/

theorem two {run : Cell → Cell → EvalM F Cell} {x : Unit → StackM F Cell}
    (h : ∀ a b, operands = [a, b] → Mirrors (x ()) (run a b)) :
    Mirrors (Positional.checkArity op (.exactly 2) operands >>= x)
      ((Builtin.two run).onOperands op operands) := by
  refine guarded (.two run) rfl fun y hy => ?_
  rcases operands with _ | ⟨a, _ | ⟨b, _ | _⟩⟩
  · cases hy
  · cases hy
  · obtain rfl := Option.some.inj hy
    exact h a b rfl
  · cases hy

theorem oneAndMore {run : Cell → List Cell → EvalM F Cell} {x : Unit → StackM F Cell}
    (h : ∀ c cs, operands = c :: cs → Mirrors (x ()) (run c cs)) :
    Mirrors (Positional.checkArity op (.atLeast 1) operands >>= x)
      ((Builtin.oneAndMore run).onOperands op operands) := by
  refine guarded (.oneAndMore run) rfl fun y hy => ?_
  cases operands with
  | nil => cases hy
  | cons c cs =>
    obtain rfl := Option.some.inj hy
    exact h c cs rfl

theorem single {action : Cell → StackM F Cell} {run : Cell → EvalM F Cell}
    (h : ∀ c, Mirrors (action c) (run c)) (operands : List Cell) :
    Mirrors (Positional.single op action operands) ((Builtin.one run).onOperands op operands) := by
  refine guarded (.one run) rfl fun y hy => ?_
  rcases operands with _ | ⟨c, _ | _⟩
  · cases hy
  · obtain rfl := Option.some.inj hy
    exact operandAt rfl (h c)
  · cases hy

end Guards

end Mirrors

namespace Positional

variable {self' : Positional F} {self : Evaluator F}
  (hself : ∀ task, Mirrors (self' task) (self task))

include hself

theorem operand_mirrors (expr : Cell) : Mirrors (self'.operand expr) (self.operand expr) :=
  hself (.operand expr)

theorem evaluate_mirrors (expr : Cell) : Mirrors (self'.evaluate expr) (self.evaluate expr) := by
  cases expr with
  | nil => exact .fail _
  | _ => exact hself (.operand _)

/-! ## Arithmetic and comparison -/

theorem number_mirrors (op : Operator) (expr : Cell) :
    Mirrors (self'.number op expr) (self.number op expr) :=
  .bind (hself (.operand expr)) fun value => .lift (Evaluator.asNumber op value)

theorem foldNumbers_mirrors {op : Operator} {step' : Number → Number → StackM F Number}
    {step : Number → Number → Except EvalError Number}
    (hstep : ∀ a b, Mirrors (step' a b) (liftM (step a b))) (start : Number) (exprs : List Cell) :
    Mirrors (self'.foldNumbers op step' start exprs) (self.foldNumbers op step start exprs) := by
  refine .bind (.foldlM (fun acc expr => ?_) start exprs) fun total => .pure total.toCell
  exact .bind (number_mirrors hself op expr) (hstep acc)

omit hself in
/-- A divisor that has passed the check is not zero, so that a quotient of integers exists. -/
theorem divide_mirrors (a b : Number) :
    Mirrors (divide a b : StackM F Number) (liftM (a.div b)) := by
  unfold divide Number.div
  cases hzero : b.isZero with
  | true => exact .fail _
  | false =>
    cases a with
    | double x => exact .pure _
    | integer m =>
      cases b with
      | double y => exact .pure _
      | integer n =>
        have hquotient : integerQuotient m n = .ok (m / n) :=
          if_neg (beq_eq_false_iff_ne.1 hzero)
        dsimp only
        rw [hquotient]
        exact .pure _

theorem difference_mirrors (operands : List Cell) :
    Mirrors (self'.difference operands)
      ((Builtin.oneAndMore self.difference).onOperands .sub operands) := by
  refine .oneAndMore ?_
  rintro c cs rfl
  refine .operandAt rfl (.bind (number_mirrors hself .sub c) fun first => ?_)
  cases cs with
  | nil => exact .pure _
  | cons d ds =>
    rw [if_neg (by simp)]
    exact .operandsFrom (by simp)
      (foldNumbers_mirrors hself (fun a b => .pure (a.sub b)) first (d :: ds))

theorem quotient_mirrors (operands : List Cell) :
    Mirrors (self'.quotient operands)
      ((Builtin.oneAndMore self.quotient).onOperands .div operands) := by
  refine .oneAndMore ?_
  rintro c cs rfl
  refine .operandAt rfl (.bind (number_mirrors hself .div c) fun first => ?_)
  cases cs with
  | nil => exact .bind (.lift first.reciprocal) fun result => .pure result.toCell
  | cons d ds =>
    rw [if_neg (by simp)]
    exact .operandsFrom (by simp) (foldNumbers_mirrors hself divide_mirrors first (d :: ds))

theorem ascendingFrom_mirrors (previous : Number) (exprs : List Cell) :
    Mirrors (self'.ascendingFrom previous exprs) (self.ascendingFrom previous exprs) := by
  induction exprs generalizing previous with
  | nil => exact .pure _
  | cons expr exprs ih =>
    refine .bind (number_mirrors hself .lessThan expr) fun next => ?_
    split
    · exact ih next
    · exact .pure _

theorem ascending_mirrors (operands : List Cell) :
    Mirrors (self'.ascending operands) (self.ascending operands) := by
  cases operands with
  | nil => exact .pure _
  | cons expr exprs =>
    exact .bind (number_mirrors hself .lessThan expr) fun first =>
      ascendingFrom_mirrors hself first exprs

theorem rounded_mirrors (op : Operator) (round : Number → Int64) (operands : List Cell) :
    Mirrors (self'.rounded op round operands)
      ((Builtin.one fun expr => do return .integer (round (← self.number op expr))).onOperands op
        operands) := by
  refine .single (fun expr => ?_) operands
  exact .bind (number_mirrors hself op expr) fun a => .pure _

/-! ## Pairs, predicates and control -/

theorem test_mirrors (op : Operator) (property : Cell → Bool) (operands : List Cell) :
    Mirrors (self'.test op property operands)
      ((Builtin.one (self.test property)).onOperands op operands) := by
  refine .single (fun expr => ?_) operands
  exact .bind (operand_mirrors hself expr) fun value => .pure _

theorem cons_mirrors (operands : List Cell) :
    Mirrors (self'.cons operands) ((Builtin.two self.cons).onOperands .cons operands) := by
  refine .two ?_
  rintro a b rfl
  refine .operandAt rfl (.bind (operand_mirrors hself a) fun car => ?_)
  refine .operandAt rfl (.bind (operand_mirrors hself b) fun cdr => ?_)
  exact .bind (.lift _) fun _ => .bind (.lift _) fun _ => .pure _

theorem half_mirrors (op : Operator) (pick : Cell × Cell → Cell) (operands : List Cell) :
    Mirrors (self'.half op pick operands)
      ((Builtin.one fun expr => do
        let value ← self.operand expr
        let halves ← Evaluator.halves op value
        return pick halves).onOperands op operands) := by
  refine .single (fun expr => .bind (operand_mirrors hself expr) fun value => ?_) operands
  exact .bind (.lift (Evaluator.halves op value)) fun halves => .pure _

theorem branch_mirrors {a b : Cell} {alternate : Option Cell} {operands : List Cell}
    (ha : operands[0]? = some a) (hb : operands[1]? = some b) (hc : operands[2]? = alternate) :
    Mirrors (self'.branch operands) (self.ifElse a b alternate) := by
  refine .operandAt ha (.bind (operand_mirrors hself a) fun value => ?_)
  refine .bind (.lift (Evaluator.truth value)) fun truth => ?_
  rw [hc]
  cases truth with
  | true => exact .operandAt hb (operand_mirrors hself b)
  | false =>
    cases alternate with
    | some c => exact operand_mirrors hself c
    | none => exact .fail _

theorem ifElse_mirrors (operands : List Cell) :
    Mirrors (self'.ifElse operands)
      ((Builtin.twoOrThree self.ifElse).onOperands .ifElse operands) := by
  refine .guarded (.twoOrThree self.ifElse) rfl fun y hy => ?_
  rcases operands with _ | ⟨a, _ | ⟨b, _ | ⟨c, _ | _⟩⟩⟩
  · cases hy
  · cases hy
  · obtain rfl := Option.some.inj hy
    exact branch_mirrors hself rfl rfl rfl
  · obtain rfl := Option.some.inj hy
    exact branch_mirrors hself rfl rfl rfl
  · cases hy

theorem eval_mirrors (operands : List Cell) :
    Mirrors (self'.eval operands) ((Builtin.one self.eval).onOperands .eval operands) :=
  .single (fun expr => .bind (operand_mirrors hself expr) (evaluate_mirrors hself)) operands

theorem print_mirrors (operands : List Cell) :
    Mirrors (self'.print operands) ((Builtin.one self.print).onOperands .print operands) := by
  refine .single (fun expr => .bind (operand_mirrors hself expr) fun value => ?_) operands
  exact .bind (.write (value.text ++ "\n")) fun _ => .pure _

/-! ## Procedures and binding forms -/

theorem values_mirrors (exprs : List Cell) : Mirrors (self'.values exprs) (self.values exprs) :=
  .mapM (operand_mirrors hself) exprs

theorem sequence_mirrors (exprs : List Cell) :
    Mirrors (self'.sequence exprs) (self.sequence exprs) :=
  .foldlM (fun _ => operand_mirrors hself) .nil exprs

variable [Frame F]

theorem applyToOperands_mirrors (formals : Cell) (body : List Cell) (args : Cell) :
    Mirrors (self'.applyToOperands formals body args) (self.applyToOperands formals body args) := by
  refine .bind (.lift _) fun formals => .bind (.lift _) fun exprs => .bind (.lift _) fun _ => ?_
  refine .bind (values_mirrors hself exprs) fun values => .bind (.lift _) fun bindings => ?_
  exact .inFrame (sequence_mirrors hself body)

theorem applyToValues_mirrors (formals : Cell) (body values : List Cell) :
    Mirrors (self'.applyToValues formals body values) (self.applyToValues formals body values) := by
  refine .bind (.lift _) fun formals => .bind (.lift _) fun _ => .bind (.lift _) fun bindings => ?_
  exact .inFrame (sequence_mirrors hself body)

theorem applyTo_mirrors (callee : Cell) (values : List Cell) :
    Mirrors (self'.applyTo callee values) (self.applyTo callee values) := by
  cases callee with
  | procedure formals body => exact applyToValues_mirrors hself formals body values
  | operator op =>
    dsimp only [applyTo, Evaluator.applyTo]
    split
    · exact .fail _
    · exact hself _
  | _ => exact .fail _

theorem apply_mirrors (operands : List Cell) :
    Mirrors (self'.apply operands) ((Builtin.two self.apply).onOperands .apply operands) := by
  refine .two ?_
  rintro a b rfl
  refine .operandAt rfl (.bind (operand_mirrors hself a) fun callee => ?_)
  refine .operandAt rfl (.bind (operand_mirrors hself b) fun list => ?_)
  exact .bind (.lift _) fun values => applyTo_mirrors hself callee values

theorem define_mirrors (operands : List Cell) :
    Mirrors (self'.define operands) ((Builtin.two self.define).onOperands .define operands) := by
  refine .two ?_
  rintro target expr rfl
  refine .operandAt rfl (.bind (.lift (Evaluator.definedName target)) fun name => ?_)
  refine .bind (.isGloballyBound name) fun bound => ?_
  split
  · exact .fail _
  · refine .operandAt rfl (.bind (operand_mirrors hself expr) fun value => ?_)
    exact .bind (.lift _) fun _ => .bind (.define name value) fun _ => .pure _

omit hself [Frame F] in
theorem lambda_mirrors (operands : List Cell) :
    Mirrors (lambda operands : StackM F Cell)
      ((Builtin.twoAndMore Evaluator.lambda).onOperands .lambda operands) := by
  refine .guarded (.twoAndMore Evaluator.lambda) rfl fun y hy => ?_
  rcases operands with _ | ⟨formals, _ | ⟨first, rest⟩⟩
  · cases hy
  · cases hy
  · obtain rfl := Option.some.inj hy
    exact .operandsFrom (by simp) (.operandAt rfl (.pure _))

omit hself [Frame F] in
theorem clause_mirrors (c : Cell) :
    Mirrors (clause c : StackM F (Cell × Cell)) (liftM (Evaluator.clause c)) := by
  unfold clause Evaluator.clause
  cases c.operands (.builtin .letIn) with
  | error e => exact .fail e
  | ok parts =>
    show Mirrors (checkArity .letIn (.exactly 2) parts >>= _) _
    rcases parts with _ | ⟨name, _ | ⟨expr, _ | _⟩⟩
    · exact .refused rfl
    · exact .refused rfl
    · exact .pure (name, expr)
    · exact .refused (by simp [Arity.accepts])

theorem letIn_mirrors (operands : List Cell) :
    Mirrors (self'.letIn operands)
      ((Builtin.oneAndMore self.letIn).onOperands .letIn operands) := by
  refine .oneAndMore ?_
  rintro clauses body rfl
  refine .operandAt rfl (.bind (.lift (clauses.operands (.builtin .letIn))) fun clauses => ?_)
  refine .bind (.mapM_lift clause_mirrors clauses) fun parts => ?_
  exact .operandsFrom (by simp) (applyToOperands_mirrors hself _ body _)

/-! ## All tasks -/

theorem builtin_mirrors (op : Operator) (operands : List Cell) :
    Mirrors (self'.builtin op operands) ((self.builtin op).onOperands op operands) := by
  cases op with
  | add => exact foldNumbers_mirrors hself (fun a b => .pure (a.add b)) (.integer 0) operands
  | mul => exact foldNumbers_mirrors hself (fun a b => .pure (a.mul b)) (.integer 1) operands
  | sub => exact difference_mirrors hself operands
  | div => exact quotient_mirrors hself operands
  | lessThan => exact ascending_mirrors hself operands
  | floor => exact rounded_mirrors hself .floor Number.floor operands
  | ceiling => exact rounded_mirrors hself .ceiling Number.ceiling operands
  | not => exact test_mirrors hself .not Evaluator.isZeroNumber operands
  | ifElse => exact ifElse_mirrors hself operands
  | quote => exact .single .pure operands
  | eval => exact eval_mirrors hself operands
  | print => exact print_mirrors hself operands
  | apply => exact apply_mirrors hself operands
  | cons => exact cons_mirrors hself operands
  | car => exact half_mirrors hself .car Prod.fst operands
  | cdr => exact half_mirrors hself .cdr Prod.snd operands
  | nullp => exact test_mirrors hself .nullp Cell.isNil operands
  | intp => exact test_mirrors hself .intp (fun value => value.kind == .integer) operands
  | doublep => exact test_mirrors hself .doublep (fun value => value.kind == .double) operands
  | symbolp => exact test_mirrors hself .symbolp (fun value => value.kind == .symbol) operands
  | listp => exact test_mirrors hself .listp Evaluator.isList operands
  | define => exact define_mirrors hself operands
  | lambda => exact lambda_mirrors operands
  | letIn => exact letIn_mirrors hself operands

theorem dispatch_mirrors (op : Operator) (args : Cell) :
    Mirrors (self'.dispatch op args) (self.dispatch op args) :=
  .bind (.lift (args.operands (.builtin op))) (builtin_mirrors hself op)

theorem call_mirrors (callee args : Cell) :
    Mirrors (self'.call callee args) (self.call callee args) := by
  cases callee with
  | operator op => exact dispatch_mirrors hself op args
  | procedure formals body => exact applyToOperands_mirrors hself formals body args
  | _ => exact .fail _

theorem value_mirrors (expr : Cell) : Mirrors (self'.value expr) (self.value expr) := by
  cases expr with
  | symbol name =>
    dsimp only [value, Evaluator.value]
    cases Operator.ofName? name with
    | some op => exact .pure _
    | none => exact .lookup name
  | pair head args =>
    exact .bind (evaluate_mirrors hself head) fun callee => call_mirrors hself callee args
  | _ => exact .pure _

/-- The stack of an environment has its global frame when a task begins. -/
theorem step_mirrors (task : Task) : Mirrors (self'.step task) (self.step task) := by
  intro env
  cases task with
  | operand expr =>
    have h := Mirrors.bind (.noteEvaluate expr) fun _ => value_mirrors hself expr
    exact h env
  | dispatch op args => exact dispatch_mirrors hself op args env

omit hself in
/-- **Every run is mirrored**, with the same budget on both sides. -/
theorem run_mirrors (budget : Nat) (task : Task) :
    Mirrors (run budget task : StackM F Cell) (ConsLisp.run budget task) := by
  induction budget generalizing task with
  | zero => exact .exhausted
  | succ budget ih => exact step_mirrors ih task

end Positional

end ConsLisp

import ConsLisp.Frame.Containers
import ConsLisp.Proofs.Budget
import ConsLisp.Proofs.Trace

/-!
# Ways to call

A procedure can be called by its name, through `apply`, or by `let` before it has a name.  These
take different paths through the evaluator: `let` never makes a procedure value, and `apply` hands
procedures their arguments as values and operators their arguments as expressions again.  This
module says that the paths end together (`EndTogether`): `apply` does what a call on quotations of
the values does, and `let` is the application of a `lambda`.
-/

namespace ConsLisp

variable {F : Type} [Frame F]

/-! ## Calling an operator by its word -/

/-- The expression that calls an operator by its word. -/
def Operator.form (op : Operator) (args : List Cell) : Cell :=
  .ofList (.symbol op.name :: args)

theorem evaluate_word (budget : Nat) (op : Operator) (env : Environment F) :
    (run (budget + 1)).evaluate (.symbol op.name) env =
      .value (.operator op) (env.record (.evaluate .symbol env.depth)) := by
  have hvalue : Evaluator.value (run (F := F) budget) (.symbol op.name) =
      pure (.operator op) := by
    simp only [Evaluator.value, Operator.ofName?_name]
  show (EvalM.noteEvaluate _ >>= fun _ => Evaluator.value (run budget) (.symbol op.name)) env = _
  rw [hvalue]
  rfl

theorem evaluate_form (budget : Nat) (op : Operator) (args : List Cell) (env : Environment F) :
    evaluate budget (op.form args) env = (run budget).operand (op.form args) env := rfl

/-- A form takes one task more than its head, and then it is a matter of its operator. -/
theorem operand_form (budget : Nat) (op : Operator) (args : List Cell) (env : Environment F) :
    (run (budget + 2)).operand (op.form args) env =
      (run (budget + 1)).dispatch op (.ofList args)
        ((env.record (.evaluate .pair env.depth)).record (.evaluate .symbol env.depth)) :=
  EvalM.bind_of_value (evaluate_word budget op (env.record (.evaluate .pair env.depth)))

omit [Frame F] in
/-- What is on record when the operator of a form takes over. -/
theorem Environment.SameButTrace.record_form (env : Environment F) :
    env.SameButTrace
      ((env.record (.evaluate .pair env.depth)).record (.evaluate .symbol env.depth)) :=
  (record_evaluate env .pair env.depth).trans (record_evaluate _ .symbol env.depth)

/-! ## Quotations -/

/-- An expression that evaluates to a cell, whatever the cell is. -/
def quotation (c : Cell) : Cell :=
  Operator.quote.form [c]

theorem quietly_quotation (budget : Nat) (c : Cell) :
    Quietly ((run (F := F) (budget + 2)).operand (quotation c)) c :=
  fun env => ⟨_, operand_form budget .quote [c] env, .record_form env⟩

/-- Whether a cell evaluates to itself. -/
def Cell.standsForItself : Cell → Bool
  | .symbol _ | .pair _ _ => false
  | _ => true

theorem Evaluator.value_of_standsForItself (self : Evaluator F) {c : Cell}
    (h : c.standsForItself = true) : self.value c = pure c := by
  cases c with
  | symbol _ | pair _ _ => cases h
  | _ => rfl

theorem quietly_of_standsForItself (budget : Nat) {c : Cell} (h : c.standsForItself = true) :
    Quietly ((run (F := F) (budget + 1)).operand c) c := by
  show Quietly (EvalM.noteEvaluate c >>= fun _ => Evaluator.value (run budget) c) c
  rw [Evaluator.value_of_standsForItself _ h]
  exact (Quietly.noteEvaluate c).bind (.pure c)

/-- Quoting only what would run as code is enough. -/
theorem quietly_quoted (budget : Nat) (c : Cell) :
    Quietly ((run (F := F) (budget + 2)).operand (Evaluator.quoted c)) c := by
  cases c with
  | symbol name => exact quietly_quotation budget (.symbol name)
  | pair car cdr => exact quietly_quotation budget (.pair car cdr)
  | _ => exact quietly_of_standsForItself (budget + 1) rfl

section Quotations

variable [LawfulFrame F]

theorem simulates_run (budget : Nat) (task : Task) :
    Simulates (F := F) Environment.SameButTrace (Passing fun _ => True) (run budget task)
      (run budget task) :=
  Environment.SameButTrace.simulation.closed.run .all budget task task.in_all

theorem simulates_operand (budget : Nat) (expr : Cell) :
    Simulates (F := F) Environment.SameButTrace (Passing fun _ => True)
      ((run budget).operand expr) ((run budget).operand expr) :=
  simulates_run budget (.operand expr)

theorem simulates_applyToOperands (budget : Nat) (formals : Cell) (body : List Cell) (args : Cell) :
    Simulates (F := F) Environment.SameButTrace (Passing fun _ => True)
      ((run budget).applyToOperands formals body args)
      ((run budget).applyToOperands formals body args) :=
  Environment.SameButTrace.simulation.closed.applyToOperands .all
    (fun task _ => simulates_run budget task) (fun _ _ => trivial) trivial

/-- An operator that takes values cannot tell whether they were quoted. -/
theorem dispatch_quotations (budget : Nat) {op : Operator} (h : op.takesSyntax = false)
    (values : List Cell) :
    Simulates (F := F) Environment.SameButTrace (Passing fun _ => True)
      ((run (budget + 2)).dispatch op (.ofList (values.map Evaluator.quoted)))
      ((run (budget + 2)).dispatch op (.ofList (values.map quotation))) := by
  have hclosed := Environment.SameButTrace.simulation.closed (F := F) (G := F)
  have hoperands : List.Forall₂ ((run (F := F) (budget + 2)).Agree (Passing fun _ => True)
      (Simulates Environment.SameButTrace) (run (budget + 2)))
      (values.map Evaluator.quoted) (values.map quotation) := by
    rw [List.forall₂_map_left_iff, List.forall₂_map_right_iff]
    exact List.forall₂_same.2 fun v _ =>
      (quietly_quoted budget v).simulates (quietly_quotation budget v) (.inl trivial)
  exact hclosed.dispatch_ofList hoperands
    (hclosed.valueBuiltin .all (fun task _ => simulates_run (budget + 2) task) h)

/-- A procedure gets from quotations the values that `apply` gives it. -/
theorem applyToOperands_quotations (budget : Nat) (formals : Cell) (body values : List Cell) :
    Simulates (F := F) Environment.SameButTrace (Passing fun _ => True)
      ((run (budget + 2)).applyToValues formals body values)
      ((run (budget + 2)).applyToOperands formals body (.ofList (values.map quotation))) := by
  have hclosed := Environment.SameButTrace.simulation.closed (F := F) (G := F)
  unfold Evaluator.applyToValues Evaluator.applyToOperands
  rw [Cell.operands_ofList]
  refine hclosed.bind_rel (hclosed.lift_rel (Formals.ofCell_meets formals)) fun formals _ => ?_
  show Simulates _ _ _ (liftM (formals.checkCount (values.map quotation).length) >>= _)
  rw [List.length_map]
  refine hclosed.bind_rel (hclosed.lift_rel (formals.checkCount_meets values.length)) fun _ _ => ?_
  -- the arguments are there already on one side, and are evaluated to the same on the other
  refine (Quietly.mapM (quietly_quotation budget) values).bind_simulates ?_
  refine hclosed.bind_rel (hclosed.lift_rel
    (formals.bindings_meets Hereditary.all.toDataClass fun _ _ => .inl trivial))
    fun bindings hbindings => ?_
  exact hclosed.inFrame_rel hbindings
    (hclosed.sequence .all (fun task _ => simulates_run (budget + 2) task) fun _ _ => trivial)

end Quotations

/-! ## `apply` -/

/-- Whether `apply` can call a cell: a procedure, or an operator that does not read syntax. -/
def Cell.takesValues : Cell → Bool
  | .procedure _ _ => true
  | .operator op => !op.takesSyntax
  | _ => false

section Apply

variable [LawfulFrame F] {calleeExpr listExpr callee : Cell} {values : List Cell}
  {env mid last : Environment F}

/-- The operands of `apply` are evaluated as if they stood alone. -/
theorem evaluate_apply {budget : Nat}
    (hcallee : (run (budget + 1)).operand calleeExpr env = .value callee mid)
    (hlist : (run (budget + 1)).operand listExpr mid = .value (.ofList values) last) :
    ∃ last', last.SameButTrace last' ∧
      evaluate (budget + 2) (Operator.apply.form [calleeExpr, listExpr]) env =
        (run (budget + 1)).applyTo callee values last' := by
  obtain ⟨mid', hcallee', hmid⟩ :=
    (simulates_operand (budget + 1) calleeExpr).value (.record_form env) hcallee
  obtain ⟨last', hlist', hlast⟩ := (simulates_operand (budget + 1) listExpr).value hmid hlist
  refine ⟨last', hlast, ?_⟩
  rw [evaluate_form, operand_form]
  show (run (budget + 1)).apply calleeExpr listExpr _ = _
  unfold Evaluator.apply
  rw [EvalM.bind_of_value hcallee', EvalM.bind_of_value hlist', Cell.operands_ofList]
  rfl

/-- **`apply` passes values as a call on quotations does.**  If the operands of `apply` evaluate to
something that takes values and to a list, then `apply` ends together with the call of that thing on
quotations of the members of the list, whatever these are.  An operator that reads syntax is
refused, and then nothing happens beyond the evaluation of the operands. -/
theorem apply_calls_on_quotations
    (hcallee : Settles (fun budget => (run budget).operand calleeExpr env) (.value callee mid))
    (hlist : Settles (fun budget => (run budget).operand listExpr mid)
      (.value (.ofList values) last)) :
    (callee.takesValues = true →
      EndTogether Environment.SameButTrace
        (fun budget => evaluate budget (Operator.apply.form [calleeExpr, listExpr]) env)
        fun budget => (run budget).call callee (.ofList (values.map quotation)) last) ∧
    ∀ op, callee = .operator op → op.takesSyntax = true → ∃ last', last.SameButTrace last' ∧
      Settles (fun budget => evaluate budget (Operator.apply.form [calleeExpr, listExpr]) env)
        (.failure (.typeMismatch (.builtin .apply) .valueTaker (.operator op)) last') := by
  obtain ⟨least, hcallee⟩ := hcallee
  obtain ⟨least', hlist⟩ := hlist
  have hoperands (budget : Nat) (hbudget : max least least' ≤ budget) :=
    evaluate_apply (hcallee (budget + 1) (by omega)) (hlist (budget + 1) (by omega))
  have hsteady := steady_evaluate (Operator.apply.form [calleeExpr, listExpr]) env
  have hsteady' := steady_call callee (.ofList (values.map quotation)) last
  refine ⟨fun hvalues => ?_, ?_⟩
  · cases callee with
    | procedure formals body =>
      refine .of_eventually hsteady hsteady' (max least least') 3 2 fun budget hbudget => ?_
      obtain ⟨last', hlast, hrun⟩ := hoperands (budget + 1) (by omega)
      rw [hrun]
      exact (applyToOperands_quotations budget formals body values last' last hlast.symm).imp
        fun _ _ => trivial
    | operator op =>
      refine .of_eventually hsteady hsteady' (max least least') 4 2 fun budget hbudget => ?_
      obtain ⟨last', hlast, hrun⟩ := hoperands (budget + 2) (by omega)
      have hop : op.takesSyntax = false := by simpa [Cell.takesValues] using hvalues
      have happly : (run (F := F) (budget + 3)).applyTo (.operator op) values =
          (run (budget + 2)).dispatch op (.ofList (values.map Evaluator.quoted)) := by
        simp only [Evaluator.applyTo, hop]
        rfl
      rw [hrun, happly]
      exact (dispatch_quotations budget hop values last' last hlast.symm).imp fun _ _ => trivial
    | _ => cases hvalues
  · rintro op rfl hop
    obtain ⟨last', hlast, hrun⟩ := hoperands (max least least') (Nat.le_refl _)
    refine ⟨last', hlast, hsteady.settles_of_failure (hrun.trans ?_)⟩
    simp only [Evaluator.applyTo, hop]
    rfl

/-- Members that would run as code reach `cons` as they are, and `quote` is not called at all. -/
theorem apply_calls_on_quotations_of_code :
    let env : Environment OrderedFrame := Environment.fresh .unlimited
    let sum : Cell := Operator.add.form [.integer 1, .integer 2]
    let list : Cell := quotation (.ofList [sum, .symbol "x"])
    (∃ last last', EndTogether Environment.SameButTrace
        (fun budget => evaluate budget (Operator.apply.form [.symbol "cons", list]) env)
        (fun budget => (run budget).call (.operator .cons)
          (.ofList [quotation sum, quotation (.symbol "x")]) last) ∧
      Settles (fun budget => evaluate budget (Operator.apply.form [.symbol "cons", list]) env)
        (.value (.pair sum (.symbol "x")) last')) ∧
    ∃ last', Settles (fun budget => evaluate budget (Operator.apply.form [.symbol "quote", list]) env)
      (.failure (.typeMismatch (.builtin .apply) .valueTaker (.operator .quote)) last') := by
  intro env sum list
  have hword (op : Operator) : Settles (fun budget => (run budget).operand (.symbol op.name) env)
      (.value (.operator op) (env.record (.evaluate .symbol env.depth))) :=
    (steady_operand _ env).settles_of_value (evaluate_word 0 op env)
  obtain ⟨last, hlist, -⟩ := quietly_quotation 0 (.ofList [sum, .symbol "x"])
    (env.record (.evaluate .symbol env.depth))
  have hlist := (steady_operand list _).settles_of_value hlist
  have hcons := (apply_calls_on_quotations (hword .cons) hlist).1 rfl
  obtain ⟨last', -, hquote⟩ := (apply_calls_on_quotations (hword .quote) hlist).2 .quote rfl rfl
  obtain ⟨last'', hrun⟩ : ∃ last'',
      evaluate 4 (Operator.apply.form [.symbol "cons", list]) env =
        .value (.pair sum (.symbol "x")) last'' := ⟨_, rfl⟩
  have hvalue := (steady_evaluate _ env).settles_of_value hrun
  exact ⟨⟨last, last'', hcons, hvalue⟩, last', hquote⟩

end Apply

/-! ## `let` -/

/-- The expression that binds names to the values of expressions in a body. -/
def letForm (clauses : List (Cell × Cell)) (body : List Cell) : Cell :=
  Operator.letIn.form (.ofList (clauses.map fun clause => .ofList [clause.1, clause.2]) :: body)

/-- The expression that calls a procedure which is made on the spot. -/
def lambdaCall (clauses : List (Cell × Cell)) (body : List Cell) : Cell :=
  .ofList (Operator.lambda.form (.ofList (clauses.map Prod.fst) :: body) :: clauses.map Prod.snd)

theorem mapM_clause (clauses : List (Cell × Cell)) :
    (clauses.map fun clause => Cell.ofList [clause.1, clause.2]).mapM Evaluator.clause =
      (.ok clauses : Except EvalError (List (Cell × Cell))) := by
  induction clauses with
  | nil => rfl
  | cons clause clauses ih =>
    rw [List.map_cons, List.mapM_cons, ih]
    rfl

theorem evaluate_letForm (budget : Nat) (clauses : List (Cell × Cell)) (body : List Cell)
    (env : Environment F) :
    ∃ start, env.SameButTrace start ∧ evaluate (budget + 2) (letForm clauses body) env =
      (run (budget + 1)).applyToOperands (.ofList (clauses.map Prod.fst)) body
        (.ofList (clauses.map Prod.snd)) start := by
  refine ⟨_, .record_form env, ?_⟩
  rw [letForm, evaluate_form, operand_form, Evaluator.dispatch, Cell.operands_ofList]
  show (run (budget + 1)).letIn _ body _ = _
  rw [Evaluator.letIn, Cell.operands_ofList]
  show (liftM (List.mapM Evaluator.clause _) >>= _ : EvalM F Cell) _ = _
  rw [mapM_clause]
  rfl

theorem evaluate_lambdaCall (budget : Nat) (clauses : List (Cell × Cell)) (first : Cell)
    (rest : List Cell) (env : Environment F) :
    ∃ start, env.SameButTrace start ∧
      evaluate (budget + 3) (lambdaCall clauses (first :: rest)) env =
        (run (budget + 2)).applyToOperands (.ofList (clauses.map Prod.fst)) (first :: rest)
          (.ofList (clauses.map Prod.snd)) start := by
  let noted := env.record (.evaluate .pair env.depth)
  have hhead : (run (budget + 2)).evaluate
      (Operator.lambda.form (.ofList (clauses.map Prod.fst) :: first :: rest)) noted =
        .value (.procedure (.ofList (clauses.map Prod.fst)) (first :: rest))
          ((noted.record (.evaluate .pair noted.depth)).record
            (.evaluate .symbol noted.depth)) := by
    show (run (budget + 2)).operand _ noted = _
    rw [operand_form, Evaluator.dispatch, Cell.operands_ofList]
    rfl
  exact ⟨_, (Environment.SameButTrace.record_evaluate env .pair env.depth).trans (.record_form noted),
    EvalM.bind_of_value hhead⟩

/-- **`let` is an applied `lambda`.**  Whatever the names and expressions are, a `let` and the call
of a `lambda` with its names on its expressions end together: with the same value or error, in the
same environment, after the same output and the same events, the beginnings of evaluations apart. -/
theorem let_is_applied_lambda [LawfulFrame F] (clauses : List (Cell × Cell)) (first : Cell)
    (rest : List Cell) (env : Environment F) :
    EndTogether Environment.SameButTrace
      (fun budget => evaluate budget (letForm clauses (first :: rest)) env)
      fun budget => evaluate budget (lambdaCall clauses (first :: rest)) env := by
  refine .of_eventually (steady_evaluate _ env) (steady_evaluate _ env) 0 3 3 fun budget _ => ?_
  obtain ⟨start, hstart, hlet⟩ := evaluate_letForm (budget + 1) clauses (first :: rest) env
  obtain ⟨start', hstart', hlambda⟩ := evaluate_lambdaCall budget clauses first rest env
  rw [hlet, hlambda]
  exact (simulates_applyToOperands (budget + 2) _ _ _ start start' (hstart.symm.trans hstart')).imp
    fun _ _ => trivial

/-- The second expression sees the global `x`, and the body sees the local one. -/
theorem let_is_applied_lambda_on_shadowed_name :
    let env : Environment OrderedFrame :=
      { Environment.fresh .unlimited with globals := Frame.ofList [("x", .integer 5)] }
    let x : Cell := .symbol "x"
    let y : Cell := .symbol "y"
    let clauses : List (Cell × Cell) := [(x, .integer 1), (y, x)]
    let body : Cell := Operator.cons.form [x, y]
    EndTogether Environment.SameButTrace (fun budget => evaluate budget (letForm clauses [body]) env)
        (fun budget => evaluate budget (lambdaCall clauses [body]) env) ∧
      ∃ last, Settles (fun budget => evaluate budget (letForm clauses [body]) env)
        (.value (.pair (.integer 1) (.integer 5)) last) := by
  intro env x y clauses body
  obtain ⟨last, hrun⟩ : ∃ last, evaluate 5 (letForm clauses [body]) env =
      .value (.pair (.integer 1) (.integer 5)) last := ⟨_, rfl⟩
  exact ⟨let_is_applied_lambda clauses body [] env, last,
    (steady_evaluate _ env).settles_of_value hrun⟩

end ConsLisp

import ConsLisp.Frame.Containers
import ConsLisp.Proofs.Guarded
import ConsLisp.Session

/-!
# Operators never become data

An operator may be the value of an expression, but it is never found in a pair, in a procedure or in
a frame unless it was there at the beginning.  The class of cells without an operator in them is
hereditary, so this is a case of what `ConsLisp.Proofs.Guarded` says of hereditary classes.
-/

namespace ConsLisp

/-! ## Cells without operators -/

namespace Cell

mutual

/-- Whether no operator occurs in a cell: in a pair, in formals or in a body. -/
def isOperatorFree : Cell → Bool
  | operator _ => false
  | pair car cdr => car.isOperatorFree && cdr.isOperatorFree
  | procedure formals body => formals.isOperatorFree && allOperatorFree body
  | _ => true

/-- Whether no operator occurs in any cell of a list. -/
def allOperatorFree : List Cell → Bool
  | [] => true
  | c :: cs => c.isOperatorFree && allOperatorFree cs

end

/-- No operator occurs in a cell. -/
def OperatorFree (c : Cell) : Prop :=
  c.isOperatorFree = true

theorem allOperatorFree_iff {cs : List Cell} :
    allOperatorFree cs = true ↔ ∀ c ∈ cs, c.OperatorFree := by
  induction cs with
  | nil => simp [allOperatorFree]
  | cons c cs ih => simp [allOperatorFree, ih, OperatorFree]

theorem OperatorFree.hereditary : Hereditary OperatorFree where
  nil := rfl
  integer _ := rfl
  double _ := rfl
  symbol _ := rfl
  pair_iff := by simp [OperatorFree, isOperatorFree]
  procedure_iff := by
    intro formals body
    rw [← allOperatorFree_iff]
    simp [OperatorFree, isOperatorFree]

end Cell

/-! ## Watching cells -/

/-- Wants every task to be on cells of a class, and every value to be in it or an operator. -/
def Watch.cells {F : Type} (P : Cell → Prop) : Watch F where
  onTask task _ := task.In P
  onValue value _ := Passing P value
  onFailure _ _ := True

variable {F : Type} [Frame F] [LawfulFrame F] {P : Cell → Prop}

theorem StaysGuarded.watched {task : Task} (htask : task.In P) {x : EvalM F Cell}
    {y : EvalM (Guarded P F) Cell} (h : StaysGuarded P (Passing P) x y) :
    StaysGuarded P (Passing P) x ((Watch.cells P).during task y) := by
  intro env
  have hsame := h env
  have hends : (y env).Ends (fun value _ => Passing P value) fun _ _ => True := by
    generalize x _ = o, y env = o' at hsame
    cases hsame with
    | value hvalue _ => exact hvalue
    | failure _ => trivial
    | exhausted => trivial
  rwa [Watch.during_apply htask hends]

/-- A run on cells of a class, and the same run with guarded frames and under a watch. -/
theorem Hereditary.evaluate_guarded (hP : Hereditary P) (budget : Nat) {expr : Cell} (h : P expr)
    (env : Environment (Guarded P F)) :
    Outcome.Same (Passing P) (fun last last' => last = last'.forget)
      (evaluate budget expr env.forget)
      (Evaluator.evaluate (watchedRun (.cells P) budget) expr env) :=
  (StaysGuarded.closed hP).evaluate
    ((StaysGuarded.closed hP).run_watched hP (fun _ _ _ htask => StaysGuarded.watched htask) budget)
    (.inl h) env

theorem Hereditary.evaluate_ends (hP : Hereditary P) (budget : Nat) {expr : Cell} (h : P expr)
    {env : Environment F} (henv : env.All P) :
    (evaluate budget expr env).Ends (fun value last => Passing P value ∧ last.All P)
      fun _ last => last.All P := by
  obtain ⟨guarded, rfl⟩ := henv.exists_forget
  have hsame := hP.evaluate_guarded budget h guarded
  generalize evaluate budget expr guarded.forget = o, Evaluator.evaluate _ _ _ = o' at hsame
  cases hsame with
  | value hvalue hlast => exact ⟨hvalue, hlast ▸ Environment.all_forget _⟩
  | failure hlast => exact hlast ▸ Environment.all_forget _
  | exhausted => trivial

/-! ## Sequences of expressions -/

namespace Session

/-- The session that evaluates expressions one after the other. -/
def topLevel (exprs : List Cell) : List Step :=
  exprs.map fun expr => .single (.evaluate expr)

section Taking

variable {budget : Nat} {expr : Cell} {env last : Environment F}

omit [LawfulFrame F] in
theorem take_of_value {value : Cell} (h : evaluate budget expr env = .value value last) :
    (Operation.evaluate expr).take budget env = (.value value, last) := by
  have haction : (Operation.evaluate expr).action budget env = .value (.value value) last :=
    EvalM.bind_of_value h
  rw [Operation.take, haction]

omit [LawfulFrame F] in
theorem take_of_failure {e : EvalError} (h : evaluate budget expr env = .failure e last) :
    (Operation.evaluate expr).take budget env = (.failure e, last) := by
  have haction : (Operation.evaluate expr).action budget env = .failure e last :=
    EvalM.bind_of_failure h
  rw [Operation.take, haction]

omit [LawfulFrame F] in
theorem take_of_exhausted (h : evaluate budget expr env = .exhausted) :
    (Operation.evaluate expr).take budget env = (.exhausted, env) := by
  have haction : (Operation.evaluate expr).action budget env = .exhausted :=
    EvalM.bind_of_exhausted h
  rw [Operation.take, haction]

end Taking

omit [LawfulFrame F] in
theorem takeAll_topLevel_cons {budget : Nat} {expr : Cell} {exprs : List Cell} {answer : Answer}
    {reports : List Report} {env mid last : Environment F}
    (h : (Operation.evaluate expr).take budget env = (answer, mid))
    (hrest : takeAll budget (topLevel exprs) mid = (reports, last)) :
    takeAll budget (topLevel (expr :: exprs)) env =
      (.single answer (.between env mid) :: reports, last) := by
  show takeAll budget (.single (.evaluate expr) :: topLevel exprs) env = _
  rw [takeAll, take, h]
  dsimp only
  rw [hrest]

omit [LawfulFrame F] in
theorem between_forget (env last : Environment (Guarded P F)) :
    Observation.between env.forget last.forget = Observation.between env last := by
  unfold Observation.between
  rw [last.forget_depth]
  rfl

/-- An expression of the class is answered alike with plain and with guarded frames. -/
theorem take_evaluate_guarded (hP : Hereditary P) (budget : Nat) {expr : Cell} (h : P expr)
    (env : Environment (Guarded P F)) :
    ∃ answer last, (Operation.evaluate expr).take budget env = (answer, last) ∧
      (Operation.evaluate expr).take budget env.forget = (answer, last.forget) ∧
      ∀ value, answer = .value value → Passing P value := by
  have hsame := (StaysGuarded.closed hP).evaluate_run hP budget (.inl h) env
  generalize hplain : evaluate budget expr env.forget = o, hguarded : evaluate budget expr env = o'
    at hsame
  cases hsame with
  | @value a _ last ha hlast =>
    refine ⟨.value a, last, take_of_value hguarded, ?_, fun value heq => ?_⟩
    · rw [take_of_value hplain, hlast]
    · rwa [← Answer.value.inj heq]
  | @failure e _ last hlast =>
    refine ⟨.failure e, last, take_of_failure hguarded, ?_, fun _ heq => nomatch heq⟩
    rw [take_of_failure hplain, hlast]
  | exhausted =>
    exact ⟨.exhausted, env, take_of_exhausted hguarded, take_of_exhausted hplain,
      fun _ heq => nomatch heq⟩

/-- All answers to expressions of the class are alike, and so are the environments at the end. -/
theorem takeAll_topLevel_guarded (hP : Hereditary P) (budget : Nat) {exprs : List Cell}
    (h : ∀ expr ∈ exprs, P expr) (env : Environment (Guarded P F)) :
    ∃ reports last, takeAll budget (topLevel exprs) env = (reports, last) ∧
      takeAll budget (topLevel exprs) env.forget = (reports, last.forget) ∧
      ∀ value seen, .single (.value value) seen ∈ reports → Passing P value := by
  induction exprs generalizing env with
  | nil => exact ⟨[], env, rfl, rfl, fun _ _ hmem => absurd hmem List.not_mem_nil⟩
  | cons expr exprs ih =>
    obtain ⟨answer, mid, htake, htake', hanswer⟩ :=
      take_evaluate_guarded hP budget (h expr List.mem_cons_self) env
    obtain ⟨reports, last, hrest, hrest', hreports⟩ :=
      ih (fun c hc => h c (List.mem_cons_of_mem expr hc)) mid
    refine ⟨.single answer (.between env mid) :: reports, last, ?_, ?_, fun value seen hmem => ?_⟩
    · exact takeAll_topLevel_cons htake hrest
    · rw [← between_forget]
      exact takeAll_topLevel_cons htake' hrest'
    · rcases List.mem_cons.1 hmem with heq | hmem
      · exact hanswer value (Report.single.inj heq).1.symm
      · exact hreports value seen hmem

end Session

/-- **Operators never become data.**  An expression without operators in it, run in an environment
without operators, yields an operator or a cell without operators, and however it ends no frame
binds an operator or a cell with one.  On the way no cell with an operator in it is evaluated or
yielded, and none is bound: the run is the same under a watch for that and in guarded frames, where
a binding that is refused shows in the size that is noted of the frame.  And so it goes on for any
number of expressions. -/
theorem operators_never_become_data :
    (∀ (budget : Nat) (expr : Cell) (env : Environment F),
      expr.OperatorFree → env.All Cell.OperatorFree →
      (evaluate budget expr env).Ends
        (fun value last => Passing Cell.OperatorFree value ∧ last.All Cell.OperatorFree)
        (fun _ last => last.All Cell.OperatorFree)) ∧
    (∀ (budget : Nat) (expr : Cell) (env : Environment F),
      expr.OperatorFree → env.All Cell.OperatorFree →
      ∃ guarded : Environment (Guarded Cell.OperatorFree F), guarded.forget = env ∧
        Outcome.Same (Passing Cell.OperatorFree) (fun last last' => last = last'.forget)
          (evaluate budget expr env)
          (Evaluator.evaluate (watchedRun (.cells Cell.OperatorFree) budget) expr guarded)) ∧
    (∀ bindings : List (String × Cell), (bindings.map Prod.fst).Nodup →
      Frame.size (Frame.ofList bindings : Guarded Cell.OperatorFree F) =
        Frame.size (Frame.ofList bindings : F) →
      ∀ b ∈ bindings, b.2.OperatorFree) ∧
    ∀ (budget : Nat) (exprs : List Cell) (env : Environment F),
      (∀ expr ∈ exprs, expr.OperatorFree) → env.All Cell.OperatorFree →
      ∃ reports last, Session.takeAll budget (Session.topLevel exprs) env = (reports, last) ∧
        last.All Cell.OperatorFree ∧
        (∀ value seen, .single (.value value) seen ∈ reports → Passing Cell.OperatorFree value) ∧
        ∃ guarded guarded' : Environment (Guarded Cell.OperatorFree F), guarded.forget = env ∧
          guarded'.forget = last ∧
          Session.takeAll budget (Session.topLevel exprs) guarded = (reports, guarded') := by
  have hfree := Cell.OperatorFree.hereditary
  refine ⟨fun budget expr env hexpr henv => ?_, fun budget expr env hexpr henv => ?_,
    fun bindings hnodup hsize => Guarded.of_size_ofList_eq hnodup hsize,
    fun budget exprs env hexprs henv => ?_⟩
  · exact hfree.evaluate_ends budget hexpr henv
  · obtain ⟨guarded, rfl⟩ := henv.exists_forget
    exact ⟨guarded, rfl, hfree.evaluate_guarded budget hexpr guarded⟩
  · obtain ⟨guarded, rfl⟩ := henv.exists_forget
    obtain ⟨reports, last, htake, htake', hreports⟩ :=
      Session.takeAll_topLevel_guarded hfree budget hexprs guarded
    exact ⟨reports, last.forget, htake', last.all_forget, hreports, guarded, last, rfl, rfl, htake⟩

/-- A procedure that makes a pair is defined and then called with an operator, in vain. -/
theorem operators_never_become_data_as_arguments :
    let exprs : List Cell :=
      [.ofList [.symbol "define", .symbol "f", .ofList [.symbol "lambda", .ofList [.symbol "x"],
          .ofList [.symbol "cons", .symbol "x", .nil]]],
        .ofList [.symbol "f", .symbol "+"]]
    let env : Environment OrderedFrame := Environment.fresh .unlimited
    (∀ expr ∈ exprs, expr.OperatorFree) ∧ env.All Cell.OperatorFree ∧
      ∃ reports last, Session.takeAll 4 (Session.topLevel exprs) env = (reports, last) ∧
        last.isGloballyBound "f" = true ∧ last.All Cell.OperatorFree := by
  intro exprs env
  have hexprs : ∀ expr ∈ exprs, expr.OperatorFree := Cell.allOperatorFree_iff.1 rfl
  have henv : env.All Cell.OperatorFree := by
    intro frame hframe name value hvalue
    obtain rfl := List.mem_singleton.1 hframe
    rw [show env.globals = Frame.empty from rfl, LawfulFrame.find?_empty] at hvalue
    cases hvalue
  obtain ⟨reports, last, htake, hlast, -⟩ :=
    operators_never_become_data.2.2.2 4 exprs env hexprs henv
  have hdefined : (Session.takeAll 4 (Session.topLevel exprs) env).2.isGloballyBound "f" = true :=
    rfl
  rw [htake] at hdefined
  exact ⟨hexprs, henv, reports, last, htake, hdefined, hlast⟩

end ConsLisp

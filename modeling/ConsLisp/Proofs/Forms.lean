import ConsLisp.Proofs.Abort

/-!
# Forms and their operands

A form is evaluated by its operator, after its word has been: `Environment.afterWord` is the
environment in which the operator takes over, and `settles_form_iff` says that how the form ends is
then a matter of the operator alone.  `YieldAll` is what most operators ask of their operands first,
that they evaluate to values one after another.

A form that is built into another one, or taken apart, leaves another trace, and that is all the
difference it may make.  Whatever asks for its evaluations without looking into the evaluator
(`Uniform`) ends together with itself in environments that only a trace tells apart.
-/

namespace ConsLisp

variable {F : Type} [Frame F]

/-! ## The word of a form -/

omit [Frame F] in
/-- The environment in which the operator of a form takes over. -/
def Environment.afterWord (env : Environment F) : Environment F :=
  (env.record (.evaluate .pair env.depth)).record (.evaluate .symbol env.depth)

omit [Frame F] in
theorem Environment.SameButTrace.afterWord (env : Environment F) :
    env.SameButTrace env.afterWord :=
  .record_form env

theorem settles_form_iff {op : Operator} {args : List Cell} {env : Environment F}
    {o : Outcome (Environment F) Cell} :
    Settles (fun budget => evaluate budget (op.form args) env) o ↔
      Settles (fun budget => (run budget).dispatch op (.ofList args) env.afterWord) o := by
  constructor
  · rintro ⟨least, h⟩
    refine ⟨least + 1, fun budget hle => ?_⟩
    obtain ⟨n, rfl⟩ : ∃ n, budget = n + 1 := ⟨budget - 1, by omega⟩
    exact (operand_form n op args env).symm.trans (h (n + 2) (by omega))
  · rintro ⟨least, h⟩
    refine ⟨least + 2, fun budget hle => ?_⟩
    obtain ⟨n, rfl⟩ : ∃ n, budget = n + 2 := ⟨budget - 2, by omega⟩
    exact (operand_form n op args env).trans (h (n + 1) (by omega))

/-- What is left of a form whose operator can take so many operands. -/
theorem settles_form_of_run? {op : Operator} {args : List Cell} {x : Nat → EvalM F Cell}
    (hrun : ∀ budget, ((run budget).builtin op).run? args = some (x budget))
    {env : Environment F} {o : Outcome (Environment F) Cell} :
    Settles (fun budget => evaluate budget (op.form args) env) o ↔
      Settles (fun budget => x budget env.afterWord) o := by
  rw [settles_form_iff]
  simp only [Evaluator.dispatch_of_run? _ (hrun _)]

/-! ## Operands one after another -/

/-- Expressions evaluate, one after another, to values. -/
def YieldAll (exprs : List Cell) (env : Environment F) (values : List Cell)
    (last : Environment F) : Prop :=
  Progress (inOrder exprs) env values last ∧ values.length = exprs.length

section YieldAll

variable {expr value : Cell} {exprs exprs' values values' : List Cell}
  {env mid last last' : Environment F}

theorem Yields.unique {value' : Cell} (h : Yields expr env value last)
    (h' : Yields expr env value' last') : value = value' ∧ last = last' := by
  cases Settles.unique h h'
  exact ⟨rfl, rfl⟩

theorem yieldAll_nil_iff : YieldAll [] env values last ↔ values = [] ∧ last = env := by
  constructor
  · rintro ⟨h, hlength⟩
    obtain rfl := List.length_eq_zero_iff.1 hlength
    cases h
    exact ⟨rfl, rfl⟩
  · rintro ⟨rfl, rfl⟩
    exact ⟨.done, rfl⟩

theorem yieldAll_cons_iff : YieldAll (expr :: exprs) env values last ↔
    ∃ value rest mid, values = value :: rest ∧ Yields expr env value mid ∧
      YieldAll exprs mid rest last := by
  constructor
  · rintro ⟨h, hlength⟩
    cases h with
    | done => cases hlength
    | step hfirst hyields hrest =>
      obtain rfl := Option.some.inj hfirst
      exact ⟨_, _, _, rfl, hyields, hrest, Nat.succ.inj hlength⟩
  · rintro ⟨value, rest, mid, rfl, hyields, hrest, hlength⟩
    exact ⟨.step rfl hyields hrest, congrArg Nat.succ hlength⟩

theorem YieldAll.nil : YieldAll [] env [] env :=
  ⟨.done, rfl⟩

theorem YieldAll.cons (h : Yields expr env value mid) (hs : YieldAll exprs mid values last) :
    YieldAll (expr :: exprs) env (value :: values) last :=
  yieldAll_cons_iff.2 ⟨value, values, mid, rfl, h, hs⟩

theorem yieldAll_append_iff : YieldAll (exprs ++ exprs') env values last ↔
    ∃ front back mid, values = front ++ back ∧ YieldAll exprs env front mid ∧
      YieldAll exprs' mid back last := by
  induction exprs generalizing env values with
  | nil => simp [yieldAll_nil_iff]
  | cons expr exprs ih =>
    rw [List.cons_append, yieldAll_cons_iff]
    constructor
    · rintro ⟨value, rest, mid, rfl, hyields, hrest⟩
      obtain ⟨front, back, mid', rfl, hfront, hback⟩ := ih.1 hrest
      exact ⟨value :: front, back, mid', rfl, .cons hyields hfront, hback⟩
    · rintro ⟨front, back, mid', rfl, hfront, hback⟩
      obtain ⟨value, rest, mid, rfl, hyields, hrest⟩ := yieldAll_cons_iff.1 hfront
      exact ⟨value, rest ++ back, mid, rfl, hyields, ih.2 ⟨rest, back, mid', rfl, hrest, hback⟩⟩

theorem YieldAll.unique (h : YieldAll exprs env values last)
    (h' : YieldAll exprs env values' last') : values = values' ∧ last = last' := by
  induction exprs generalizing env values values' with
  | nil =>
    obtain ⟨rfl, rfl⟩ := yieldAll_nil_iff.1 h
    obtain ⟨rfl, rfl⟩ := yieldAll_nil_iff.1 h'
    exact ⟨rfl, rfl⟩
  | cons expr exprs ih =>
    obtain ⟨value, rest, mid, rfl, hyields, hrest⟩ := yieldAll_cons_iff.1 h
    obtain ⟨value', rest', mid', rfl, hyields', hrest'⟩ := yieldAll_cons_iff.1 h'
    obtain ⟨rfl, rfl⟩ := hyields.unique hyields'
    obtain ⟨rfl, rfl⟩ := ih hrest hrest'
    exact ⟨rfl, rfl⟩

/-- Atoms that stand for themselves are their own values. -/
theorem exists_yieldAll_self (h : ∀ c ∈ exprs, c.standsForItself = true) (env : Environment F) :
    ∃ last, YieldAll exprs env exprs last := by
  induction exprs generalizing env with
  | nil => exact ⟨env, .nil⟩
  | cons expr exprs ih =>
    have hexpr := yields_of_standsForItself (h expr List.mem_cons_self) env
    obtain ⟨last, hrest⟩ := ih (fun c hc => h c (List.mem_cons_of_mem expr hc)) _
    exact ⟨last, .cons hexpr hrest⟩

end YieldAll

/-! ## Uniform actions -/

/-- An action that treats its evaluator as a black box: what relates two evaluators on all tasks
relates what the action makes of them. -/
def Uniform {A : Type} (Q : A → Prop) (x : Evaluator F → EvalM F A) : Prop :=
  ∀ ⦃R : ActionRel F F⦄ ⦃self self' : Evaluator F⦄, Closed (fun _ => True) R →
    (∀ task : Task, R (Passing fun _ => True) (self task) (self' task)) → R Q (x self) (x self')

theorem uniform_operand (expr : Cell) :
    Uniform (Passing fun _ => True) fun self : Evaluator F => self.operand expr :=
  fun _ _ _ _ hself => hself (.operand expr)

theorem uniform_evaluate (expr : Cell) :
    Uniform (Passing fun _ => True) fun self : Evaluator F => self.evaluate expr :=
  fun _ _ _ hR hself => hR.evaluate (fun task _ => hself task) (.inl trivial)

theorem uniform_dispatch (op : Operator) (args : Cell) :
    Uniform (Passing fun _ => True) fun self : Evaluator F => self.dispatch op args :=
  fun _ _ _ hR hself => hR.dispatch .all (fun task _ => hself task) trivial

section Lawful

variable [LawfulFrame F] {env env' : Environment F}

theorem Uniform.endTogether {A : Type} {Q : A → Prop} {x : Evaluator F → EvalM F A}
    (hx : Uniform Q x) (h : env.SameButTrace env') :
    EndTogether Environment.SameButTrace (fun budget => x (run budget) env)
      fun budget => x (run budget) env' := by
  have hsteady := Prolongs.steady (F := F) (x := fun budget => x (run budget)) fun _ _ hle =>
    hx Prolongs.closed fun task => Prolongs.run hle task task.in_all
  refine .of_eventually (hsteady env) (hsteady env') 0 0 0 fun budget _ => ?_
  exact (hx Environment.SameButTrace.simulation.closed (simulates_run budget) env env' h).imp
    fun _ _ => trivial

theorem Yields.of_sameButTrace {expr value : Cell} {last : Environment F}
    (hyields : Yields expr env value last) (h : env.SameButTrace env') :
    ∃ last', Yields expr env' value last' ∧ last.SameButTrace last' := by
  obtain ⟨o, o', ho, ho', hsame⟩ := (uniform_operand expr).endTogether h
  obtain rfl := ho.unique hyields
  cases hsame with
  | value _ hlast => exact ⟨_, ho', hlast⟩

/-- A form that stands elsewhere ends together with its operator. -/
theorem endTogether_form (op : Operator) (args : List Cell) (h : env.SameButTrace env') :
    EndTogether Environment.SameButTrace (fun budget => (run budget).operand (op.form args) env)
      fun budget => (run budget).dispatch op (.ofList args) env' := by
  obtain ⟨o, o', ho, ho', hsame⟩ := (uniform_dispatch op (.ofList args)).endTogether
    ((Environment.SameButTrace.afterWord env).symm.trans h)
  exact ⟨o, o', settles_form_iff.2 ho, ho', hsame⟩

end Lawful

end ConsLisp

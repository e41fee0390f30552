import ConsLisp.Frame.Containers
import ConsLisp.Proofs.Definition
import ConsLisp.Proofs.MalformedCalls
import ConsLisp.Proofs.StackDiscipline
import Mathlib.Logic.Function.Iterate

/-!
# Failing operands

A form evaluates its operands by an agenda: what it evaluates next depends on the values that it has
got so far (`Operator.agenda`).  If the next expression fails, then the form fails, with the same
error and in the environment that the expression left behind (`Heeds`).  There is one lemma for each
way of evaluating operands, and `heeds_dispatch` puts them together.

The expressions of a body are an agenda too, worked through inside a frame, and when one of them
fails the frame is taken off.  `CallReaches` lists everything that a call may evaluate, `Reaches`
what an expression may evaluate at any depth of nesting, and how many frames lie in between.  An
error comes through all of that unchanged.
-/

namespace ConsLisp

variable {F : Type} [Frame F]

/-! ## Working through an agenda -/

/-- With enough budget, an expression evaluates to a value. -/
def Yields (expr : Cell) (env : Environment F) (value : Cell) (last : Environment F) : Prop :=
  Settles (fun budget => (run budget).operand expr env) (.value value last)

/-- With enough budget, the evaluation of an expression fails. -/
def Fails (expr : Cell) (env : Environment F) (e : EvalError) (last : Environment F) : Prop :=
  Settles (fun budget => (run budget).operand expr env) (.failure e last)

theorem Yields.of_eq {expr value : Cell} {env last : Environment F} {budget : Nat}
    (h : (run budget).operand expr env = .value value last) : Yields expr env value last :=
  (steady_operand expr env).settles_of_value h

theorem Fails.of_eq {expr : Cell} {env last : Environment F} {e : EvalError} {budget : Nat}
    (h : (run budget).operand expr env = .failure e last) : Fails expr env e last :=
  (steady_operand expr env).settles_of_failure h

theorem yields_word (op : Operator) (env : Environment F) :
    Yields (.symbol op.name) env (.operator op) (env.record (.evaluate .symbol env.depth)) :=
  .of_eq (evaluate_word 0 op env)

theorem yields_of_standsForItself {c : Cell} (h : c.standsForItself = true)
    (env : Environment F) : Yields c env c (env.record (.evaluate c.kind env.depth)) := by
  refine .of_eq (?_ : (run 1).operand c env = _)
  show (EvalM.noteEvaluate c >>= fun _ => Evaluator.value (run 0) c) env = _
  rw [Evaluator.value_of_standsForItself _ h]
  rfl

/-- Which expression is evaluated after the ones before it have yielded their values. -/
abbrev Agenda := List Cell → Cell → Prop

/-- What is left of an agenda after its first expression has yielded a value. -/
def Agenda.after (agenda : Agenda) (value : Cell) : Agenda :=
  fun values => agenda (value :: values)

/-- The first expressions of an agenda yield values, one after another. -/
inductive Progress : Agenda → Environment F → List Cell → Environment F → Prop
  | done {agenda env} : Progress agenda env [] env
  | step {agenda expr value values env mid last} : agenda [] expr → Yields expr env value mid →
    Progress (agenda.after value) mid values last → Progress agenda env (value :: values) last

/-- If the next expression of an agenda fails, then the action fails with the same error, and it
does nothing more. -/
def Heeds {A : Type} (agenda : Agenda) (x : Nat → EvalM F A) (env : Environment F) : Prop :=
  ∀ ⦃values mid expr e last⦄, Progress agenda env values mid → agenda values expr →
    Fails expr mid e last → Settles (fun budget => x budget env) (.failure e last)

theorem Progress.mono {agenda agenda' : Agenda} {env last : Environment F} {values : List Cell}
    (h : Progress agenda env values last) (hagenda : ∀ values expr, agenda values expr →
      agenda' values expr) : Progress agenda' env values last := by
  induction h generalizing agenda' with
  | done => exact .done
  | step hfirst hyields _ ih =>
    exact .step (hagenda _ _ hfirst) hyields (ih fun values => hagenda (_ :: values))

namespace Heeds

variable {A B : Type} {agenda : Agenda} {x : Nat → EvalM F A} {env : Environment F} {expr : Cell}

theorem mono {agenda' : Agenda} (h : Heeds agenda' x env)
    (hagenda : ∀ values expr, agenda values expr → agenda' values expr) : Heeds agenda x env :=
  fun _ _ _ _ _ hprogress hnext hfails =>
    h (hprogress.mono hagenda) (hagenda _ _ hnext) hfails

theorem congr {y : Nat → EvalM F A} (h : Heeds agenda y env)
    (heq : ∀ budget, x budget env = y budget env) : Heeds agenda x env := by
  intro values mid expr e last hprogress hnext hfails
  rw [show (fun budget => x budget env) = fun budget => y budget env from funext heq]
  exact h hprogress hnext hfails

/-- There is nothing on the agenda. -/
theorem of_empty (h : ∀ values expr, ¬ agenda values expr) : Heeds agenda x env :=
  fun _ _ _ _ _ _ hnext _ => absurd hnext (h _ _)

theorem bind (h : Heeds agenda x env) {f : Nat → A → EvalM F B} :
    Heeds agenda (fun budget => x budget >>= f budget) env :=
  fun _ _ _ _ _ hprogress hnext hfails => (h hprogress hnext hfails).bind_failure

/-- The action evaluates the first expression of the agenda and goes on with the rest. -/
theorem ask {f : Nat → Cell → EvalM F A} (hfirst : ∀ first, agenda [] first → first = expr)
    (hrest : ∀ value mid, Heeds (agenda.after value) (fun budget => f budget value) mid) :
    Heeds agenda (fun budget => (run budget).operand expr >>= f budget) env := by
  intro values mid next e last hprogress hnext hfails
  cases hprogress with
  | done =>
    obtain rfl := hfirst next hnext
    exact hfails.bind_failure
  | step hasked hyields hprogress =>
    obtain rfl := hfirst _ hasked
    exact hyields.bind (hrest _ _ hprogress hnext hfails)

/-- The action evaluates the only expression of the agenda. -/
theorem only (hfirst : ∀ first, agenda [] first → first = expr)
    (hrest : ∀ value values next, ¬ agenda (value :: values) next) :
    Heeds agenda (fun budget => (run budget).operand expr) env := by
  have hask : Heeds agenda (fun budget => (run budget).operand expr >>= pure) env :=
    ask hfirst fun value _ => of_empty (hrest value)
  simpa only [bind_pure] using hask

end Heeds

/-! ## Operands in order -/

/-- Expressions one after another, whatever they yield. -/
def inOrder (exprs : List Cell) : Agenda :=
  fun values expr => exprs[values.length]? = some expr

theorem heeds_inOrder_nil {A : Type} {x : Nat → EvalM F A} {env : Environment F} :
    Heeds (inOrder []) x env :=
  .of_empty fun _ _ => by simp [inOrder]

theorem heeds_inOrder_cons {A : Type} {expr : Cell} {exprs : List Cell}
    {f : Nat → Cell → EvalM F A} {env : Environment F}
    (h : ∀ value mid, Heeds (inOrder exprs) (fun budget => f budget value) mid) :
    Heeds (inOrder (expr :: exprs)) (fun budget => (run budget).operand expr >>= f budget) env :=
  .ask (fun _ hfirst => (Option.some.inj hfirst).symm) h

theorem heeds_operand (expr : Cell) (env : Environment F) :
    Heeds (inOrder [expr]) (fun budget => (run budget).operand expr) env :=
  .only (fun _ hfirst => (Option.some.inj hfirst).symm) fun _ _ _ => by simp [inOrder]

theorem heeds_values (exprs : List Cell) (env : Environment F) :
    Heeds (inOrder exprs) (fun budget => (run budget).values exprs) env := by
  induction exprs generalizing env with
  | nil => exact heeds_inOrder_nil
  | cons expr exprs ih =>
    simp only [Evaluator.values, List.mapM_cons]
    exact heeds_inOrder_cons fun value mid => (ih mid).bind

theorem heeds_sequence (exprs : List Cell) (env : Environment F) :
    Heeds (inOrder exprs) (fun budget => (run budget).sequence exprs) env := by
  have hfold (acc : Cell) : Heeds (inOrder exprs)
      (fun budget => exprs.foldlM (fun _ expr => (run budget).operand expr) acc) env := by
    induction exprs generalizing acc env with
    | nil => exact heeds_inOrder_nil
    | cons expr exprs ih =>
      simp only [List.foldlM_cons]
      exact heeds_inOrder_cons fun value mid => ih mid value
  exact hfold .nil

theorem settles_values {exprs values : List Cell} {env last : Environment F}
    (h : Progress (inOrder exprs) env values last) (hcount : values.length = exprs.length) :
    Settles (fun budget => (run budget).values exprs env) (.value values last) := by
  induction exprs generalizing env values with
  | nil =>
    obtain rfl := List.length_eq_zero_iff.1 hcount
    cases h
    exact ⟨0, fun _ _ => rfl⟩
  | cons expr exprs ih =>
    cases h with
    | done => cases hcount
    | step hfirst hyields hrest =>
      obtain rfl := Option.some.inj hfirst
      have hvalues := ih hrest (Nat.succ.inj hcount)
      simp only [Evaluator.values, List.mapM_cons]
      exact hyields.bind (hvalues.bind ⟨0, fun _ _ => rfl⟩)

/-! ## Numbers -/

/-- Operands in order, for as long as they yield numbers that are admitted. -/
def calculating (admits : List Number → Prop) (exprs : List Cell) : Agenda := fun values expr =>
  ∃ numbers : List Number, values = numbers.map Number.toCell ∧ admits numbers ∧
    exprs[numbers.length]? = some expr

namespace Heeds

variable {A : Type} {admits admits' : List Number → Prop} {exprs : List Cell}
  {x : Nat → EvalM F A} {env : Environment F}

theorem calculating_nil : Heeds (calculating admits []) x env :=
  .of_empty fun values expr ⟨_, _, _, hexpr⟩ => by simp at hexpr

theorem calculating_of_not (h : ∀ numbers, ¬ admits numbers) :
    Heeds (calculating admits exprs) x env :=
  .of_empty fun _ _ ⟨numbers, _, hadmits, _⟩ => h numbers hadmits

theorem calculating_mono (h : Heeds (calculating admits' exprs) x env)
    (hadmits : ∀ numbers, admits numbers → admits' numbers) :
    Heeds (calculating admits exprs) x env :=
  h.mono fun _ _ ⟨numbers, hvalues, hnumbers, hexpr⟩ =>
    ⟨numbers, hvalues, hadmits numbers hnumbers, hexpr⟩

/-- A value that is not a number ends a calculation, and so there is nothing left to heed. -/
theorem calculating_cons {op : Operator} {expr : Cell} {f : Nat → Number → EvalM F A}
    (h : ∀ a mid, Heeds (calculating (fun numbers => admits (a :: numbers)) exprs)
      (fun budget => f budget a) mid) :
    Heeds (calculating admits (expr :: exprs))
      (fun budget => (run budget).number op expr >>= f budget) env := by
  have hnumber (budget : Nat) : (run (F := F) budget).number op expr >>= f budget =
      (run budget).operand expr >>= fun value =>
        liftM (Evaluator.asNumber op value) >>= f budget := by
    rw [Evaluator.number, bind_assoc]
  simp only [hnumber]
  refine .ask ?_ fun value mid => ?_
  · rintro first ⟨numbers, hvalues, -, hfirst⟩
    obtain rfl := List.map_eq_nil_iff.1 hvalues.symm
    exact (Option.some.inj hfirst).symm
  · -- the agenda goes on only if the value is a number
    have hrest (values : List Cell) (next : Cell)
        (hnext : (calculating admits (expr :: exprs)).after value values next) :
        ∃ a, value = a.toCell ∧
          calculating (fun numbers => admits (a :: numbers)) exprs values next := by
      obtain ⟨numbers, hvalues, hadmits, hnext⟩ := hnext
      cases numbers with
      | nil => cases hvalues
      | cons a numbers =>
        obtain ⟨hvalue, hvalues⟩ := List.cons.inj hvalues
        exact ⟨a, hvalue, numbers, hvalues, hadmits, hnext⟩
    cases hvalue : Number.ofCell? value with
    | none =>
      refine .of_empty fun values next hnext => ?_
      obtain ⟨a, rfl, -⟩ := hrest values next hnext
      rw [Number.ofCell?_toCell] at hvalue
      cases hvalue
    | some a =>
      have hok : Evaluator.asNumber op value = .ok a := by rw [Evaluator.asNumber, hvalue]
      simp only [EvalM.check_of_ok hok]
      refine (h a mid).mono fun values next hnext => ?_
      obtain ⟨b, rfl, hnext⟩ := hrest values next hnext
      rw [Number.ofCell?_toCell] at hvalue
      rwa [← Option.some.inj hvalue]

end Heeds

theorem heeds_foldNumbers {op : Operator} {step : Number → Number → Except EvalError Number}
    {good : Number → Prop} (hstep : ∀ acc a, good a → ∃ b, step acc a = .ok b) (start : Number)
    (exprs : List Cell) (env : Environment F) :
    Heeds (calculating (fun numbers => ∀ a ∈ numbers, good a) exprs)
      (fun budget => (run budget).foldNumbers op step start exprs) env := by
  refine Heeds.bind ?_
  induction exprs generalizing start env with
  | nil => exact .calculating_nil
  | cons expr exprs ih =>
    simp only [List.foldlM_cons, bind_assoc]
    refine .calculating_cons fun a mid => ?_
    by_cases ha : good a
    · obtain ⟨b, hb⟩ := hstep start a ha
      simp only [EvalM.check_of_ok hb]
      exact (ih b mid).calculating_mono fun _ h c hc => h c (List.mem_cons_of_mem a hc)
    · exact .calculating_of_not fun _ h => ha (h a List.mem_cons_self)

/-- Where every step succeeds, every number is admitted. -/
theorem heeds_foldNumbers_ok (op : Operator) (step : Number → Number → Number)
    (admits : List Number → Prop) (start : Number) (exprs : List Cell) (env : Environment F) :
    Heeds (calculating admits exprs)
      (fun budget => (run budget).foldNumbers op (fun acc a => .ok (step acc a)) start exprs)
      env := by
  have hfold : Heeds (calculating (fun numbers => ∀ a ∈ numbers, True) exprs)
      (fun budget => (run budget).foldNumbers op (fun acc a => .ok (step acc a)) start exprs)
      env :=
    heeds_foldNumbers (fun acc a _ => ⟨step acc a, rfl⟩) start exprs env
  exact hfold.calculating_mono fun _ _ _ _ => trivial

/-- Strictly ascending numbers. -/
abbrev Ascends (numbers : List Number) : Prop :=
  numbers.IsChain fun a b => a.lt b = true

theorem heeds_ascendingFrom (previous : Number) (exprs : List Cell) (env : Environment F) :
    Heeds (calculating (fun numbers => Ascends (previous :: numbers)) exprs)
      (fun budget => (run budget).ascendingFrom previous exprs) env := by
  induction exprs generalizing previous env with
  | nil => exact .calculating_nil
  | cons expr exprs ih =>
    simp only [Evaluator.ascendingFrom]
    refine .calculating_cons fun a mid => ?_
    cases hlt : previous.lt a with
    | true =>
      simp only [if_true]
      exact (ih a mid).calculating_mono fun _ h => (List.isChain_cons_cons.1 h).2
    | false =>
      refine .calculating_of_not fun _ h => ?_
      rw [(List.isChain_cons_cons.1 h).1] at hlt
      cases hlt

/-! ## Operators -/

/-- One of two branches, if the test yields a value that can be a test. -/
def choosing (test consequent : Cell) (alternate : Option Cell) : Agenda
  | [], expr => expr = test
  | [value], expr =>
    (Evaluator.truth value = .ok true ∧ expr = consequent) ∨
      (Evaluator.truth value = .ok false ∧ alternate = some expr)
  | _, _ => False

/-- What numbers an operator can have met before it goes on to its next operand. -/
def Operator.Admits : Operator → List Number → Prop
  | div, numbers => ∀ a ∈ numbers.tail, a.isZero = false
  | lessThan, numbers => Ascends numbers
  | _, _ => True

/-- The operands that an operator evaluates, and when. -/
def Operator.agenda (op : Operator) (operands : List Cell) : Agenda :=
  match op, operands with
  | quote, _ | lambda, _ => fun _ _ => False
  | add, _ | sub, _ | mul, _ | div, _ | lessThan, _ => calculating op.Admits operands
  | ifElse, test :: consequent :: alternate => choosing test consequent alternate.head?
  | define, _ => inOrder operands.tail
  | letIn, clauses :: _ => fun values expr =>
    ∃ parts, clauses = clausesOf parts ∧ inOrder (parts.map Prod.snd) values expr
  | _, _ => inOrder operands

/-- Operands that pass the checks that an operator makes before it evaluates any of them. -/
def Operator.Accepts (op : Operator) (operands : List Cell) (env : Environment F) : Prop :=
  op.arity.accepts operands.length = true ∧
    match op, operands with
    | define, target :: _ => ∃ name, target = .symbol name ∧ isReserved name = false ∧
      env.isGloballyBound name = false
    | letIn, clauses :: _ => ∃ parts, clauses = clausesOf parts ∧
      (Formals.positional (parts.map Prod.fst)).Bindable
    | _, _ => True

theorem heeds_ifElse (test consequent : Cell) (alternate : Option Cell) (env : Environment F) :
    Heeds (choosing test consequent alternate)
      (fun budget => (run budget).ifElse test consequent alternate) env := by
  refine .ask (fun _ hfirst => hfirst) fun value mid => ?_
  have hempty (values : List Cell) (v next : Cell) :
      ¬ (choosing test consequent alternate).after value (v :: values) next := id
  cases htruth : Evaluator.truth value with
  | error e =>
    refine .of_empty fun values next hnext => ?_
    cases values with
    | nil => simp [Agenda.after, choosing, htruth] at hnext
    | cons v values => exact hnext
  | ok b =>
    simp only [EvalM.check_of_ok (rfl : Except.ok b = .ok b)]
    cases b with
    | true =>
      refine .only (fun first hfirst => ?_) fun v values next => hempty values v next
      simpa [Agenda.after, choosing, htruth] using hfirst
    | false =>
      cases alternate with
      | some expr =>
        refine .only (fun first hfirst => ?_) fun v values next => hempty values v next
        have heq : expr = first := by simpa [Agenda.after, choosing, htruth] using hfirst
        exact heq.symm
      | none =>
        refine .of_empty fun values next hnext => ?_
        cases values with
        | nil => simp [Agenda.after, choosing, htruth] at hnext
        | cons v values => exact hnext

theorem heeds_difference (expr : Cell) (exprs : List Cell) (env : Environment F) :
    Heeds (calculating Operator.sub.Admits (expr :: exprs))
      (fun budget => (run budget).difference expr exprs) env := by
  refine .calculating_cons fun a mid => ?_
  cases exprs with
  | nil => exact .calculating_nil
  | cons expr exprs => exact heeds_foldNumbers_ok .sub Number.sub _ a (expr :: exprs) mid

theorem heeds_quotient (expr : Cell) (exprs : List Cell) (env : Environment F) :
    Heeds (calculating Operator.div.Admits (expr :: exprs))
      (fun budget => (run budget).quotient expr exprs) env := by
  refine .calculating_cons fun a mid => ?_
  cases exprs with
  | nil => exact .calculating_nil
  | cons expr exprs =>
    have hdiv (acc b : Number) (hb : b.isZero = false) : ∃ c, acc.div b = .ok c := by
      simp [Number.div, hb]
    exact heeds_foldNumbers hdiv a (expr :: exprs) mid

theorem heeds_ascending (exprs : List Cell) (env : Environment F) :
    Heeds (calculating Operator.lessThan.Admits exprs)
      (fun budget => (run budget).ascending exprs) env := by
  cases exprs with
  | nil => exact .calculating_nil
  | cons expr exprs => exact .calculating_cons fun a mid => heeds_ascendingFrom a exprs mid

theorem heeds_define {name : String} (hname : Operator.isReserved name = false) (expr : Cell)
    {env : Environment F} (hfree : env.isGloballyBound name = false) :
    Heeds (inOrder [expr]) (fun budget => (run budget).define (.symbol name) expr) env := by
  simp only [Evaluator.define_symbol _ hname]
  exact Heeds.congr (heeds_operand expr env).bind fun _ => EvalM.defineAs_of_free hfree

theorem heeds_letIn {clauses : Cell} {names : List (String × Cell)}
    (hclauses : clauses = clausesOf names)
    (hnames : (Formals.positional (names.map Prod.fst)).Bindable) (body : List Cell)
    (env : Environment F) :
    Heeds (fun values expr => ∃ parts, clauses = clausesOf parts ∧
        inOrder (parts.map Prod.snd) values expr)
      (fun budget => (run budget).letIn clauses body) env := by
  subst hclauses
  simp only [Evaluator.letIn_clausesOf _ hnames]
  refine (heeds_values _ env).bind.mono ?_
  rintro values expr ⟨parts, hparts, hnext⟩
  rwa [clausesOf_injective hparts]

section Dispatch

variable {op : Operator} {operands : List Cell} {env : Environment F}

theorem Heeds.of_run? {agenda : Agenda} {x : Nat → EvalM F Cell} (h : Heeds agenda x env)
    (hrun : ∀ budget, ((run budget).builtin op).run? operands = some (x budget)) :
    Heeds agenda (fun budget => (run budget).dispatch op (.ofList operands)) env :=
  h.congr fun budget => by rw [Evaluator.dispatch_of_run? _ (hrun budget)]

theorem heeds_one {f : Nat → Cell → EvalM F Cell}
    (hop : ∀ budget, (run budget).builtin op = .one (f budget))
    (hcount : (Arity.exactly 1).accepts operands.length = true)
    (h : ∀ a, Heeds (inOrder [a]) (fun budget => f budget a) env) :
    Heeds (inOrder operands) (fun budget => (run budget).dispatch op (.ofList operands)) env := by
  obtain ⟨a, rfl⟩ := List.length_eq_one_iff.1 (eq_of_beq hcount)
  exact (h a).of_run? fun budget => by rw [hop, Builtin.run?]

theorem heeds_two {f : Nat → Cell → Cell → EvalM F Cell}
    (hop : ∀ budget, (run budget).builtin op = .two (f budget))
    (hcount : (Arity.exactly 2).accepts operands.length = true)
    (h : ∀ a b, Heeds (inOrder [a, b]) (fun budget => f budget a b) env) :
    Heeds (inOrder operands) (fun budget => (run budget).dispatch op (.ofList operands)) env := by
  obtain ⟨a, b, rfl⟩ := List.length_eq_two.1 (eq_of_beq hcount)
  exact (h a b).of_run? fun budget => by rw [hop, Builtin.run?]

/-- An operator heeds all operands that it evaluates. -/
theorem heeds_dispatch (h : op.Accepts operands env) :
    Heeds (op.agenda operands) (fun budget => (run budget).dispatch op (.ofList operands)) env := by
  obtain ⟨hcount, hchecked⟩ := h
  have hpos (hop : op.arity = .atLeast 1) : ∃ expr exprs, operands = expr :: exprs := by
    rw [hop] at hcount
    exact List.exists_cons_of_length_pos (of_decide_eq_true hcount)
  cases op with
  | quote | lambda => exact .of_empty fun _ _ => id
  | add =>
    exact (heeds_foldNumbers_ok .add Number.add _ (.integer 0) operands env).of_run? fun _ => rfl
  | mul =>
    exact (heeds_foldNumbers_ok .mul Number.mul _ (.integer 1) operands env).of_run? fun _ => rfl
  | sub =>
    obtain ⟨expr, exprs, rfl⟩ := hpos rfl
    exact (heeds_difference expr exprs env).of_run? fun _ => rfl
  | div =>
    obtain ⟨expr, exprs, rfl⟩ := hpos rfl
    exact (heeds_quotient expr exprs env).of_run? fun _ => rfl
  | lessThan => exact (heeds_ascending operands env).of_run? fun _ => rfl
  | ifElse =>
    have hbounds : 2 ≤ operands.length ∧ operands.length ≤ 3 := of_decide_eq_true hcount
    rcases operands with _ | ⟨test, _ | ⟨consequent, _ | ⟨alternate, _ | ⟨other, rest⟩⟩⟩⟩
    · simp only [List.length_nil] at hbounds
      omega
    · simp only [List.length_singleton] at hbounds
      omega
    · exact (heeds_ifElse test consequent none env).of_run? fun _ => rfl
    · exact (heeds_ifElse test consequent (some alternate) env).of_run? fun _ => rfl
    · simp only [List.length_cons] at hbounds
      omega
  | define =>
    obtain ⟨target, expr, rfl⟩ := List.length_eq_two.1 (eq_of_beq hcount)
    obtain ⟨name, rfl, hname, hfree⟩ := hchecked
    exact (heeds_define hname expr hfree).of_run? fun _ => rfl
  | letIn =>
    obtain ⟨clauses, body, rfl⟩ := hpos rfl
    obtain ⟨parts, hclauses, hnames⟩ := hchecked
    exact (heeds_letIn hclauses hnames body env).of_run? fun _ => rfl
  | floor | ceiling =>
    exact heeds_one (fun _ => rfl) hcount fun a => (heeds_operand a env).bind.bind
  | not | nullp | intp | doublep | symbolp | listp | print | eval | car | cdr =>
    exact heeds_one (fun _ => rfl) hcount fun a => (heeds_operand a env).bind
  | cons | apply =>
    exact heeds_two (fun _ => rfl) hcount fun a b =>
      heeds_inOrder_cons fun _ mid => (heeds_operand b mid).bind

end Dispatch

/-! ## Procedures -/

theorem heeds_arguments {formals : Formals} (hformals : formals.Bindable) {exprs : List Cell}
    (hcount : formals.Fits exprs.length) (body : List Cell) (env : Environment F) :
    Heeds (inOrder exprs)
      (fun budget => (run budget).applyToOperands formals.toCell body (.ofList exprs)) env := by
  simp only [Evaluator.applyToOperands_toCell _ hformals hcount]
  exact (heeds_values exprs env).bind

/-- When `values` have been bound to `formals`, the body comes to `expr` in the environment `inner`,
which has one frame more. -/
def BodyReaches (formals : Formals) (values body : List Cell) (env : Environment F) (expr : Cell)
    (inner : Environment F) : Prop :=
  ∃ bindings results, formals.bindings values = .ok bindings ∧
    Progress (inOrder body) (env.enter bindings) results inner ∧ inOrder body results expr

/-- A failing expression of a body ends the body, and then the frame is taken off. -/
theorem BodyReaches.fails {formals : Formals} {values body : List Cell}
    {env inner last : Environment F} {expr : Cell} {e : EvalError}
    (h : BodyReaches formals values body env expr inner) (hfails : Fails expr inner e last) :
    Settles (fun budget => (liftM (formals.bindings values) >>= fun bindings =>
      EvalM.inFrame bindings ((run budget).sequence body) : EvalM F Cell) env)
      (.failure e last.pop) := by
  obtain ⟨bindings, results, hbindings, hprogress, hnext⟩ := h
  simp only [EvalM.check_of_ok hbindings]
  exact (heeds_sequence body (env.enter bindings) hprogress hnext hfails).inFrame

/-! ## Calls -/

/-- What a call evaluates: `CallReaches callee args start expr inner frames` says that the call of
`callee` on `args` in `start` comes to `expr` in `inner`, with so many frames pushed in between. -/
inductive CallReaches : Cell → Cell → Environment F → Cell → Environment F → Nat → Prop
  | operand {op : Operator} {operands start values inner expr} : op.Accepts operands start →
    Progress (op.agenda operands) start values inner → op.agenda operands values expr →
    CallReaches (.operator op) (.ofList operands) start expr inner 0
  | argument {formals : Formals} {body exprs start values inner expr} : formals.Bindable →
    formals.Fits exprs.length → Progress (inOrder exprs) start values inner →
    inOrder exprs values expr →
    CallReaches (.procedure formals.toCell body) (.ofList exprs) start expr inner 0
  | body {formals : Formals} {body exprs start values mid inner expr} : formals.Bindable →
    formals.Fits exprs.length → Progress (inOrder exprs) start values mid →
    values.length = exprs.length → BodyReaches formals values body mid expr inner →
    CallReaches (.procedure formals.toCell body) (.ofList exprs) start expr inner 1
  | letBody {parts : List (String × Cell)} {body start values mid inner expr} :
    (Formals.positional (parts.map Prod.fst)).Bindable →
    Progress (inOrder (parts.map Prod.snd)) start values mid → values.length = parts.length →
    BodyReaches (.positional (parts.map Prod.fst)) values body mid expr inner →
    CallReaches (.operator .letIn) (.ofList (clausesOf parts :: body)) start expr inner 1
  | applyBody {formals : Formals} {calleeExpr listExpr body start values mid inner expr} :
    formals.Bindable → formals.Fits values.length →
    Progress (inOrder [calleeExpr, listExpr]) start
      [.procedure formals.toCell body, .ofList values] mid →
    BodyReaches formals values body mid expr inner →
    CallReaches (.operator .apply) (.ofList [calleeExpr, listExpr]) start expr inner 1
  | applied {op : Operator} {calleeExpr listExpr start values mid inner expr frames} :
    op.takesSyntax = false →
    Progress (inOrder [calleeExpr, listExpr]) start [.operator op, .ofList values] mid →
    CallReaches (.operator op) (.ofList (values.map Evaluator.quoted)) mid expr inner frames →
    CallReaches (.operator .apply) (.ofList [calleeExpr, listExpr]) start expr inner frames
  | code {codeExpr start code inner} : Yields codeExpr start code inner → code ≠ .nil →
    CallReaches (.operator .eval) (.ofList [codeExpr]) start code inner 0

/-- `apply` goes on with what its operands have yielded. -/
theorem settles_apply {calleeExpr listExpr callee : Cell} {values : List Cell}
    {start mid : Environment F} {o : Outcome (Environment F) Cell}
    (hoperands : Progress (inOrder [calleeExpr, listExpr]) start [callee, .ofList values] mid)
    (h : Settles (fun budget => (run budget).applyTo callee values mid) o) :
    Settles (fun budget => (run budget).call (.operator .apply)
      (.ofList [calleeExpr, listExpr]) start) o := by
  cases hoperands with
  | step hfirst hcallee hrest =>
    obtain rfl := Option.some.inj hfirst
    cases hrest with
    | step hsecond hlist hrest =>
      obtain rfl := Option.some.inj hsecond
      cases hrest
      have happly : Settles (fun budget => (run budget).apply calleeExpr listExpr start) o := by
        refine hcallee.bind (hlist.bind ?_)
        simp only [EvalM.check_of_ok (Cell.operands_ofList _ values)]
        exact h
      exact happly

/-- An error in what a call evaluates is the error of the call. -/
theorem CallReaches.fails {callee args expr : Cell} {start inner last : Environment F}
    {frames : Nat} {e : EvalError} (h : CallReaches callee args start expr inner frames)
    (hfails : Fails expr inner e last) :
    Settles (fun budget => (run budget).call callee args start)
      (.failure e (Environment.pop^[frames] last)) := by
  induction h with
  | operand haccepts hprogress hnext => exact heeds_dispatch haccepts hprogress hnext hfails
  | argument hformals hcount hprogress hnext =>
    exact heeds_arguments hformals hcount _ _ hprogress hnext hfails
  | body hformals hcount hprogress hlength hbody =>
    simp only [Evaluator.call, Evaluator.applyToOperands_toCell _ hformals hcount]
    exact (settles_values hprogress hlength).bind (hbody.fails hfails)
  | @letBody parts body start values mid inner expr hnames hprogress hlength hbody =>
    have hlet (budget : Nat) : (run (F := F) budget).dispatch .letIn
        (.ofList (clausesOf parts :: body)) = (run budget).letIn (clausesOf parts) body :=
      Evaluator.dispatch_of_run? _ rfl
    simp only [Evaluator.call, hlet, Evaluator.letIn_clausesOf _ hnames]
    exact (settles_values hprogress (by simpa using hlength)).bind (hbody.fails hfails)
  | applyBody hformals hcount hoperands hbody =>
    refine settles_apply hoperands ?_
    simp only [Evaluator.applyTo, Evaluator.applyToValues_toCell _ hformals hcount]
    exact hbody.fails hfails
  | @applied op _ _ _ values _ _ _ _ hop hoperands _ ih =>
    refine settles_apply hoperands ?_
    have happly (budget : Nat) : (run (F := F) budget).applyTo (.operator op) values =
        run budget (.dispatch op (.ofList (values.map Evaluator.quoted))) := by
      simp only [Evaluator.applyTo, hop]
      rfl
    simp only [happly]
    exact .of_succ (ih hfails)
  | @code codeExpr start code _ hyields hne =>
    have heval : Settles (fun budget => (run budget).eval codeExpr start) (.failure e last) := by
      refine hyields.bind ?_
      have hcode (budget : Nat) : (run (F := F) budget).evaluate code =
          (run budget).operand code := Evaluator.evaluate_of_ne_nil _ hne
      simp only [hcode]
      exact hfails
    exact heval

/-! ## Expressions -/

/-- What the evaluation of an expression comes to at any depth: the expression itself, whatever its
head comes to, and whatever the expressions come to that its call evaluates.  The frames that are
pushed in between are counted. -/
inductive Reaches : Cell → Environment F → Cell → Environment F → Nat → Prop
  | here {expr env} : Reaches expr env expr env 0
  | head {head args env expr inner frames} : head ≠ .nil →
    Reaches head (env.record (.evaluate .pair env.depth)) expr inner frames →
    Reaches (.pair head args) env expr inner frames
  | call {head args env callee start mid between expr inner frames frames'} : head ≠ .nil →
    Yields head (env.record (.evaluate .pair env.depth)) callee start →
    CallReaches callee args start mid between frames →
    Reaches mid between expr inner frames' →
    Reaches (.pair head args) env expr inner (frames + frames')

/-- An error at any depth is the error of the whole. -/
theorem Reaches.fails {expr inner : Cell} {env mid last : Environment F} {frames : Nat}
    {e : EvalError} (h : Reaches expr env inner mid frames) (hfails : Fails inner mid e last) :
    Fails expr env e (Environment.pop^[frames] last) := by
  -- a pair takes one task more than its head and its call
  have hpair {head args : Cell} {env : Environment F} {o : Outcome (Environment F) Cell}
      (hne : head ≠ .nil) (h : Settles (fun budget => ((run budget).operand head >>= fun callee =>
        (run budget).call callee args) (env.record (.evaluate .pair env.depth))) o) :
      Settles (fun budget => (run budget).operand (.pair head args) env) o := by
    refine .of_succ ?_
    simp only [← Evaluator.evaluate_of_ne_nil _ hne] at h
    exact h
  induction h with
  | here => exact hfails
  | head hne _ ih => exact hpair hne (ih hfails).bind_failure
  | call hne hyields hcall _ ih =>
    rw [Function.iterate_add_apply]
    exact hpair hne (hyields.bind (hcall.fails (ih hfails)))

/-- Nil is not an expression that fails. -/
theorem Fails.ne_nil {expr : Cell} {env last : Environment F} {e : EvalError}
    (h : Fails expr env e last) : expr ≠ .nil := by
  rintro rfl
  have hvalue : (run 1).operand .nil env = .value .nil (env.record (.evaluate .nil env.depth)) :=
    rfl
  have hyields : Yields .nil env .nil _ := .of_eq hvalue
  cases h.unique hyields

/-- Whatever an expression comes to, it leaves the stack as it was. -/
theorem locals_of_settles {expr : Cell} {env last : Environment F}
    {o : Outcome (Environment F) Cell}
    (h : Settles (fun budget => (run budget).operand expr env) o) (hlast : o.state? = some last) :
    last.locals = env.locals := by
  obtain ⟨least, h⟩ := h
  have hrun : run least (.operand expr) env = o := h least (Nat.le_refl _)
  obtain ⟨-, hends⟩ :=
    (KeepsStack.closed []).run .all least (.operand expr) (.inl trivial) env List.nil_suffix
  rw [hrun] at hends
  cases o with
  | value value mid =>
    obtain rfl := Option.some.inj hlast
    exact hends.2.locals_eq
  | failure e mid =>
    obtain rfl := Option.some.inj hlast
    exact Environment.Grows.locals_eq hends
  | exhausted => cases hlast

/-- **A failing operand aborts everything around it.**  When an operator has accepted its operands,
and those that it evaluates first have yielded values with which it goes on, and the next one fails,
then the operator fails with the same error, and the environment is as this operand left it.  The
same is true of whatever a call comes to: an argument, an expression of a body, whose frame is taken
off, or code that is run as data.  So an error comes from any depth to the outside, unchanged, with
nothing undone and nothing else evaluated, and the stack is again as it was at the beginning. -/
theorem failing_operand_aborts_enclosing_expression :
    (∀ (op : Operator) (operands values : List Cell) (expr : Cell) (e : EvalError)
      (start mid last : Environment F), op.Accepts operands start →
      Progress (op.agenda operands) start values mid → op.agenda operands values expr →
      Fails expr mid e last →
      Settles (fun budget => dispatch budget op (.ofList operands) start) (.failure e last)) ∧
    (∀ (callee args expr : Cell) (e : EvalError) (start inner last : Environment F) (frames : Nat),
      CallReaches callee args start expr inner frames → Fails expr inner e last →
      Settles (fun budget => (run budget).call callee args start)
        (.failure e (Environment.pop^[frames] last))) ∧
    ∀ (expr inner : Cell) (e : EvalError) (env mid last : Environment F) (frames : Nat),
      Reaches expr env inner mid frames → Fails inner mid e last →
      Settles (fun budget => evaluate budget expr env)
        (.failure e (Environment.pop^[frames] last)) ∧
      (Environment.pop^[frames] last).locals = env.locals := by
  refine ⟨?_, ?_, ?_⟩
  · intro op operands values expr e start mid last haccepts hprogress hnext hfails
    exact .of_succ (heeds_dispatch haccepts hprogress hnext hfails)
  · intro callee args expr e start inner last frames hreaches hfails
    exact hreaches.fails hfails
  · intro expr inner e env mid last frames hreaches hfails
    have hwhole := hreaches.fails hfails
    have hevaluate : Settles (fun budget => evaluate budget expr env)
        (.failure e (Environment.pop^[frames] last)) := by
      simp only [evaluate, Evaluator.evaluate_of_ne_nil _ hwhole.ne_nil]
      exact hwhole
    exact ⟨hevaluate, locals_of_settles hwhole rfl⟩

/-- What stands in front is printed and what stands behind is not, in three places: an operand of
`<`, an argument of a procedure, and the body of a `let` that is an operand itself. -/
theorem failing_operand_aborts_enclosing_expression_halfway :
    let env : Environment OrderedFrame := Environment.fresh .unlimited
    let bad : Cell := Operator.car.form [.integer 5]
    let print : Cell := Operator.print.form [.integer 7]
    let block : Cell := letForm [(.symbol "x", .integer 5)] [print, bad, print]
    let e : EvalError := .notAPair (.builtin .car) .integer
    (∃ last, Settles (fun budget => dispatch budget .lessThan
        (.ofList [.integer 1, .integer 2, bad, print]) env) (.failure e last)) ∧
      (∃ last, Settles (fun budget => (run budget).call (.procedure (.symbol "xs") [.nil])
        (.ofList [print, bad, print]) env) (.failure e last)) ∧
      ∃ last, Settles (fun budget => evaluate budget (Operator.cons.form [block, print]) env)
          (.failure e last) ∧
        last.locals = [] ∧ last.output.written = "7\n".toUTF8 := by
  intro env bad print block e
  obtain ⟨hdispatch, hcall, hevaluate⟩ :=
    failing_operand_aborts_enclosing_expression (F := OrderedFrame)
  have hinteger (n : Int64) (env : Environment OrderedFrame) :
      Yields (.integer n) env (.integer n) (env.record (.evaluate .integer env.depth)) :=
    yields_of_standsForItself rfl env
  have hbad (env : Environment OrderedFrame) : Fails bad env e _ :=
    .of_eq (rfl : (run 2).operand bad env = _)
  refine ⟨?_, ?_, ?_⟩
  · have hprogress : Progress (Operator.lessThan.agenda [.integer 1, .integer 2, bad, print]) env
        [.integer 1, .integer 2] _ :=
      .step ⟨[], rfl, .nil, rfl⟩ (hinteger 1 env)
        (.step ⟨[.integer 1], rfl, .singleton _, rfl⟩ (hinteger 2 _) .done)
    have hnext : Operator.lessThan.agenda [.integer 1, .integer 2, bad, print]
        [.integer 1, .integer 2] bad :=
      ⟨[.integer 1, .integer 2], rfl, List.isChain_cons_cons.2 ⟨rfl, .singleton _⟩, rfl⟩
    exact ⟨_, hdispatch _ _ _ _ e _ _ _ ⟨rfl, trivial⟩ hprogress hnext (hbad _)⟩
  · have hprint : Yields print env .nil _ := .of_eq (rfl : (run 2).operand print env = _)
    have hreaches : CallReaches (.procedure (Formals.variadic "xs").toCell [.nil])
        (.ofList [print, bad, print]) env bad _ 0 :=
      .argument rfl trivial (.step rfl hprint .done) rfl
    exact ⟨_, hcall _ _ _ e _ _ _ 0 hreaches (hbad _)⟩
  · let parts : List (String × Cell) := [("x", .integer 5)]
    have hnames : (Formals.positional (parts.map Prod.fst)).Bindable := ⟨by decide, by decide⟩
    have hne (word : String) : Cell.symbol word ≠ .nil := fun h => nomatch h
    let noted (env : Environment OrderedFrame) : Environment OrderedFrame :=
      (env.record (.evaluate .pair env.depth)).record (.evaluate .symbol env.depth)
    let mid : Environment OrderedFrame := noted (noted env)
    have hfive : Progress (inOrder (parts.map Prod.snd)) mid [.integer 5] _ :=
      .step rfl (hinteger 5 mid) .done
    have hprint : Yields print ((mid.record (.evaluate .integer mid.depth)).enter
        [("x", .integer 5)]) .nil _ := .of_eq (rfl : (run 2).operand print _ = _)
    have hbody : BodyReaches (.positional (parts.map Prod.fst)) [.integer 5] [print, bad, print]
        (mid.record (.evaluate .integer mid.depth)) bad _ :=
      ⟨_, [.nil], rfl, .step rfl hprint .done, rfl⟩
    have hblock : Reaches block (noted env) bad _ 1 :=
      .call (hne _) (yields_word .letIn _) (.letBody hnames hfive rfl hbody) .here
    have hcons : CallReaches (.operator .cons) (.ofList [block, print]) (noted env) block
        (noted env) 0 :=
      .operand ⟨rfl, trivial⟩ .done rfl
    have hreaches : Reaches (Operator.cons.form [block, print]) env bad _ (0 + 1) :=
      .call (hne _) (yields_word .cons _) hcons hblock
    obtain ⟨hsettles, hlocals⟩ := hevaluate _ _ e _ _ _ _ hreaches (hbad _)
    exact ⟨_, hsettles, hlocals, rfl⟩

end ConsLisp

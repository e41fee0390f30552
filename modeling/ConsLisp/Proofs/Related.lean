import ConsLisp.Proofs.Checks
import Mathlib.Data.List.Forall2

/-!
# Relating two evaluations

Most of what can be said about every evaluation has one shape: a relation `R` holds between two
actions, or is a property of one of them, because it holds between the primitives of `EvalM` and
sequencing keeps it.  `Kept P R` lists exactly that, and there is a lemma for each form of the
language that concludes it of the form from the tasks that the form may ask for.

`R` also carries what is known of the value that is yielded, since a form may rely on what its
operands evaluated to.  Stored data is taken from a class `P` of cells, and values under way from
a class `V` that may hold operators besides (`Transit`).  Where nothing more is known, a value is
`Passing` (`ConsLisp.Proofs.Checks`).

An operator that takes values learns of an operand no more than its value, so for such an operator
the operands need not be the same on both sides: it is enough that their evaluations are related
(`Evaluator.Agree`, `Kept.valueBuiltin`).

A relation that also holds between runs that give up is `Closed`.  If it relates two evaluators on
all tasks, it relates what `Evaluator.step` makes of them (`Closed.step`), and `Closed.run` is the
induction on the budget.
-/

namespace ConsLisp

variable {F G : Type}

/-! ## Relations that sequencing keeps -/

/-- A relation between actions that may depend on what is known of the value yielded. -/
abbrev ActionRel (F G : Type) : Type 1 :=
  ∀ ⦃A : Type⦄, (A → Prop) → EvalM F A → EvalM G A → Prop

/-- A relation that sequencing keeps.  Errors need be related only if a check can justify them. -/
structure Chained (R : ActionRel F G) : Prop where
  pure_rel {A : Type} {Q : A → Prop} {a : A} : Q a → R Q (pure a) (pure a)
  bind_rel {A B : Type} {Q : A → Prop} {Q' : B → Prop} {x : EvalM F A} {y : EvalM G A}
    {f : A → EvalM F B} {g : A → EvalM G B} :
    R Q x y → (∀ a, Q a → R Q' (f a) (g a)) → R Q' (x >>= f) (y >>= g)
  fail_rel {A : Type} {Q : A → Prop} {e : EvalError} :
    e.Justified → R Q (EvalM.fail e) (EvalM.fail e)

/-- A relation that sequencing keeps and that does not ask of a run that it ends. -/
structure Sequenced (R : ActionRel F G) : Prop extends Chained R where
  exhausted_rel {A : Type} {Q : A → Prop} : R Q EvalM.exhausted EvalM.exhausted

namespace Chained

variable {R : ActionRel F G} (hR : Chained R)

include hR

theorem mono_rel {A : Type} {Q Q' : A → Prop} {x : EvalM F A} {y : EvalM G A} (h : R Q x y)
    (hQ : ∀ a, Q a → Q' a) : R Q' x y := by
  have := hR.bind_rel h fun a ha => hR.pure_rel (hQ a ha)
  rwa [bind_pure, bind_pure] at this

theorem lift_rel {A : Type} {Q : A → Prop} {check : Except EvalError A} (h : Meets Q check) :
    R Q (liftM check) (liftM check) := by
  cases check with
  | ok a => exact hR.pure_rel h
  | error e => exact hR.fail_rel h

theorem mapM_rel {A A' B : Type} {Q : B → Prop} {f : A → EvalM F B} {g : A' → EvalM G B}
    {xs : List A} {xs' : List A'} (h : List.Forall₂ (fun x x' => R Q (f x) (g x')) xs xs') :
    R (fun ys => ∀ y ∈ ys, Q y) (xs.mapM f) (xs'.mapM g) := by
  induction h with
  | nil => exact hR.pure_rel fun y hy => absurd hy List.not_mem_nil
  | cons hx _ ih =>
    rw [List.mapM_cons, List.mapM_cons]
    refine hR.bind_rel hx fun y hy => ?_
    refine hR.bind_rel ih fun ys hys => ?_
    refine hR.pure_rel fun z hz => ?_
    rcases List.mem_cons.1 hz with rfl | hz
    · exact hy
    · exact hys z hz

theorem foldlM_rel {A A' B : Type} {Q : B → Prop} {f : B → A → EvalM F B} {g : B → A' → EvalM G B}
    {xs : List A} {xs' : List A'}
    (h : List.Forall₂ (fun x x' => ∀ b, Q b → R Q (f b x) (g b x')) xs xs') {start : B}
    (hstart : Q start) : R Q (xs.foldlM f start) (xs'.foldlM g start) := by
  induction h generalizing start with
  | nil => exact hR.pure_rel hstart
  | cons hx _ ih =>
    rw [List.foldlM_cons, List.foldlM_cons]
    exact hR.bind_rel (hx start hstart) fun b hb => ih hb

end Chained

/-! ## Related operations and tasks -/

/-- Two operations that take the same numbers of operands, and that are related on operands that
correspond to each other, as actions that yield values of a class `V`. -/
inductive Builtin.Rel (E : Cell → Cell → Prop) (V : Cell → Prop) (R : ActionRel F G) :
    Builtin F → Builtin G → Prop
  | any {run run'} :
    (∀ cs cs', List.Forall₂ E cs cs' → R V (run cs) (run' cs')) →
    Rel E V R (.any run) (.any run')
  | one {run run'} : (∀ a a', E a a' → R V (run a) (run' a')) →
    Rel E V R (.one run) (.one run')
  | two {run run'} : (∀ a a' b b', E a a' → E b b' → R V (run a b) (run' a' b')) →
    Rel E V R (.two run) (.two run')
  | twoOrThree {run run'} :
    (∀ a a' b b' c c', E a a' → E b b' → Option.Rel E c c' →
      R V (run a b c) (run' a' b' c')) →
    Rel E V R (.twoOrThree run) (.twoOrThree run')
  | oneAndMore {run run'} :
    (∀ a a' cs cs', E a a' → List.Forall₂ E cs cs' → R V (run a cs) (run' a' cs')) →
    Rel E V R (.oneAndMore run) (.oneAndMore run')
  | twoAndMore {run run'} :
    (∀ a a' b b' cs cs', E a a' → E b b' → List.Forall₂ E cs cs' →
      R V (run a b cs) (run' a' b' cs')) →
    Rel E V R (.twoAndMore run) (.twoAndMore run')

namespace Builtin.Rel

variable {E : Cell → Cell → Prop} {V : Cell → Prop} {R : ActionRel F G} {builtin : Builtin F}
  {builtin' : Builtin G}

theorem arity_eq (h : Rel E V R builtin builtin') : builtin.arity = builtin'.arity := by
  cases h <;> rfl

/-- Operations are related on fewer operands when fewer correspond to each other. -/
theorem mono {E' : Cell → Cell → Prop} (h : Rel E V R builtin builtin')
    (hE : ∀ c c', E' c c' → E c c') : Rel E' V R builtin builtin' := by
  have hall {cs cs' : List Cell} (hcs : List.Forall₂ E' cs cs') : List.Forall₂ E cs cs' :=
    hcs.imp hE
  cases h with
  | any h => exact .any fun _ _ hcs => h _ _ (hall hcs)
  | one h => exact .one fun _ _ ha => h _ _ (hE _ _ ha)
  | two h => exact .two fun _ _ _ _ ha hb => h _ _ _ _ (hE _ _ ha) (hE _ _ hb)
  | twoOrThree h =>
    refine .twoOrThree fun _ _ _ _ c c' ha hb hc => h _ _ _ _ c c' (hE _ _ ha) (hE _ _ hb) ?_
    cases hc with
    | some hc => exact .some (hE _ _ hc)
    | none => exact .none
  | oneAndMore h => exact .oneAndMore fun _ _ _ _ ha hcs => h _ _ _ _ (hE _ _ ha) (hall hcs)
  | twoAndMore h =>
    exact .twoAndMore fun _ _ _ _ _ _ ha hb hcs =>
      h _ _ _ _ _ _ (hE _ _ ha) (hE _ _ hb) (hall hcs)

/-- Operands are taken by both operations or by neither. -/
theorem run?_cases (h : Rel E V R builtin builtin') {operands operands' : List Cell}
    (hoperands : List.Forall₂ E operands operands') :
    (∃ x y, builtin.run? operands = some x ∧ builtin'.run? operands' = some y ∧
      R V x y) ∨ (builtin.run? operands = none ∧ builtin'.run? operands' = none) := by
  cases h with
  | any h => exact .inl ⟨_, _, rfl, rfl, h _ _ hoperands⟩
  | one h =>
    rcases hoperands with _ | ⟨ha, _ | _⟩
    · exact .inr ⟨rfl, rfl⟩
    · exact .inl ⟨_, _, rfl, rfl, h _ _ ha⟩
    · exact .inr ⟨rfl, rfl⟩
  | two h =>
    rcases hoperands with _ | ⟨ha, _ | ⟨hb, _ | _⟩⟩
    · exact .inr ⟨rfl, rfl⟩
    · exact .inr ⟨rfl, rfl⟩
    · exact .inl ⟨_, _, rfl, rfl, h _ _ _ _ ha hb⟩
    · exact .inr ⟨rfl, rfl⟩
  | twoOrThree h =>
    rcases hoperands with _ | ⟨ha, _ | ⟨hb, _ | ⟨hc, _ | _⟩⟩⟩
    · exact .inr ⟨rfl, rfl⟩
    · exact .inr ⟨rfl, rfl⟩
    · exact .inl ⟨_, _, rfl, rfl, h _ _ _ _ none none ha hb .none⟩
    · exact .inl ⟨_, _, rfl, rfl, h _ _ _ _ (some _) (some _) ha hb (.some hc)⟩
    · exact .inr ⟨rfl, rfl⟩
  | oneAndMore h =>
    rcases hoperands with _ | ⟨ha, hrest⟩
    · exact .inr ⟨rfl, rfl⟩
    · exact .inl ⟨_, _, rfl, rfl, h _ _ _ _ ha hrest⟩
  | twoAndMore h =>
    rcases hoperands with _ | ⟨ha, _ | ⟨hb, hrest⟩⟩
    · exact .inr ⟨rfl, rfl⟩
    · exact .inr ⟨rfl, rfl⟩
    · exact .inl ⟨_, _, rfl, rfl, h _ _ _ _ _ _ ha hb hrest⟩

end Builtin.Rel

/-- A task all of whose cells are of a class. -/
def Task.In (P : Cell → Prop) : Task → Prop
  | .operand expr => Passing P expr
  | .dispatch _ args => P args

theorem Task.in_all (task : Task) : task.In fun _ => True := by
  cases task with
  | operand expr => exact .inl trivial
  | dispatch op args => trivial

/-- The same cell twice, of a class. -/
def Twice (P : Cell → Prop) (c c' : Cell) : Prop :=
  c' = c ∧ P c

theorem forall₂_twice_iff {P : Cell → Prop} {cs cs' : List Cell} :
    List.Forall₂ (Twice P) cs cs' ↔ cs' = cs ∧ ∀ c ∈ cs, P c := by
  constructor
  · intro h
    induction h with
    | nil => simp
    | cons h _ ih =>
      obtain ⟨rfl, ha⟩ := h
      obtain ⟨rfl, hcs⟩ := ih
      exact ⟨rfl, by simpa using ⟨ha, hcs⟩⟩
  · rintro ⟨rfl, h⟩
    exact List.forall₂_same.2 fun c hc => ⟨rfl, h c hc⟩

/-- Two expressions whose evaluations are related, and yield values of a class. -/
def Evaluator.Agree (self : Evaluator F) (V : Cell → Prop) (R : ActionRel F G)
    (self' : Evaluator G) (expr expr' : Cell) : Prop :=
  R V (self.operand expr) (self'.operand expr')

theorem Evaluator.agree_of_in {P : Cell → Prop} {R : ActionRel F G} {self : Evaluator F}
    {self' : Evaluator G} (hself : ∀ task, Task.In P task → R (Passing P) (self task) (self' task))
    {expr : Cell} (h : P expr) : self.Agree (Passing P) R self' expr expr :=
  hself (.operand expr) (.inl h)

theorem Twice.agree {P V : Cell → Prop} {R : ActionRel F G} {self : Evaluator F}
    {self' : Evaluator G} (hagree : ∀ c, P c → self.Agree V R self' c c) {c c' : Cell}
    (h : Twice P c c') : self.Agree V R self' c c' := by
  obtain ⟨rfl, hc⟩ := h
  exact hagree c' hc

/-- The values `V` that may be under way where data of a class `P` is stored: all of the class, and
perhaps operators. -/
structure Transit (P V : Cell → Prop) : Prop extends DataClass P where
  stored : ∀ {c}, P c → V c
  passing : ∀ {c}, V c → Passing P c

theorem Hereditary.transit {P : Cell → Prop} (hP : Hereditary P) : Transit P (Passing P) where
  toDataClass := hP.toDataClass
  stored := .inl
  passing := id

/-! ## Relations between evaluations -/

variable [Frame F] [Frame G]

/-- Defines a bindable name as the value of an action, unless it is defined already. -/
def EvalM.defineAs (name : String) (action : EvalM F Cell) : EvalM F Cell := do
  if ← EvalM.isGloballyBound name then EvalM.fail (.duplicateDefinition name)
  else
    let value ← action
    value.checkStorable (.builtin .define)
    EvalM.define name value
    return .nil

theorem Chained.defineAs_rel {R : ActionRel F G} (hR : Chained R) {P : Cell → Prop}
    (hnil : P .nil)
    (hbound : ∀ name, Operator.isReserved name = false →
      R (fun _ => True) (EvalM.isGloballyBound name) (EvalM.isGloballyBound name))
    (hdefine : ∀ name, Operator.isReserved name = false → ∀ value, P value →
      R (fun _ => True) (EvalM.define name value) (EvalM.define name value))
    {name : String} (hname : Operator.isReserved name = false) {x : EvalM F Cell}
    {y : EvalM G Cell} (h : R (Passing P) x y) :
    R P (EvalM.defineAs name x) (EvalM.defineAs name y) := by
  refine hR.bind_rel (hbound name hname) fun bound _ => ?_
  split
  · exact hR.fail_rel hname
  · refine hR.bind_rel h fun value hvalue => ?_
    refine hR.bind_rel (hR.lift_rel (Cell.checkStorable_meets hvalue)) fun _ hvalue => ?_
    exact hR.bind_rel (hdefine name hname value hvalue) fun _ _ => hR.pure_rel hnil

/-- What `apply` does once it has evaluated its two operands. -/
def Evaluator.applyTo (self : Evaluator F) (callee : Cell) (values : List Cell) : EvalM F Cell :=
  match callee with
  | .procedure formals body => self.applyToValues formals body values
  | .operator op =>
    if op.takesSyntax then
      EvalM.fail (.typeMismatch (.builtin .apply) .valueTaker (.operator op))
    else self (.dispatch op (.ofList (values.map quoted)))
  | other => EvalM.fail (.notCallable other)

/-- A relation that sequencing keeps and that holds between the primitives, where data is of a class
`P`. -/
structure Kept (P : Cell → Prop) (R : ActionRel F G) : Prop extends Chained R where
  note_rel (expr : Cell) : R (fun _ => True) (EvalM.noteEvaluate expr) (EvalM.noteEvaluate expr)
  lookup_rel {name : String} : Operator.isReserved name = false →
    R P (EvalM.lookup name) (EvalM.lookup name)
  write_rel (text : String) : R (fun _ => True) (EvalM.write text) (EvalM.write text)
  defineAs_rel {name : String} {x : EvalM F Cell} {y : EvalM G Cell} :
    Operator.isReserved name = false → R (Passing P) x y →
    R P (EvalM.defineAs name x) (EvalM.defineAs name y)
  inFrame_rel {A : Type} {Q : A → Prop} {bindings : List (String × Cell)} {x : EvalM F A}
    {y : EvalM G A} : (∀ b ∈ bindings, P b.2) → R Q x y →
    R Q (EvalM.inFrame bindings x) (EvalM.inFrame bindings y)

namespace Kept

variable {P V : Cell → Prop} {R : ActionRel F G} (hR : Kept P R) {self : Evaluator F}
  {self' : Evaluator G}

include hR

/-- What an operation makes of operands, or its refusal of them. -/
theorem run?_rel {E : Cell → Cell → Prop} {builtin : Builtin F} {builtin' : Builtin G}
    (h : Builtin.Rel E V R builtin builtin') {op : Operator} {operands operands' : List Cell}
    (hoperands : List.Forall₂ E operands operands') :
    R V
      (match builtin.run? operands with
        | some action => action
        | none => EvalM.fail (.arityMismatch (.builtin op) builtin.arity operands.length))
      (match builtin'.run? operands' with
        | some action => action
        | none => EvalM.fail (.arityMismatch (.builtin op) builtin'.arity operands'.length)) := by
  obtain ⟨x, y, hx, hy, hxy⟩ | ⟨hx, hy⟩ := h.run?_cases hoperands
  · rw [hx, hy]
    exact hxy
  · have hcount := builtin.run?_isSome operands
    rw [hx] at hcount
    rw [hx, hy, ← h.arity_eq, ← hoperands.length_eq]
    exact hR.fail_rel hcount.symm

/-! ## Forms that take values -/

theorem number {op : Operator} {expr expr' : Cell} (h : self.Agree V R self' expr expr') :
    R (fun _ => True) (self.number op expr) (self'.number op expr') :=
  hR.bind_rel h fun value _ => hR.lift_rel (Evaluator.asNumber_meets op value)

theorem ifElse {test test' consequent consequent' : Cell} {alternate alternate' : Option Cell}
    (htest : self.Agree V R self' test test')
    (hcons : self.Agree V R self' consequent consequent')
    (halt : Option.Rel (self.Agree V R self') alternate alternate') :
    R V (self.ifElse test consequent alternate) (self'.ifElse test' consequent' alternate') := by
  refine hR.bind_rel htest fun value _ => ?_
  refine hR.bind_rel (hR.lift_rel (Evaluator.truth_meets value)) fun b _ => ?_
  cases b with
  | true => exact hcons
  | false =>
    cases halt with
    | some halt => exact halt
    | none => exact hR.fail_rel trivial

variable (hV : Transit P V)

include hV

/-! ### Arithmetic and comparison -/

theorem foldNumbers {op : Operator} {step : Number → Number → Except EvalError Number}
    (hstep : ∀ a b, Meets (fun _ => True) (step a b)) {start : Number} {exprs exprs' : List Cell}
    (h : List.Forall₂ (self.Agree V R self') exprs exprs') :
    R V (self.foldNumbers op step start exprs) (self'.foldNumbers op step start exprs') := by
  refine hR.bind_rel (Q := fun _ => True) (hR.foldlM_rel (h.imp fun _ _ h acc _ => ?_) trivial)
    fun total _ => hR.pure_rel (hV.stored (hV.number total))
  exact hR.bind_rel (hR.number h) fun a _ => hR.lift_rel (hstep acc a)

theorem difference {expr expr' : Cell} {exprs exprs' : List Cell}
    (h : self.Agree V R self' expr expr')
    (hs : List.Forall₂ (self.Agree V R self') exprs exprs') :
    R V (self.difference expr exprs) (self'.difference expr' exprs') := by
  refine hR.bind_rel (hR.number h) fun first _ => ?_
  cases hs with
  | nil => exact hR.pure_rel (hV.stored (hV.number _))
  | cons h hs => exact hR.foldNumbers hV (fun _ _ => by trivial) (.cons h hs)

theorem quotient {expr expr' : Cell} {exprs exprs' : List Cell}
    (h : self.Agree V R self' expr expr')
    (hs : List.Forall₂ (self.Agree V R self') exprs exprs') :
    R V (self.quotient expr exprs) (self'.quotient expr' exprs') := by
  refine hR.bind_rel (hR.number h) fun first _ => ?_
  cases hs with
  | nil =>
    refine hR.bind_rel (hR.lift_rel first.reciprocal_meets) fun a _ => ?_
    exact hR.pure_rel (hV.stored (hV.number a))
  | cons h hs => exact hR.foldNumbers hV Number.div_meets (.cons h hs)

theorem ascendingFrom {previous : Number} {exprs exprs' : List Cell}
    (h : List.Forall₂ (self.Agree V R self') exprs exprs') :
    R V (self.ascendingFrom previous exprs) (self'.ascendingFrom previous exprs') := by
  induction h generalizing previous with
  | nil => exact hR.pure_rel (hV.stored (hV.ofBool true))
  | cons h _ ih =>
    refine hR.bind_rel (hR.number h) fun next _ => ?_
    split
    · exact ih
    · exact hR.pure_rel (hV.stored (hV.ofBool false))

theorem ascending {exprs exprs' : List Cell}
    (h : List.Forall₂ (self.Agree V R self') exprs exprs') :
    R V (self.ascending exprs) (self'.ascending exprs') := by
  cases h with
  | nil => exact hR.pure_rel (hV.stored (hV.ofBool true))
  | cons h hs =>
    refine hR.bind_rel (hR.number h) fun first _ => ?_
    exact hR.ascendingFrom hV hs

theorem rounded {op : Operator} (round : Number → Int64) {expr expr' : Cell}
    (h : self.Agree V R self' expr expr') :
    R V (do return .integer (round (← self.number op expr)))
      (do return .integer (round (← self'.number op expr'))) :=
  hR.bind_rel (hR.number h) fun a _ => hR.pure_rel (hV.stored (hV.integer (round a)))

/-! ### Pairs, predicates and printing -/

theorem test {expr expr' : Cell} (property : Cell → Bool)
    (h : self.Agree V R self' expr expr') :
    R V (self.test property expr) (self'.test property expr') :=
  hR.bind_rel h fun value _ => hR.pure_rel (hV.stored (hV.ofBool (property value)))

theorem cons {carExpr carExpr' cdrExpr cdrExpr' : Cell}
    (hcar : self.Agree V R self' carExpr carExpr')
    (hcdr : self.Agree V R self' cdrExpr cdrExpr') :
    R V (self.cons carExpr cdrExpr) (self'.cons carExpr' cdrExpr') := by
  refine hR.bind_rel hcar fun car hcar => ?_
  refine hR.bind_rel hcdr fun cdr hcdr => ?_
  refine hR.bind_rel (hR.lift_rel (Cell.checkStorable_meets (hV.passing hcar))) fun _ hcar => ?_
  refine hR.bind_rel (hR.lift_rel (Cell.checkStorable_meets (hV.passing hcdr))) fun _ hcdr => ?_
  exact hR.pure_rel (hV.stored (hV.pair_iff.2 ⟨hcar, hcdr⟩))

theorem car {expr expr' : Cell} (h : self.Agree V R self' expr expr') :
    R V (self.car expr) (self'.car expr') := by
  refine hR.bind_rel h fun value hvalue => ?_
  refine hR.bind_rel (hR.lift_rel (Evaluator.halves_meets hV.toDataClass (hV.passing hvalue)))
    fun parts hparts => ?_
  exact hR.pure_rel (hV.stored hparts.1)

theorem cdr {expr expr' : Cell} (h : self.Agree V R self' expr expr') :
    R V (self.cdr expr) (self'.cdr expr') := by
  refine hR.bind_rel h fun value hvalue => ?_
  refine hR.bind_rel (hR.lift_rel (Evaluator.halves_meets hV.toDataClass (hV.passing hvalue)))
    fun parts hparts => ?_
  exact hR.pure_rel (hV.stored hparts.2)

theorem print {expr expr' : Cell} (h : self.Agree V R self' expr expr') :
    R V (self.print expr) (self'.print expr') := by
  refine hR.bind_rel h fun value _ => ?_
  refine hR.bind_rel (hR.write_rel _) fun _ _ => ?_
  exact hR.pure_rel (hV.stored hV.nil)

/-! ## Forms that run code

It is enough to know the tasks that a form may ask for: its operands, the expressions of a body, and
for `eval` and `apply` what becomes of values.
-/

omit hV in
theorem evaluate {expr : Cell} (h : expr ≠ .nil → self.Agree V R self' expr expr) :
    R V (self.evaluate expr) (self'.evaluate expr) := by
  unfold Evaluator.evaluate
  split
  · exact hR.fail_rel trivial
  · next hne => exact h hne

omit hV in
theorem values {exprs : List Cell} (h : ∀ c ∈ exprs, self.Agree V R self' c c) :
    R (fun vs => ∀ v ∈ vs, V v) (self.values exprs) (self'.values exprs) :=
  hR.mapM_rel (List.forall₂_same.2 h)

theorem sequence {exprs : List Cell} (h : ∀ c ∈ exprs, self.Agree V R self' c c) :
    R V (self.sequence exprs) (self'.sequence exprs) :=
  hR.foldlM_rel (List.forall₂_same.2 fun c hc _ _ => h c hc) (hV.stored hV.nil)

theorem applyToOperands {formals : Cell} {body : List Cell} {args : Cell}
    (hbody : ∀ c ∈ body, self.Agree V R self' c c)
    (hargs : ∀ c ∈ args.items, self.Agree V R self' c c) :
    R V (self.applyToOperands formals body args) (self'.applyToOperands formals body args) := by
  refine hR.bind_rel (hR.lift_rel (Formals.ofCell_meets formals)) fun formals _ => ?_
  refine hR.bind_rel (hR.lift_rel (Cell.operands_meets_ofList _ args)) fun exprs hexprs => ?_
  refine hR.bind_rel (hR.lift_rel (formals.checkCount_meets exprs.length)) fun _ _ => ?_
  rw [hexprs, Cell.items_ofList] at hargs
  refine hR.bind_rel (hR.values hargs) fun values hvalues => ?_
  refine hR.bind_rel (hR.lift_rel (formals.bindings_meets hV.toDataClass
    fun v hv => hV.passing (hvalues v hv))) fun bindings hbindings => ?_
  exact hR.inFrame_rel hbindings (hR.sequence hV hbody)

theorem applyToValues {formals : Cell} {body values : List Cell}
    (hbody : ∀ c ∈ body, self.Agree V R self' c c) (hvalues : ∀ v ∈ values, P v) :
    R V (self.applyToValues formals body values) (self'.applyToValues formals body values) := by
  refine hR.bind_rel (hR.lift_rel (Formals.ofCell_meets formals)) fun formals _ => ?_
  refine hR.bind_rel (hR.lift_rel (formals.checkCount_meets values.length)) fun _ _ => ?_
  refine hR.bind_rel
    (hR.lift_rel (formals.bindings_meets hV.toDataClass fun v hv => .inl (hvalues v hv)))
    fun bindings hbindings => ?_
  exact hR.inFrame_rel hbindings (hR.sequence hV hbody)

omit hV in
theorem eval {expr expr' : Cell} (h : self.Agree V R self' expr expr')
    (hcode : ∀ c, V c → R V (self.evaluate c) (self'.evaluate c)) :
    R V (self.eval expr) (self'.eval expr') :=
  hR.bind_rel h hcode

theorem apply {calleeExpr calleeExpr' listExpr listExpr' : Cell}
    (hcallee : self.Agree V R self' calleeExpr calleeExpr')
    (hlist : self.Agree V R self' listExpr listExpr')
    (hcall : ∀ callee values, V callee → (∀ v ∈ values, P v) →
      R V (self.applyTo callee values) (self'.applyTo callee values)) :
    R V (self.apply calleeExpr listExpr) (self'.apply calleeExpr' listExpr') := by
  refine hR.bind_rel hcallee fun callee hcallee => ?_
  refine hR.bind_rel hlist fun list hlist => ?_
  refine hR.bind_rel (hR.lift_rel (Cell.operands_meets hV.toDataClass (hV.passing hlist)))
    fun values hvalues => ?_
  exact hcall callee values hcallee hvalues

theorem define {target expr : Cell} (h : self.Agree V R self' expr expr) :
    R V (self.define target expr) (self'.define target expr) := by
  refine hR.bind_rel (hR.lift_rel (Evaluator.definedName_meets target)) fun name hname => ?_
  exact hR.mono_rel (hR.defineAs_rel hname (hR.mono_rel h fun _ => hV.passing)) fun _ => hV.stored

theorem letIn {clauses : Cell} {body : List Cell}
    (hclauses : ∀ c ∈ clauses.items, ∀ expr ∈ c.items, self.Agree V R self' expr expr)
    (hbody : ∀ c ∈ body, self.Agree V R self' c c) :
    R V (self.letIn clauses body) (self'.letIn clauses body) := by
  refine hR.bind_rel (hR.lift_rel (Cell.operands_meets_ofList _ clauses)) fun list hlist => ?_
  refine hR.bind_rel (hR.lift_rel (Meets.mapM_eq fun c _ => Evaluator.clause_meets c))
    fun parts hparts => ?_
  refine hR.applyToOperands hV hbody fun expr hexpr => ?_
  rw [Cell.items_ofList] at hexpr
  obtain ⟨part, hpart, rfl⟩ := List.mem_map.1 hexpr
  refine hclauses (.ofList [part.1, part.2]) ?_ part.2 ?_
  · rw [hlist, Cell.items_ofList, hparts]
    exact List.mem_map.2 ⟨part, hpart, rfl⟩
  · rw [Cell.items_ofList]
    exact List.mem_cons_of_mem _ (List.mem_singleton_self _)

/-- An operator that takes values takes operands by their values: it is enough that they evaluate
alike on both sides. -/
theorem valueBuiltin {op : Operator} (hop : op.takesSyntax = false)
    (hcode : op = .eval → ∀ c, V c → R V (self.evaluate c) (self'.evaluate c))
    (hcall : op = .apply → ∀ callee values, V callee → (∀ v ∈ values, P v) →
      R V (self.applyTo callee values) (self'.applyTo callee values)) :
    Builtin.Rel (self.Agree V R self') V R (self.builtin op) (self'.builtin op) := by
  cases op with
  | quote | define | lambda | letIn => cases hop
  | add => exact .any fun _ _ h => hR.foldNumbers hV (fun _ _ => by trivial) h
  | mul => exact .any fun _ _ h => hR.foldNumbers hV (fun _ _ => by trivial) h
  | sub => exact .oneAndMore fun _ _ _ _ h hs => hR.difference hV h hs
  | div => exact .oneAndMore fun _ _ _ _ h hs => hR.quotient hV h hs
  | lessThan => exact .any fun _ _ h => hR.ascending hV h
  | floor => exact .one fun _ _ h => hR.rounded hV Number.floor h
  | ceiling => exact .one fun _ _ h => hR.rounded hV Number.ceiling h
  | ifElse => exact .twoOrThree fun _ _ _ _ _ _ h h' h'' => hR.ifElse h h' h''
  | eval => exact .one fun _ _ h => hR.eval h (hcode rfl)
  | print => exact .one fun _ _ h => hR.print hV h
  | apply => exact .two fun _ _ _ _ h h' => hR.apply hV h h' (hcall rfl)
  | cons => exact .two fun _ _ _ _ h h' => hR.cons hV h h'
  | car => exact .one fun _ _ h => hR.car hV h
  | cdr => exact .one fun _ _ h => hR.cdr hV h
  | not | nullp | intp | doublep | symbolp | listp => exact .one fun _ _ h => hR.test hV _ h

/-- The operations of an operator on the same operands, taken from a class `C` of code. -/
theorem builtin {op : Operator} {C : Cell → Prop}
    (hagree : ∀ c, C c → self.Agree V R self' c c)
    (hcode : op = .eval → ∀ c, V c → R V (self.evaluate c) (self'.evaluate c))
    (hcall : op = .apply → ∀ callee values, V callee → (∀ v ∈ values, P v) →
      R V (self.applyTo callee values) (self'.applyTo callee values))
    (hquote : op = .quote → ∀ c, C c → V c)
    (hlambda : op = .lambda → ∀ formals body, C formals → (∀ c ∈ body, C c) →
      V (.procedure formals body))
    (hclauses : op = .letIn → ∀ clauses, C clauses →
      ∀ c ∈ clauses.items, ∀ expr ∈ c.items, C expr) :
    Builtin.Rel (Twice C) V R (self.builtin op) (self'.builtin op) := by
  cases hop : op.takesSyntax with
  | false => exact (hR.valueBuiltin hV hop hcode hcall).mono fun _ _ => Twice.agree hagree
  | true =>
    cases op with
    | quote =>
      refine .one fun _ a h => ?_
      obtain ⟨rfl, h⟩ := h
      exact hR.pure_rel (hquote rfl _ h)
    | define =>
      refine .two fun _ target _ expr htarget h => ?_
      obtain ⟨rfl, -⟩ := htarget
      obtain ⟨rfl, h⟩ := h
      exact hR.define hV (hagree _ h)
    | lambda =>
      refine .twoAndMore fun _ formals _ first _ rest hformals hfirst hrest => ?_
      obtain ⟨rfl, hformals⟩ := hformals
      obtain ⟨rfl, hfirst⟩ := hfirst
      obtain ⟨rfl, hrest⟩ := forall₂_twice_iff.1 hrest
      exact hR.pure_rel (hlambda rfl _ _ hformals (by simpa using ⟨hfirst, hrest⟩))
    | letIn =>
      refine .oneAndMore fun _ clauses _ body hcs hbody => ?_
      obtain ⟨rfl, hcs⟩ := hcs
      obtain ⟨rfl, hbody⟩ := forall₂_twice_iff.1 hbody
      exact hR.letIn hV (fun c hc expr hexpr => hagree _ (hclauses rfl _ hcs c hc expr hexpr))
        fun c hc => hagree c (hbody c hc)
    | _ => cases hop

omit hV in
theorem dispatch_ofList {E : Cell → Cell → Prop} {op : Operator} {operands operands' : List Cell}
    (hoperands : List.Forall₂ E operands operands')
    (h : Builtin.Rel E V R (self.builtin op) (self'.builtin op)) :
    R V (self.dispatch op (.ofList operands)) (self'.dispatch op (.ofList operands')) := by
  unfold Evaluator.dispatch
  rw [Cell.operands_ofList, Cell.operands_ofList]
  exact hR.run?_rel h hoperands

omit hV in
theorem dispatch {op : Operator} {args : Cell} {C : Cell → Prop} (hargs : ∀ c ∈ args.items, C c)
    (h : Builtin.Rel (Twice C) V R (self.builtin op) (self'.builtin op)) :
    R V (self.dispatch op args) (self'.dispatch op args) := by
  refine hR.bind_rel (hR.lift_rel (Cell.operands_meets_ofList _ args)) fun operands hoperands => ?_
  rw [hoperands, Cell.items_ofList] at hargs
  exact hR.run?_rel h (forall₂_twice_iff.2 ⟨rfl, hargs⟩)

end Kept

/-! ## Relations between all evaluations -/

/-- A kept relation that does not ask of a run that it ends, so that it may hold between all tasks
whatever the budget. -/
structure Closed (P : Cell → Prop) (R : ActionRel F G) : Prop extends Sequenced R, Kept P R

namespace Closed

variable {P : Cell → Prop} {R : ActionRel F G} (hR : Closed P R)

include hR

section Forms

variable (hP : Hereditary P) {self : Evaluator F} {self' : Evaluator G}
  (hself : ∀ task, Task.In P task → R (Passing P) (self task) (self' task))

include hself

theorem evaluate {expr : Cell} (h : Passing P expr) :
    R (Passing P) (self.evaluate expr) (self'.evaluate expr) :=
  hR.toKept.evaluate fun _ => hself (.operand expr) h

include hP

theorem sequence {exprs : List Cell} (h : ∀ c ∈ exprs, P c) :
    R (Passing P) (self.sequence exprs) (self'.sequence exprs) :=
  hR.toKept.sequence hP.transit fun c hc => Evaluator.agree_of_in hself (h c hc)

theorem applyToOperands {formals : Cell} {body : List Cell} {args : Cell} (hbody : ∀ c ∈ body, P c)
    (hargs : P args) :
    R (Passing P) (self.applyToOperands formals body args)
      (self'.applyToOperands formals body args) :=
  hR.toKept.applyToOperands hP.transit (fun c hc => Evaluator.agree_of_in hself (hbody c hc))
    fun c hc => Evaluator.agree_of_in hself (hP.items hargs c hc)

theorem applyTo {callee : Cell} {values : List Cell} (hcallee : Passing P callee)
    (hvalues : ∀ v ∈ values, P v) :
    R (Passing P) (self.applyTo callee values) (self'.applyTo callee values) := by
  cases callee with
  | procedure formals body =>
    obtain hcallee | ⟨op, hop⟩ := hcallee
    · exact hR.applyToValues hP.transit
        (fun c hc => Evaluator.agree_of_in hself ((hP.procedure_iff.1 hcallee).2 c hc)) hvalues
    · cases hop
  | operator op =>
    dsimp only [Evaluator.applyTo]
    split
    · exact hR.fail_rel trivial
    · refine hself (.dispatch op _) (hP.ofList fun c hc => ?_)
      obtain ⟨v, hv, rfl⟩ := List.mem_map.1 hc
      exact hP.quoted (hvalues v hv)
  | _ => exact hR.fail_rel trivial

theorem valueBuiltin {op : Operator} (hop : op.takesSyntax = false) :
    Builtin.Rel (self.Agree (Passing P) R self') (Passing P) R (self.builtin op)
      (self'.builtin op) :=
  hR.toKept.valueBuiltin hP.transit hop (fun _ _ => hR.evaluate hself)
    fun _ _ _ => hR.applyTo hP hself

/-- The operations of an operator take the same operands on both sides, and related ones make
related actions. -/
theorem builtin (op : Operator) :
    Builtin.Rel (Twice P) (Passing P) R (self.builtin op) (self'.builtin op) :=
  hR.toKept.builtin hP.transit (fun _ => Evaluator.agree_of_in hself) (fun _ _ => hR.evaluate hself)
    (fun _ _ _ => hR.applyTo hP hself) (fun _ _ => .inl)
    (fun _ _ _ hformals hbody => .inl (hP.procedure_iff.2 ⟨hformals, hbody⟩))
    fun _ _ hclauses c hc => hP.items (hP.items hclauses c hc)

theorem dispatch {op : Operator} {args : Cell} (h : P args) :
    R (Passing P) (self.dispatch op args) (self'.dispatch op args) :=
  hR.toKept.dispatch (hP.items h) (hR.builtin hP hself op)

theorem call {callee args : Cell} (hcallee : Passing P callee) (hargs : P args) :
    R (Passing P) (self.call callee args) (self'.call callee args) := by
  cases callee with
  | operator op => exact hR.dispatch hP hself hargs
  | procedure formals body =>
    obtain hcallee | ⟨op, hop⟩ := hcallee
    · exact hR.applyToOperands hP hself (hP.procedure_iff.1 hcallee).2 hargs
    · cases hop
  | _ => exact hR.fail_rel trivial

theorem value {expr : Cell} (h : Passing P expr) :
    R (Passing P) (self.value expr) (self'.value expr) := by
  cases expr with
  | symbol name =>
    dsimp only [Evaluator.value]
    split
    · next op _ => exact hR.pure_rel (Or.inr ⟨op, rfl⟩)
    · next hname =>
      refine hR.mono_rel (hR.lookup_rel ?_) fun _ => Or.inl
      simp [Operator.isReserved, hname]
  | pair head args =>
    obtain h | ⟨op, hop⟩ := h
    · obtain ⟨hhead, hargs⟩ := hP.pair_iff.1 h
      exact hR.bind_rel (hR.evaluate hself (.inl hhead)) fun _ hcallee =>
        hR.call hP hself hcallee hargs
    · cases hop
  | _ => exact hR.pure_rel h

/-- Evaluators that are related on all tasks are so after one more step. -/
theorem step (task : Task) (h : task.In P) :
    R (Passing P) (Evaluator.step self task) (Evaluator.step self' task) := by
  cases task with
  | operand expr => exact hR.bind_rel (hR.note_rel expr) fun _ _ => hR.value hP hself h
  | dispatch op args => exact hR.dispatch hP hself h

end Forms

/-- **Every task is related to itself**, carried out with the same budget on both sides. -/
theorem run (hP : Hereditary P) (budget : Nat) : ∀ task : Task, task.In P →
    R (Passing P) (ConsLisp.run budget task) (ConsLisp.run budget task) := by
  induction budget with
  | zero => exact fun _ _ => hR.exhausted_rel
  | succ budget ih => exact hR.step hP ih

theorem evaluate_run (hP : Hereditary P) (budget : Nat) {expr : Cell} (h : Passing P expr) :
    R (Passing P) (ConsLisp.evaluate budget expr) (ConsLisp.evaluate budget expr) :=
  hR.evaluate (hR.run hP budget) h

theorem dispatch_run (hP : Hereditary P) (budget : Nat) {op : Operator} {args : Cell} (h : P args) :
    R (Passing P) (ConsLisp.dispatch budget op args) (ConsLisp.dispatch budget op args) :=
  hR.run hP budget (.dispatch op args) h

end Closed

end ConsLisp

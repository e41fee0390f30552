import ConsLisp.Frame.Containers
import ConsLisp.Proofs.Calling
import ConsLisp.Proofs.Guarded

/-!
# Evaluation that ends

Only a call of a procedure can run for ever, and only `lambda` makes procedures, and `eval` code.
An expression that writes neither word and contains neither operators nor procedures (`Cell.Tame`)
ends, in any environment whose values contain neither of these (`Cell.Inert`).  The body of a `let`
is a part of the expression, and what `apply` puts together are quotations of inert values, so every
task is smaller than the one that asked for it.  Its size is budget enough.

What has to hold all along is that values stay inert (`Completes`): a value that is not an operator
cannot be called, and an operator that is called through `apply` gets no more than values.
-/

namespace ConsLisp

namespace Cell

/-! ## Inert data and tame code -/

/-- A cell that contains no operator and no procedure. -/
def Inert : Cell → Prop
  | operator _ => False
  | procedure _ _ => False
  | pair car cdr => car.Inert ∧ cdr.Inert
  | _ => True

theorem Inert.dataClass : DataClass Inert where
  nil := trivial
  integer _ := trivial
  double _ := trivial
  symbol _ := trivial
  pair_iff := Iff.rfl

/-- An inert cell that does not contain the words `eval` and `lambda`. -/
def Tame : Cell → Prop
  | operator _ => False
  | procedure _ _ => False
  | symbol name => name ≠ Operator.eval.name ∧ name ≠ Operator.lambda.name
  | pair car cdr => car.Tame ∧ cdr.Tame
  | _ => True

theorem Tame.inert {c : Cell} (h : c.Tame) : c.Inert := by
  induction c with
  | pair car cdr ihcar ihcdr => exact ⟨ihcar h.1, ihcdr h.2⟩
  | operator op => exact h
  | procedure formals body => exact h
  | _ => trivial

theorem Tame.items {c : Cell} (h : c.Tame) : ∀ x ∈ c.items, x.Tame := by
  induction c with
  | pair car cdr _ ih =>
    intro x hx
    rcases List.mem_cons.1 hx with rfl | hx
    · exact h.1
    · exact ih h.2 x hx
  | _ => simp [Cell.items]

/-- How many pairs and atoms a cell is made of. -/
def size : Cell → Nat
  | pair car cdr => car.size + cdr.size + 1
  | _ => 1

theorem size_pos (c : Cell) : 0 < c.size := by
  cases c <;> simp [size]

theorem size_le_of_mem_items {c x : Cell} (h : x ∈ c.items) : x.size ≤ c.size := by
  induction c with
  | pair car cdr _ ih =>
    rw [size]
    rcases List.mem_cons.1 h with rfl | h
    · omega
    · have := ih h
      omega
  | _ => simp [items] at h

/-- A value of tame code: inert, or an operator that neither runs data nor makes procedures. -/
def Harmless (c : Cell) : Prop :=
  c.Inert ∨ ∃ op, c = operator op ∧ op ≠ .eval ∧ op ≠ .lambda

theorem Harmless.transit : Transit Inert Harmless where
  toDataClass := Inert.dataClass
  stored := .inl
  passing h := h.imp_right fun ⟨op, hop, _⟩ => ⟨op, hop⟩

theorem Inert.transit : Transit Inert Inert where
  toDataClass := Inert.dataClass
  stored := id
  passing := .inl

end Cell

variable {F : Type} [Frame F]

/-! ## Actions that end -/

/-- The run ends, and what holds then. -/
def Outcome.Halts {S A : Type} (onValue : A → S → Prop) (onFailure : S → Prop) :
    Outcome S A → Prop
  | .value a s => onValue a s
  | .failure _ s => onFailure s
  | .exhausted => False

theorem Outcome.Halts.ne_exhausted {S A : Type} {onValue : A → S → Prop} {onFailure : S → Prop}
    {o : Outcome S A} (h : o.Halts onValue onFailure) : o ≠ .exhausted := by
  rintro rfl
  exact h

/-- Where all values are of a class, the action ends and leaves it so. -/
def Completes (P : Cell → Prop) : ActionRel F F := fun _ Q x _ =>
  ∀ env : Environment F, env.All P → (x env).Halts (fun a last => Q a ∧ last.All P) (·.All P)

namespace Completes

variable {P : Cell → Prop} {A B : Type}

theorem bind {Q : A → Prop} {Q' : B → Prop} {x y : EvalM F A} {f g : A → EvalM F B}
    (h : Completes P Q x y) (hf : ∀ a, Q a → Completes P Q' (f a) (g a)) :
    Completes P Q' (x >>= f) (y >>= g) := by
  intro env henv
  have hx := h env henv
  rw [EvalM.bind_apply]
  cases hxenv : x env with
  | value a mid =>
    rw [hxenv] at hx
    exact hf a hx.1 mid hx.2
  | failure e last =>
    rw [hxenv] at hx
    exact hx
  | exhausted =>
    rw [hxenv] at hx
    exact hx.elim

theorem chained : Chained (Completes (F := F) P) where
  pure_rel hQ _ henv := ⟨hQ, henv⟩
  bind_rel := bind
  fail_rel _ _ henv := henv

theorem lookup (name : String) :
    Completes (F := F) P P (EvalM.lookup name) (EvalM.lookup name) := by
  intro env henv
  unfold EvalM.lookup
  cases hvalue : env.lookup? name with
  | some value => exact ⟨henv.lookup? hvalue, henv⟩
  | none => exact henv

theorem write (text : String) :
    Completes (F := F) P (fun _ => True) (EvalM.write text) (EvalM.write text) := by
  intro env henv
  unfold EvalM.write Environment.write
  rcases env.output.write text with ⟨_ | _, output⟩
  · exact henv
  · exact ⟨trivial, henv⟩

theorem of_quietly {Q : A → Prop} {x y : EvalM F A} {a : A} (h : Quietly x a) (ha : Q a) :
    Completes P Q x y := by
  intro env henv
  obtain ⟨last, hx, hlast⟩ := h env
  rw [hx]
  refine ⟨ha, ?_⟩
  intro frame hframe
  rw [← hlast.globals_eq, ← hlast.locals_eq] at hframe
  exact henv frame hframe

variable [LawfulFrame F]

theorem define {name : String} (hname : Operator.isReserved name = false) {value : Cell}
    (hvalue : P value) :
    Completes (F := F) P (fun _ => True) (EvalM.define name value) (EvalM.define name value) := by
  intro env henv
  unfold EvalM.define
  obtain ⟨globals, hinsert, hdef⟩ | ⟨-, hdef⟩ := env.define?_cases value hname
  · rw [hdef]
    exact ⟨trivial, henv.with_globals hinsert hvalue⟩
  · rw [hdef]
    exact henv

theorem inFrame {Q : A → Prop} {x y : EvalM F A} {bindings : List (String × Cell)}
    (hbindings : ∀ b ∈ bindings, P b.2) (h : Completes P Q x y) :
    Completes P Q (EvalM.inFrame bindings x) (EvalM.inFrame bindings y) := by
  intro env henv
  have hx := h (env.enter bindings) (henv.enter hbindings)
  rw [Environment.inFrame_apply]
  cases hxenv : x (env.enter bindings) with
  | value a last =>
    rw [hxenv] at hx
    exact ⟨hx.1, hx.2.pop⟩
  | failure e last =>
    rw [hxenv] at hx
    exact Environment.All.pop hx
  | exhausted =>
    rw [hxenv] at hx
    exact hx.elim

theorem kept (hP : DataClass P) : Kept P (Completes (F := F) P) where
  toChained := chained
  note_rel _ _ henv := ⟨trivial, henv⟩
  lookup_rel _ := lookup _
  write_rel := write
  defineAs_rel hname h := chained.defineAs_rel hP.nil (fun _ _ _ henv => ⟨trivial, henv⟩)
    (fun _ hname _ hvalue => define hname hvalue) hname h
  inFrame_rel := inFrame

end Completes

/-! ## Tame code ends -/

section Tame

variable [LawfulFrame F]

/-- An operator that is called on quotations of inert values has nothing else to run, unless it runs
data as code. -/
theorem completes_dispatch_quoted (budget : Nat) {op : Operator} (hop : op.takesSyntax = false)
    (heval : op ≠ .eval) {values : List Cell} (hvalues : ∀ v ∈ values, v.Inert) :
    Completes (F := F) Cell.Inert Cell.Inert
      ((run (budget + 2)).dispatch op (.ofList (values.map Evaluator.quoted)))
      ((run (budget + 2)).dispatch op (.ofList (values.map Evaluator.quoted))) := by
  have hkept := Completes.kept (F := F) Cell.Inert.dataClass
  have hoperands : List.Forall₂ ((run (F := F) (budget + 2)).Agree Cell.Inert
      (Completes Cell.Inert) (run (budget + 2)))
      (values.map Evaluator.quoted) (values.map Evaluator.quoted) := by
    rw [List.forall₂_map_left_iff, List.forall₂_map_right_iff]
    exact List.forall₂_same.2 fun v hv => .of_quietly (quietly_quoted budget v) (hvalues v hv)
  refine hkept.dispatch_ofList hoperands (hkept.valueBuiltin Cell.Inert.transit hop ?_ ?_)
  · exact fun h => absurd h heval
  · -- this is `apply` again, and no inert value can be called
    intro _ callee values hcallee _
    cases callee with
    | operator op => exact hcallee.elim
    | procedure formals body => exact hcallee.elim
    | _ => exact hkept.fail_rel trivial

theorem completes_applyTo (budget : Nat) {callee : Cell} (hcallee : callee.Harmless)
    {values : List Cell} (hvalues : ∀ v ∈ values, v.Inert) :
    Completes (F := F) Cell.Inert Cell.Harmless ((run (budget + 3)).applyTo callee values)
      ((run (budget + 3)).applyTo callee values) := by
  have hkept := Completes.kept (F := F) Cell.Inert.dataClass
  cases callee with
  | operator op =>
    obtain hcallee | ⟨op', hop', heval, -⟩ := hcallee
    · exact hcallee.elim
    obtain rfl := Cell.operator.inj hop'
    dsimp only [Evaluator.applyTo]
    cases hop : op.takesSyntax with
    | true => exact hkept.fail_rel trivial
    | false =>
      exact hkept.mono_rel (completes_dispatch_quoted budget hop heval hvalues) fun _ => .inl
  | procedure formals body =>
    obtain hcallee | ⟨op, hop, -⟩ := hcallee
    · exact hcallee.elim
    · cases hop
  | _ => exact hkept.fail_rel trivial

/-- Tame code ends within a budget of its size. -/
theorem completes_operand {budget : Nat} {expr : Cell} (h : expr.Tame)
    (hsize : expr.size < budget) :
    (run (F := F) budget).Agree Cell.Harmless (Completes Cell.Inert) (run budget) expr expr := by
  have hkept := Completes.kept (F := F) Cell.Inert.dataClass
  induction budget generalizing expr with
  | zero => exact absurd hsize (Nat.not_lt_zero _)
  | succ budget ih =>
    refine hkept.bind_rel (hkept.note_rel expr) fun _ _ => ?_
    cases expr with
    | symbol name =>
      dsimp only [Evaluator.value]
      split
      · next op hop =>
        obtain rfl := Operator.ofName?_eq_some_iff.1 hop
        refine hkept.pure_rel (.inr ⟨op, rfl, ?_, ?_⟩)
        · rintro rfl
          exact h.1 rfl
        · rintro rfl
          exact h.2 rfl
      · next hname =>
        refine hkept.mono_rel (hkept.lookup_rel ?_) fun _ => .inl
        simp [Operator.isReserved, hname]
    | pair head args =>
      obtain ⟨hhead, hargs⟩ := h
      rw [Cell.size] at hsize
      have hheadSize := head.size_pos
      have hargsSize := args.size_pos
      obtain ⟨n, rfl⟩ : ∃ n, budget = n + 3 := ⟨budget - 3, by omega⟩
      refine hkept.bind_rel (hkept.evaluate fun _ => ih hhead (by omega)) fun callee hcallee => ?_
      obtain hcallee | ⟨op, rfl, heval, hlambda⟩ := hcallee
      · cases callee with
        | operator op => exact hcallee.elim
        | procedure formals body => exact hcallee.elim
        | _ => exact hkept.fail_rel trivial
      -- every task that the operator can ask for is about a part of the operands
      let Part (c : Cell) : Prop := c.Tame ∧ c.size < n + 3
      have hitems {c : Cell} (hc : Part c) : ∀ x ∈ c.items, Part x := fun x hx =>
        ⟨hc.1.items x hx, Nat.lt_of_le_of_lt (Cell.size_le_of_mem_items hx) hc.2⟩
      refine hkept.dispatch (hitems ⟨hargs, by omega⟩) (hkept.builtin Cell.Harmless.transit
        (fun c hc => ih hc.1 hc.2) ?_ ?_ ?_ ?_ ?_)
      · exact fun hop => absurd hop heval
      · exact fun _ callee values hcallee hvalues => completes_applyTo n hcallee hvalues
      · exact fun _ c hc => .inl hc.1.inert
      · exact fun hop => absurd hop hlambda
      · exact fun _ clauses hclauses c hc => hitems (hitems hclauses c hc)
    | operator op => exact h.elim
    | procedure formals body => exact h.elim
    | _ => exact hkept.pure_rel (.inl trivial)

end Tame

/-- **Without `eval`, `lambda` and procedures every evaluation ends.**  An expression that contains
neither operators nor procedures nor these two words ends in every environment whose values contain
neither operators nor procedures.  The nesting of its evaluations is bounded by its size, whatever
the environment.  It ends in the same way with every budget above its size, with a value or with an
error, and neither the value nor anything that is then bound contains a procedure. -/
theorem evaluation_ends_without_procedures [LawfulFrame F] {expr : Cell} (hexpr : expr.Tame)
    {env : Environment F} (henv : env.All Cell.Inert) :
    ∃ o : Outcome (Environment F) Cell,
      (∀ budget, expr.size < budget → evaluate budget expr env = o) ∧
      o.Halts (fun value last => Passing Cell.Inert value ∧ last.All Cell.Inert)
        (·.All Cell.Inert) := by
  have hkept := Completes.kept (F := F) Cell.Inert.dataClass
  have hevaluate : Completes (F := F) Cell.Inert (Passing Cell.Inert)
      (evaluate (expr.size + 1) expr) (evaluate (expr.size + 1) expr) :=
    hkept.mono_rel (hkept.evaluate fun _ => completes_operand hexpr (Nat.lt_succ_self _))
      fun _ => Cell.Harmless.transit.passing
  have hhalts := hevaluate env henv
  exact ⟨evaluate (expr.size + 1) expr env,
    fun budget hbudget => steady_evaluate expr env hbudget hhalts.ne_exhausted, hhalts⟩

/-- The words may well be data, here looked up, defined and handed over by `apply`. -/
theorem evaluation_ends_without_procedures_on_words :
    let words : Cell := .ofList [.symbol "eval", .symbol "lambda"]
    let env : Environment OrderedFrame :=
      { Environment.fresh .unlimited with globals := Frame.ofList [("words", words)] }
    let expr : Cell := letForm [(.symbol "x", Operator.define.form [.symbol "d", .symbol "words"])]
      [Operator.apply.form [.symbol "cons", .symbol "words"]]
    expr.Tame ∧ env.All Cell.Inert ∧ ∃ last, last.isGloballyBound "d" = true ∧
      last.All Cell.Inert ∧ ∀ budget, expr.size < budget →
        evaluate budget expr env = .value (.pair (.symbol "eval") (.symbol "lambda")) last := by
  intro words env expr
  have hexpr : expr.Tame := by
    simp [expr, letForm, Operator.form, Operator.name, Cell.Tame]
  have henv : env.All Cell.Inert := by
    intro frame hframe name value hvalue
    obtain rfl := List.mem_singleton.1 hframe
    rw [Frame.find?_ofList] at hvalue
    obtain ⟨before, after, hwords, -⟩ := List.lookup_eq_some_iff.1 hvalue
    have hmem : (name, value) ∈ [("words", words)] := by simp [hwords]
    obtain ⟨-, rfl⟩ := Prod.mk.inj (List.mem_singleton.1 hmem)
    simp [words, Cell.Inert]
  obtain ⟨o, hruns, hhalts⟩ := evaluation_ends_without_procedures hexpr henv
  obtain ⟨last, hrun, hbound⟩ : ∃ last, evaluate 5 expr env =
      .value (.pair (.symbol "eval") (.symbol "lambda")) last ∧
      last.isGloballyBound "d" = true := ⟨_, rfl, rfl⟩
  have hsettles : Settles (fun budget => evaluate budget expr env) o := ⟨expr.size + 1, hruns⟩
  obtain rfl := hsettles.unique ((steady_evaluate expr env).settles_of_value hrun)
  exact ⟨hexpr, henv, last, hbound, hhalts.2, hruns⟩

end ConsLisp

import ConsLisp.Frame.Containers
import ConsLisp.Proofs.Calculation

/-!
# Splitting calculations

A calculation goes through its operands from left to right and keeps nothing but the number it has
reached.  So it makes no difference whether the first few operands are put into a form of their own:
the inner form reaches the same number, and the outer one goes on from there.  Operands may print,
define, fail or run for ever, and all of this happens in the same order.

What could make a difference is how the outer form takes up the number of the inner one.  `-` and
`/` take it as it is, but `+` and `*` work it into zero or one first, which leaves an integer alone
but may change the sign of a zero that is a double.  A total is a double if and only if one of the
operands is (`Operator.kind_total`), so it is enough that none of the operands of the inner form is.
-/

namespace ConsLisp

/-! ## Integers and doubles -/

theorem Number.kind_combine (onIntegers : Int64 → Int64 → Int64)
    (onDoubles : Double → Double → Double) (a b : Number) :
    (combine onIntegers onDoubles a b).toCell.kind = .double ↔
      a.toCell.kind = .double ∨ b.toCell.kind = .double := by
  cases a <;> cases b <;> simp [combine, toCell, Cell.kind]

theorem Number.exists_integer_of_kind {a : Number} (h : a.toCell.kind ≠ .double) :
    ∃ n, a = .integer n := by
  cases a with
  | integer n => exact ⟨n, rfl⟩
  | double x => exact absurd rfl h

namespace Operator

variable {op : Operator}

theorem kind_start (op : Operator) : op.start.toCell.kind ≠ .double := by
  cases op <;> simp [start, Number.toCell, Cell.kind]

theorem kind_entry (op : Operator) (a : Number) :
    (op.entry a).toCell.kind = .double ↔ a.toCell.kind = .double := by
  cases op with
  | add | mul => exact (Number.kind_combine ..).trans (or_iff_right (kind_start _))
  | _ => exact Iff.rfl

theorem kind_of_combine {acc a next : Number} (h : op.combine acc a = .ok next) :
    next.toCell.kind = .double ↔ acc.toCell.kind = .double ∨ a.toCell.kind = .double := by
  have hcombine : ∃ onIntegers onDoubles, next = Number.combine onIntegers onDoubles acc a := by
    cases op with
    | div =>
      change (if a.isZero then Except.error EvalError.divideByZero else _) = _ at h
      split at h
      · cases h
      · exact ⟨_, _, (Except.ok.inj h).symm⟩
    | _ => exact ⟨_, _, (Except.ok.inj h).symm⟩
  obtain ⟨onIntegers, onDoubles, rfl⟩ := hcombine
  exact Number.kind_combine onIntegers onDoubles acc a

theorem kind_of_foldlM {numbers : List Number} {acc t : Number}
    (h : numbers.foldlM op.combine acc = .ok t) :
    t.toCell.kind = .double ↔
      acc.toCell.kind = .double ∨ ∃ a ∈ numbers, a.toCell.kind = .double := by
  induction numbers generalizing acc with
  | nil =>
    obtain rfl := Except.ok.inj h
    simp
  | cons a numbers ih =>
    obtain ⟨next, hnext, htotal⟩ := foldlM_combine_cons_iff.1 h
    rw [ih htotal, kind_of_combine hnext, List.exists_mem_cons_iff, or_assoc]

/-- A total is a double if and only if it is made of a double. -/
theorem kind_total {numbers : List Number} {t : Number} (h : op.total numbers = .ok t) :
    t.toCell.kind = .double ↔ ∃ a ∈ numbers, a.toCell.kind = .double := by
  cases numbers with
  | nil =>
    obtain rfl := Except.ok.inj h
    simp [kind_start]
  | cons a numbers => rw [kind_of_foldlM h, kind_entry, List.exists_mem_cons_iff]

theorem entry_of_sub_or_div (h : op = sub ∨ op = div) (a : Number) : op.entry a = a := by
  rcases h with rfl | rfl <;> rfl

end Operator

/-! ## Inner and outer forms -/

namespace Evaluator

variable {F : Type} (self : Evaluator F)

theorem total_append {op : Operator} {exprs : List Cell}
    (h : (op = .add ∨ op = .mul) ∨ exprs ≠ []) (exprs' : List Cell) :
    self.total op (exprs ++ exprs') =
      self.total op exprs >>= fun acc => self.accumulate op acc exprs' := by
  rcases h with hop | hne
  · rw [← self.accumulate_start hop, ← self.accumulate_start hop, accumulate_append]
  · obtain ⟨expr, exprs, rfl⟩ := List.exists_cons_of_ne_nil hne
    rw [List.cons_append, total, total, bind_assoc]
    simp only [accumulate_append]

end Evaluator

variable {F : Type} [Frame F]

theorem endTogether_forms_iff {related : Environment F → Environment F → Prop} {op op' : Operator}
    {args args' : List Cell} {env env' : Environment F} :
    EndTogether related (fun budget => evaluate budget (op.form args) env)
        (fun budget => evaluate budget (op'.form args') env') ↔
      EndTogether related (fun budget => (run budget).dispatch op (.ofList args) env.afterWord)
        fun budget => (run budget).dispatch op' (.ofList args') env'.afterWord := by
  simp only [EndTogether, settles_form_iff]

section Splitting

variable [LawfulFrame F] {op : Operator} {as bs : List Cell} {env : Environment F}

/-- The outer form goes on from the number that the inner form has reached. -/
theorem endTogether_nested (has : op.Calculates as.length)
    (hbs : op.Calculates (op.form as :: bs).length) (env : Environment F) :
    EndTogether Environment.SameButTrace
      (fun budget => (run budget).dispatch op (.ofList (op.form as :: bs)) env)
      fun budget => ((run budget).total op as >>= fun t => do
        return (← (run budget).accumulate op (op.entry t) bs).toCell : EvalM F Cell) env := by
  let next (self : Evaluator F) (value : Cell) : EvalM F Cell := do
    let a ← Evaluator.asNumber op value
    return (← self.accumulate op (op.entry a) bs).toCell
  have hnext (value : Cell) :
      Uniform (fun _ => True) fun self : Evaluator F => next self value := by
    intro R self self' hR hself
    refine hR.bind_rel (hR.lift_rel (Evaluator.asNumber_meets op value)) fun a _ => ?_
    exact hR.bind_rel (uniform_accumulate op (op.entry a) bs hR hself) fun t _ =>
      hR.pure_rel trivial
  have hnested (budget : Nat) : (run (F := F) budget).dispatch op (.ofList (op.form as :: bs)) =
      (run budget).operand (op.form as) >>= next (run budget) := by
    rw [Evaluator.dispatch_of_calculates _ hbs, Evaluator.total, Evaluator.number]
    simp only [bind_assoc, next]
  have hinner (budget : Nat) : (run (F := F) budget).dispatch op (.ofList as) >>=
      next (run budget) = (run budget).total op as >>= fun t => do
        return (← (run budget).accumulate op (op.entry t) bs).toCell := by
    rw [Evaluator.dispatch_of_calculates _ has, bind_assoc]
    simp only [pure_bind, next, EvalM.check_of_ok (Evaluator.asNumber_toCell op _)]
  simp only [hnested, ← hinner]
  exact (endTogether_form op as (.refl env)).bind fun value mid mid' hmid =>
    (hnext value).endTogether hmid

/-- If the outer form takes the number of the inner form as it is, there is no difference. -/
theorem endTogether_split (has : op.Calculates as.length)
    (hbs : op.Calculates (op.form as :: bs).length) (hflat : op.Calculates (as ++ bs).length)
    (hne : (op = .add ∨ op = .mul) ∨ as ≠ [])
    (hentry : ∀ budget t mid, (run budget).total op as env.afterWord = .value t mid →
      op.entry t = t) :
    EndTogether Environment.SameButTrace
      (fun budget => evaluate budget (op.form (op.form as :: bs)) env)
      fun budget => evaluate budget (op.form (as ++ bs)) env := by
  rw [endTogether_forms_iff]
  have hsplit (budget : Nat) :
      (run budget).dispatch op (.ofList (as ++ bs)) env.afterWord =
        ((run budget).total op as >>= fun t => do
          return (← (run budget).accumulate op (op.entry t) bs).toCell : EvalM F Cell)
          env.afterWord := by
    rw [Evaluator.dispatch_of_calculates _ hflat, Evaluator.total_append _ hne, bind_assoc]
    cases htotal : (run budget).total op as env.afterWord with
    | value t mid =>
      rw [EvalM.bind_of_value htotal, EvalM.bind_of_value htotal, hentry _ _ _ htotal]
    | failure e last => rw [EvalM.bind_of_failure htotal, EvalM.bind_of_failure htotal]
    | exhausted => rw [EvalM.bind_of_exhausted htotal, EvalM.bind_of_exhausted htotal]
  simp only [hsplit]
  exact endTogether_nested has hbs env.afterWord

end Splitting

/-- **A calculation can be split on the left.**  It makes no difference whether the first operands
of a form stand in a form of their own, if these are at least two and others come after them, for `-`
and `/`, and for `+` and `*` if none of them evaluates to a double.  Whatever the operands do, the
two forms end together.  A form of these kinds yields a double if and only if an operand does. -/
theorem calculations_split_on_the_left [LawfulFrame F] (env : Environment F) :
    (∀ op as bs, op = .sub ∨ op = .div → 2 ≤ as.length → 1 ≤ bs.length →
      EndTogether Environment.SameButTrace
        (fun budget => evaluate budget (Operator.form op (op.form as :: bs)) env)
        fun budget => evaluate budget (op.form (as ++ bs)) env) ∧
    (∀ op as bs, op = .add ∨ op = .mul →
      (∀ values last, YieldAll as env.afterWord values last →
        ∀ value ∈ values, value.kind ≠ .double) →
      EndTogether Environment.SameButTrace
        (fun budget => evaluate budget (Operator.form op (op.form as :: bs)) env)
        fun budget => evaluate budget (op.form (as ++ bs)) env) ∧
    ∀ op exprs value last, Operator.Calculates op exprs.length →
      Settles (fun budget => evaluate budget (op.form exprs) env) (.value value last) →
      ∃ values, YieldAll exprs env.afterWord values last ∧
        (value.kind = .double ↔ ∃ v ∈ values, v.kind = .double) := by
  refine ⟨fun op as bs hop has hbs => ?_, fun op as bs hop hvalues => ?_,
    fun op exprs value last hop hsettles => ?_⟩
  · have hlong (count : Nat) (h : 2 ≤ count) : op.Calculates count := .inr ⟨hop, h⟩
    refine endTogether_split (hlong _ has) (hlong _ ?_) (hlong _ ?_) (.inr ?_) fun _ t _ _ =>
      Operator.entry_of_sub_or_div hop t
    · rw [List.length_cons]
      omega
    · rw [List.length_append]
      omega
    · rintro rfl
      simp at has
  · refine endTogether_split (.inl hop) (.inl hop) (.inl hop) (.inl hop) fun budget t mid htotal =>
      ?_
    obtain ⟨numbers, hnumbers, ht⟩ := exists_of_total htotal
    have hkind : t.toCell.kind ≠ .double := by
      rw [Ne, Operator.kind_total ht]
      rintro ⟨a, ha, hdouble⟩
      exact hvalues _ _ hnumbers _ (List.mem_map_of_mem ha) hdouble
    obtain ⟨n, rfl⟩ := Number.exists_integer_of_kind hkind
    exact op.entry_integer n
  · obtain ⟨numbers, t, hnumbers, ht, rfl⟩ := exists_of_calculation hop hsettles
    refine ⟨_, hnumbers, ?_⟩
    rw [Operator.kind_total ht]
    simp

/-- A division by zero in the middle of what an inner form prints and an outer form does not, and a
sum that becomes a double with its last operand. -/
theorem calculations_split_on_the_left_despite_prints :
    let env : Environment OrderedFrame := Environment.fresh .unlimited
    let print : Cell := Operator.print.form [.integer 1]
    let seven : Cell := letForm [] [print, .integer 7]
    let half : Cell := .double 0.5
    (EndTogether Environment.SameButTrace
        (fun budget => evaluate budget
          (Operator.div.form [Operator.div.form [seven, .integer 0], print]) env)
        (fun budget => evaluate budget (Operator.div.form [seven, .integer 0, print]) env) ∧
      ∃ last, Settles (fun budget => evaluate budget
          (Operator.div.form [seven, .integer 0, print]) env) (.failure .divideByZero last) ∧
        last.output.written = "1\n".toUTF8) ∧
    EndTogether Environment.SameButTrace
        (fun budget => evaluate budget
          (Operator.add.form [Operator.add.form [seven, .integer 3], half]) env)
        (fun budget => evaluate budget (Operator.add.form [seven, .integer 3, half]) env) ∧
    ∃ x last, Settles (fun budget => evaluate budget
        (Operator.add.form [seven, .integer 3, half]) env) (.value (.double x) last) ∧
      ∃ values, YieldAll [seven, .integer 3, half] env.afterWord values last ∧
        ∃ v ∈ values, v.kind = .double := by
  intro env print seven half
  obtain ⟨hdiv, hadd, hkind⟩ := calculations_split_on_the_left env
  refine ⟨⟨hdiv .div [seven, .integer 0] [print] (.inr rfl) (by decide) (by decide), ?_⟩, ?_, ?_⟩
  · obtain ⟨last, hrun, hwritten⟩ : ∃ last, evaluate 6
        (Operator.div.form [seven, .integer 0, print]) env = .failure .divideByZero last ∧
        last.output.written = "1\n".toUTF8 := ⟨_, rfl, rfl⟩
    exact ⟨last, (steady_evaluate _ env).settles_of_failure hrun, hwritten⟩
  · refine hadd .add [seven, .integer 3] [half] (.inl rfl) fun values last hvalues => ?_
    have hseven : Yields seven env.afterWord (.integer 7) _ :=
      .of_eq (rfl : (run 5).operand _ _ = _)
    have hthree (mid : Environment OrderedFrame) : Yields (.integer 3) mid (.integer 3) _ :=
      yields_of_standsForItself rfl mid
    obtain ⟨rfl, -⟩ := hvalues.unique (.cons hseven (.cons (hthree _) .nil))
    decide
  · obtain ⟨x, last, hrun⟩ : ∃ x last, evaluate 6
        (Operator.add.form [seven, .integer 3, half]) env = .value (.double x) last := ⟨_, _, rfl⟩
    have hsettles := (steady_evaluate _ env).settles_of_value hrun
    obtain ⟨values, hvalues, hiff⟩ := hkind .add _ _ _ (.inl (.inl rfl)) hsettles
    exact ⟨x, last, hsettles, values, hvalues, hiff.1 rfl⟩

end ConsLisp

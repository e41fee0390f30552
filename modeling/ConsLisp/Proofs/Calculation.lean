import ConsLisp.Proofs.Forms

/-!
# Calculating with operands

`+` and `*`, and `-` and `/` when they have two operands or more, do the same thing: the first
operand gives a number to begin with, and the others are worked into it one by one, each as soon as
it has been evaluated.  `Operator.total` says what this comes to for numbers that are there already,
and `Evaluator.total` is the same for operands.  The two belong together: a form yields a number if
and only if all of its operands do and the numbers have a total, which is the number that it yields
(`settles_calculation`, `exists_of_calculation`).
-/

namespace ConsLisp

/-! ## Totals of numbers -/

theorem Number.map_toCell_integer (ns : List Int64) :
    (ns.map integer).map toCell = ns.map Cell.integer := by
  rw [List.map_map]
  rfl

namespace Operator

/-- What an operator makes of no operands. -/
def start : Operator → Number
  | mul => .integer 1
  | _ => .integer 0

/-- The number that the first operand gives to begin with. -/
def entry : Operator → Number → Number
  | add, a => add.start.add a
  | mul, a => mul.start.mul a
  | _, a => a

/-- Works one more operand into the number reached so far. -/
def combine : Operator → Number → Number → Except EvalError Number
  | sub, acc, a => .ok (acc.sub a)
  | mul, acc, a => .ok (acc.mul a)
  | div, acc, a => acc.div a
  | _, acc, a => .ok (acc.add a)

/-- What an operator makes of numbers. -/
def total (op : Operator) : List Number → Except EvalError Number
  | [] => .ok op.start
  | a :: numbers => numbers.foldlM op.combine (op.entry a)

/-- The operators that make a total of so many operands.  With a single operand `-` and `/` do
something else. -/
def Calculates (op : Operator) (count : Nat) : Prop :=
  (op = add ∨ op = mul) ∨ (op = sub ∨ op = div) ∧ 2 ≤ count

/-- An integer is not changed by being worked into zero by `+`, or into one by `*`. -/
theorem entry_integer (op : Operator) (n : Int64) : op.entry (.integer n) = .integer n := by
  cases op with
  | add => exact congrArg Number.integer (Int64.zero_add n)
  | mul => exact congrArg Number.integer (Int64.one_mul n)
  | _ => rfl

theorem foldlM_combine_cons_iff {op : Operator} {acc a t : Number} {numbers : List Number} :
    (a :: numbers).foldlM op.combine acc = .ok t ↔
      ∃ next, op.combine acc a = .ok next ∧ numbers.foldlM op.combine next = .ok t := by
  rw [List.foldlM_cons]
  cases h : op.combine acc a with
  | ok next =>
    constructor
    · exact fun htotal => ⟨next, rfl, htotal⟩
    · rintro ⟨next', hnext, htotal⟩
      rwa [← Except.ok.inj hnext] at htotal
  | error e =>
    constructor
    · rintro ⟨⟩
    · rintro ⟨next, ⟨⟩, -⟩

theorem combine_meets (op : Operator) (acc a : Number) :
    Meets (fun _ => True) (op.combine acc a) := by
  cases op with
  | div => exact Number.div_meets acc a
  | _ => trivial

end Operator

/-! ## Totals of operands -/

namespace Evaluator

variable {F : Type} (self : Evaluator F)

/-- Evaluates operands and works each into the number reached so far. -/
def accumulate (op : Operator) (acc : Number) (exprs : List Cell) : EvalM F Number :=
  exprs.foldlM (fun acc expr => do op.combine acc (← self.number op expr)) acc

/-- What an operator makes of operands. -/
def total (op : Operator) : List Cell → EvalM F Number
  | [] => return op.start
  | expr :: exprs => do self.accumulate op (op.entry (← self.number op expr)) exprs

theorem accumulate_cons (op : Operator) (acc : Number) (expr : Cell) (exprs : List Cell) :
    self.accumulate op acc (expr :: exprs) = (do
      let a ← self.number op expr
      let acc ← op.combine acc a
      self.accumulate op acc exprs) := by
  rw [accumulate, List.foldlM_cons, bind_assoc]
  rfl

theorem accumulate_append (op : Operator) (acc : Number) (exprs exprs' : List Cell) :
    self.accumulate op acc (exprs ++ exprs') =
      self.accumulate op acc exprs >>= fun acc => self.accumulate op acc exprs' :=
  List.foldlM_append

/-- `+` and `*` may as well begin before their first operand. -/
theorem accumulate_start {op : Operator} (h : op = .add ∨ op = .mul) (exprs : List Cell) :
    self.accumulate op op.start exprs = self.total op exprs := by
  cases exprs with
  | nil => rfl
  | cons expr exprs =>
    rw [accumulate_cons]
    rcases h with rfl | rfl <;> rfl

theorem asNumber_toCell (op : Operator) (a : Number) : asNumber op a.toCell = .ok a := by
  rw [asNumber, Number.ofCell?_toCell]

theorem asNumber_eq_ok_iff {op : Operator} {value : Cell} {a : Number} :
    asNumber op value = .ok a ↔ value = a.toCell := by
  rw [← Number.ofCell?_eq_some_iff, asNumber]
  cases Number.ofCell? value <;> simp

variable [Frame F]

theorem dispatch_of_calculates {op : Operator} {operands : List Cell}
    (h : op.Calculates operands.length) :
    self.dispatch op (.ofList operands) = (do return (← self.total op operands).toCell) := by
  rcases h with hop | ⟨hop, hcount⟩
  · rw [← self.accumulate_start hop]
    rcases hop with rfl | rfl <;> exact self.dispatch_of_run? rfl
  · obtain ⟨expr, expr', exprs, rfl⟩ : ∃ expr expr' exprs, operands = expr :: expr' :: exprs := by
      rcases operands with _ | ⟨expr, _ | ⟨expr', exprs⟩⟩
      · simp at hcount
      · simp at hcount
      · exact ⟨expr, expr', exprs, rfl⟩
    rw [total, bind_assoc]
    rcases hop with rfl | rfl <;> exact self.dispatch_of_run? rfl

end Evaluator

variable {F : Type} [Frame F]

theorem uniform_accumulate (op : Operator) (acc : Number) (exprs : List Cell) :
    Uniform (fun _ => True) fun self : Evaluator F => self.accumulate op acc exprs := by
  intro R self self' hR hself
  have hagree : List.Forall₂ (self.Agree (Passing fun _ => True) R self') exprs exprs :=
    List.forall₂_same.2 fun expr _ => hself (.operand expr)
  refine hR.foldlM_rel (hagree.imp fun _ _ h acc _ => ?_) trivial
  exact hR.bind_rel (hR.number h) fun a _ => hR.lift_rel (op.combine_meets acc a)

/-! ## What a total comes to -/

section Totals

variable {op : Operator} {expr : Cell} {exprs : List Cell} {a acc t : Number}
  {numbers : List Number} {env last : Environment F}

theorem settles_number (h : Yields expr env a.toCell last) :
    Settles (fun budget => (run budget).number op expr env) (.value a last) := by
  refine h.bind ⟨0, fun _ _ => ?_⟩
  rw [Evaluator.asNumber_toCell]
  rfl

theorem settles_accumulate (h : YieldAll exprs env (numbers.map Number.toCell) last)
    (htotal : numbers.foldlM op.combine acc = .ok t) :
    Settles (fun budget => (run budget).accumulate op acc exprs env) (.value t last) := by
  induction exprs generalizing acc env numbers with
  | nil =>
    obtain ⟨hnumbers, rfl⟩ := yieldAll_nil_iff.1 h
    obtain rfl := List.map_eq_nil_iff.1 hnumbers
    obtain rfl := Except.ok.inj htotal
    exact ⟨0, fun _ _ => rfl⟩
  | cons expr exprs ih =>
    obtain ⟨value, rest, mid, hnumbers, hyields, hrest⟩ := yieldAll_cons_iff.1 h
    obtain ⟨a, numbers, rfl, rfl, rfl⟩ := List.map_eq_cons_iff.1 hnumbers
    obtain ⟨next, hcombine, htotal⟩ := Operator.foldlM_combine_cons_iff.1 htotal
    simp only [Evaluator.accumulate_cons]
    refine (settles_number hyields).bind ?_
    simp only [EvalM.check_of_ok hcombine]
    exact ih hrest htotal

theorem settles_total (h : YieldAll exprs env (numbers.map Number.toCell) last)
    (htotal : op.total numbers = .ok t) :
    Settles (fun budget => (run budget).total op exprs env) (.value t last) := by
  cases exprs with
  | nil =>
    obtain ⟨hnumbers, rfl⟩ := yieldAll_nil_iff.1 h
    obtain rfl := List.map_eq_nil_iff.1 hnumbers
    obtain rfl := Except.ok.inj htotal
    exact ⟨0, fun _ _ => rfl⟩
  | cons expr exprs =>
    obtain ⟨value, rest, mid, hnumbers, hyields, hrest⟩ := yieldAll_cons_iff.1 h
    obtain ⟨a, numbers, rfl, rfl, rfl⟩ := List.map_eq_cons_iff.1 hnumbers
    exact (settles_number hyields).bind (settles_accumulate hrest htotal)

theorem settles_calculation (hop : op.Calculates exprs.length)
    (h : YieldAll exprs env.afterWord (numbers.map Number.toCell) last)
    (htotal : op.total numbers = .ok t) :
    Settles (fun budget => evaluate budget (op.form exprs) env) (.value t.toCell last) := by
  rw [settles_form_iff]
  simp only [Evaluator.dispatch_of_calculates _ hop]
  exact (settles_total h htotal).bind ⟨0, fun _ _ => rfl⟩

variable {budget : Nat}

theorem yields_of_number (h : (run budget).number op expr env = .value a last) :
    Yields expr env a.toCell last := by
  obtain ⟨value, mid, hvalue, hnumber⟩ := EvalM.bind_eq_value_iff.1 h
  obtain ⟨hchecked, rfl⟩ := EvalM.check_eq_value_iff.1 hnumber
  rw [← Evaluator.asNumber_eq_ok_iff.1 hchecked]
  exact .of_eq hvalue

theorem exists_of_accumulate (h : (run budget).accumulate op acc exprs env = .value t last) :
    ∃ numbers : List Number, YieldAll exprs env (numbers.map Number.toCell) last ∧
      numbers.foldlM op.combine acc = .ok t := by
  induction exprs generalizing acc env with
  | nil =>
    cases h
    exact ⟨[], .nil, rfl⟩
  | cons expr exprs ih =>
    rw [Evaluator.accumulate_cons] at h
    obtain ⟨a, mid, hnumber, h⟩ := EvalM.bind_eq_value_iff.1 h
    obtain ⟨next, mid', hlift, h⟩ := EvalM.bind_eq_value_iff.1 h
    obtain ⟨hcombine, rfl⟩ := EvalM.check_eq_value_iff.1 hlift
    obtain ⟨numbers, hrest, htotal⟩ := ih h
    exact ⟨a :: numbers, .cons (yields_of_number hnumber) hrest,
      Operator.foldlM_combine_cons_iff.2 ⟨next, hcombine, htotal⟩⟩

theorem exists_of_total (h : (run budget).total op exprs env = .value t last) :
    ∃ numbers : List Number, YieldAll exprs env (numbers.map Number.toCell) last ∧
      op.total numbers = .ok t := by
  cases exprs with
  | nil =>
    cases h
    exact ⟨[], .nil, rfl⟩
  | cons expr exprs =>
    obtain ⟨a, mid, hnumber, h⟩ := EvalM.bind_eq_value_iff.1 h
    obtain ⟨numbers, hrest, htotal⟩ := exists_of_accumulate h
    exact ⟨a :: numbers, .cons (yields_of_number hnumber) hrest, htotal⟩

theorem exists_of_calculation (hop : op.Calculates exprs.length) {value : Cell}
    (h : Settles (fun budget => evaluate budget (op.form exprs) env) (.value value last)) :
    ∃ (numbers : List Number) (t : Number),
      YieldAll exprs env.afterWord (numbers.map Number.toCell) last ∧ op.total numbers = .ok t ∧
        value = t.toCell := by
  rw [settles_form_iff] at h
  simp only [Evaluator.dispatch_of_calculates _ hop] at h
  obtain ⟨least, h⟩ := h
  obtain ⟨t, mid, hrun, hvalue⟩ := EvalM.bind_eq_value_iff.1 (h least (Nat.le_refl least))
  cases hvalue
  obtain ⟨numbers, hvalues, htotal⟩ := exists_of_total hrun
  exact ⟨numbers, t, hvalues, htotal, rfl⟩

end Totals

end ConsLisp

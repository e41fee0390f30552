import ConsLisp.Frame.Containers
import ConsLisp.Proofs.DoubleOrder
import ConsLisp.Proofs.Calculation

/-!
# Comparison chains

`<` evaluates its operands one by one and compares each with the one before.  It stops at the first
that does not ascend, so what stands behind it is not looked at, and what it has compared are only
neighbours.  That all others ascend too is a matter of transitivity.  This holds although integers
are compared exactly with each other and as doubles with doubles, since rounding to a double is
monotone: a double between two integers is between their roundings (`Number.lt_trans`).

An operand is compared with the one before if there is one.  `Evaluator.ascendingAfter` takes the
first operand and the others together, and `settles_ascendingAfter_append` goes through operands
that ascend up to any point in the chain, whatever comes there.
-/

namespace ConsLisp

/-! ## The order of numbers -/

namespace Number

theorem toCell_injective : Function.Injective toCell := fun a b h => by
  rw [← Option.some.injEq, ← ofCell?_toCell, h, ofCell?_toCell]

theorem map_toCell_injective : Function.Injective (List.map toCell) :=
  List.map_injective_iff.2 toCell_injective

theorem integer_lt_iff {m n : Int64} : (integer m).lt (integer n) = true ↔ m < n :=
  decide_eq_true_iff

theorem lt_double_iff {a : Number} {x : Double} : a.lt (double x) = true ↔ a.toDouble < x := by
  cases a <;> exact decide_eq_true_iff

theorem double_lt_iff {a : Number} {x : Double} : (double x).lt a = true ↔ x < a.toDouble := by
  cases a <;> exact decide_eq_true_iff

/-- A number that is less than another is not above it as a double. -/
theorem key_le_of_lt {a b : Number} (h : a.lt b = true) :
    (a.toDouble.isNaN = false ∧ b.toDouble.isNaN = false) ∧
      Double.key a.toDouble ≤ Double.key b.toDouble := by
  have hdouble (h : a.toDouble < b.toDouble) := Double.lt_iff.1 h
  cases a with
  | integer m =>
    cases b with
    | integer n =>
      have hle := Double.key_ofInt64_le (Int64.le_of_lt (integer_lt_iff.1 h))
      exact ⟨⟨Double.isNaN_ofInt64 m, Double.isNaN_ofInt64 n⟩, hle⟩
    | double y => exact (hdouble (lt_double_iff.1 h)).imp_right le_of_lt
  | double x => exact (hdouble (double_lt_iff.1 h)).imp_right le_of_lt

theorem lt_trans {a b c : Number} (hab : a.lt b = true) (hbc : b.lt c = true) :
    a.lt c = true := by
  obtain ⟨hnumbers, hle⟩ := key_le_of_lt hab
  obtain ⟨hnumbers', hle'⟩ := key_le_of_lt hbc
  cases a with
  | double x =>
    have hlt := (Double.lt_iff.1 (double_lt_iff.1 hab)).2
    exact double_lt_iff.2 (Double.lt_iff.2 ⟨⟨hnumbers.1, hnumbers'.2⟩, hlt.trans_le hle'⟩)
  | integer m =>
    cases c with
    | double z =>
      have hlt := (Double.lt_iff.1 (lt_double_iff.1 hbc)).2
      exact lt_double_iff.2 (Double.lt_iff.2 ⟨⟨hnumbers.1, hnumbers'.2⟩, hle.trans_lt hlt⟩)
    | integer n =>
      cases b with
      | integer k =>
        exact integer_lt_iff.2 (Int64.lt_trans (integer_lt_iff.1 hab) (integer_lt_iff.1 hbc))
      | double y =>
        have hlt := (Double.lt_iff.1 (lt_double_iff.1 hab)).2.trans_le hle'
        have hnot : ¬ n ≤ m := fun h => (Double.key_ofInt64_le h).not_gt hlt
        exact integer_lt_iff.2 (Int64.not_le.1 hnot)

end Number

theorem Ascends.pairwise {numbers : List Number} (h : Ascends numbers) :
    numbers.Pairwise fun a b => a.lt b = true := by
  have : Trans (fun a b : Number => a.lt b = true) (fun a b => a.lt b = true)
      (fun a b => a.lt b = true) := ⟨Number.lt_trans⟩
  exact List.isChain_iff_pairwise.1 h

/-- For integers, to ascend from each to the next is to ascend from each to all that follow. -/
theorem ascends_integers_iff {ns : List Int64} :
    Ascends (ns.map .integer) ↔ ns.Pairwise (· < ·) := by
  constructor
  · intro h
    exact (List.pairwise_map.1 h.pairwise).imp Number.integer_lt_iff.1
  · intro h
    exact (List.pairwise_map.2 (h.imp Number.integer_lt_iff.2)).isChain

theorem ascends_toList_append_cons_iff {previous : Option Number} {a : Number}
    {numbers : List Number} : Ascends (previous.toList ++ a :: numbers) ↔
      previous.all (fun b => b.lt a) = true ∧ Ascends (a :: numbers) := by
  cases previous <;> simp [Ascends, List.isChain_cons_cons]

/-! ## A chain from any point on -/

namespace Evaluator

variable {F : Type} (self : Evaluator F)

/-- Whether the values of expressions ascend strictly, from the previous number on if there is
one. -/
def ascendingAfter : Option Number → List Cell → EvalM F Cell
  | none => self.ascending
  | some a => self.ascendingFrom a

theorem ascendingAfter_nil (previous : Option Number) :
    self.ascendingAfter previous [] = pure (.integer 1) := by
  cases previous <;> rfl

theorem ascendingAfter_cons (previous : Option Number) (expr : Cell) (exprs : List Cell) :
    self.ascendingAfter previous (expr :: exprs) = (do
      let next ← self.number .lessThan expr
      if previous.all (fun a => a.lt next) then self.ascendingAfter (some next) exprs
      else return .integer 0) := by
  cases previous <;> rfl

end Evaluator

variable {F : Type} [Frame F]

section Chains

variable {previous : Option Number} {expr : Cell} {exprs rest : List Cell} {a : Number}
  {numbers : List Number} {env mid last : Environment F} {o : Outcome (Environment F) Cell}

theorem settles_ascendingAfter_cons (h : Yields expr env a.toCell mid)
    (hlt : previous.all (fun b => b.lt a) = true)
    (hrest : Settles (fun budget => (run budget).ascendingAfter (some a) rest mid) o) :
    Settles (fun budget => (run budget).ascendingAfter previous (expr :: rest) env) o := by
  simp only [Evaluator.ascendingAfter_cons]
  refine (settles_number h).bind ?_
  simpa only [hlt, if_true] using hrest

theorem settles_ascendingAfter_append (h : YieldAll exprs env (numbers.map Number.toCell) mid)
    (hascends : Ascends (previous.toList ++ numbers))
    (hrest : Settles (fun budget =>
      (run budget).ascendingAfter (numbers.getLast?.or previous) rest mid) o) :
    Settles (fun budget => (run budget).ascendingAfter previous (exprs ++ rest) env) o := by
  induction exprs generalizing previous env numbers with
  | nil =>
    obtain ⟨hnumbers, rfl⟩ := yieldAll_nil_iff.1 h
    obtain rfl := List.map_eq_nil_iff.1 hnumbers
    exact hrest
  | cons expr exprs ih =>
    obtain ⟨value, values, next, hnumbers, hyields, hvalues⟩ := yieldAll_cons_iff.1 h
    obtain ⟨a, numbers, rfl, rfl, rfl⟩ := List.map_eq_cons_iff.1 hnumbers
    obtain ⟨hlt, hascends⟩ := ascends_toList_append_cons_iff.1 hascends
    refine settles_ascendingAfter_cons hyields hlt (ih hvalues hascends ?_)
    have hlast : (a :: numbers).getLast?.or previous = numbers.getLast?.or (some a) := by
      rw [List.getLast?_cons]
      cases numbers.getLast? <;> rfl
    rwa [← hlast]

theorem settles_ascendingAfter_descent (h : Yields expr env a.toCell last)
    (hnot : previous.all (fun b => b.lt a) = false) :
    Settles (fun budget => (run budget).ascendingAfter previous (expr :: rest) env)
      (.value (.integer 0) last) := by
  simp only [Evaluator.ascendingAfter_cons]
  refine (settles_number h).bind ⟨0, fun budget _ => ?_⟩
  simp only [hnot]
  rfl

theorem settles_ascendingAfter_failure {e : EvalError}
    (h : Settles (fun budget => (run budget).number .lessThan expr env) (.failure e last)) :
    Settles (fun budget => (run budget).ascendingAfter previous (expr :: rest) env)
      (.failure e last) := by
  simp only [Evaluator.ascendingAfter_cons]
  exact h.bind_failure

theorem exists_of_ascendingAfter {budget : Nat}
    (h : (run budget).ascendingAfter previous exprs env = .value (.integer 1) last) :
    ∃ numbers : List Number, YieldAll exprs env (numbers.map Number.toCell) last ∧
      Ascends (previous.toList ++ numbers) := by
  induction exprs generalizing previous env with
  | nil =>
    rw [Evaluator.ascendingAfter_nil] at h
    cases h
    refine ⟨[], .nil, ?_⟩
    cases previous <;> simp [Ascends]
  | cons expr exprs ih =>
    rw [Evaluator.ascendingAfter_cons] at h
    obtain ⟨a, mid, hnumber, h⟩ := EvalM.bind_eq_value_iff.1 h
    cases hlt : previous.all (fun b => b.lt a) with
    | false =>
      rw [hlt] at h
      cases h
    | true =>
      rw [hlt, if_pos rfl] at h
      obtain ⟨numbers, hvalues, hascends⟩ := ih h
      exact ⟨a :: numbers, .cons (yields_of_number hnumber) hvalues,
        ascends_toList_append_cons_iff.2 ⟨hlt, hascends⟩⟩

end Chains

/-! ## Whole chains -/

/-- How the comparison of operands ends. -/
def ComparisonEnds (exprs : List Cell) (env : Environment F) (o : Outcome (Environment F) Cell) :
    Prop :=
  Settles (fun budget => evaluate budget (Operator.lessThan.form exprs) env) o

section ComparisonEnds

variable {exprs rest : List Cell} {numbers : List Number} {env mid last : Environment F}
  {o : Outcome (Environment F) Cell}

theorem comparisonEnds_iff : ComparisonEnds exprs env o ↔
    Settles (fun budget => (run budget).ascendingAfter none exprs env.afterWord) o :=
  settles_form_of_run? fun _ => rfl

/-- Operands that ascend are passed. -/
theorem comparisonEnds_append (h : YieldAll exprs env.afterWord (numbers.map Number.toCell) mid)
    (hascends : Ascends numbers)
    (hrest : Settles (fun budget => (run budget).ascendingAfter numbers.getLast? rest mid) o) :
    ComparisonEnds (exprs ++ rest) env o := by
  refine comparisonEnds_iff.2 (settles_ascendingAfter_append h hascends ?_)
  rwa [Option.or_none]

theorem comparisonEnds_of_ascends
    (h : YieldAll exprs env.afterWord (numbers.map Number.toCell) last)
    (hascends : Ascends numbers) : ComparisonEnds exprs env (.value (.integer 1) last) := by
  have hends : Settles (fun budget => (run budget).ascendingAfter numbers.getLast? [] last)
      (.value (.integer 1) last) := by
    simp only [Evaluator.ascendingAfter_nil]
    exact ⟨0, fun _ _ => rfl⟩
  have := comparisonEnds_append h hascends hends
  rwa [List.append_nil] at this

theorem ascends_of_comparisonEnds (h : ComparisonEnds exprs env (.value (.integer 1) last)) :
    ∃ numbers : List Number, YieldAll exprs env.afterWord (numbers.map Number.toCell) last ∧
      Ascends numbers := by
  obtain ⟨least, h⟩ := comparisonEnds_iff.1 h
  exact exists_of_ascendingAfter (h least (Nat.le_refl least))

end ComparisonEnds

/-- **A comparison decides whether its operands ascend, and stops where this is decided.**  If all
operands up to some point ascend, the next one decides: a number that is not above the last makes the
result zero, and an operand that is not a number, that fails or that runs for ever does the same to
the whole, whatever stands behind it.  If all operands ascend, the result is one.  For integers
this means that each operand is less than all that follow it, and for numbers of both kinds it
implies that any two of them, in order, compare as less. -/
theorem comparison_decides_sortedness (env : Environment F) :
    (∀ exprs expr rest (numbers : List Number) mid,
      YieldAll exprs env.afterWord (numbers.map Number.toCell) mid → Ascends numbers →
      (∀ a b last, numbers.getLast? = some a → Yields expr mid b.toCell last → a.lt b = false →
        ComparisonEnds (exprs ++ expr :: rest) env (.value (.integer 0) last)) ∧
      (∀ value last, Yields expr mid value last → Number.ofCell? value = none →
        ComparisonEnds (exprs ++ expr :: rest) env
          (.failure (.typeMismatch (.builtin .lessThan) .number (.value value.kind)) last)) ∧
      (∀ e last, Fails expr mid e last →
        ComparisonEnds (exprs ++ expr :: rest) env (.failure e last)) ∧
      (Settles (fun budget => (run budget).operand expr mid) .exhausted →
        ComparisonEnds (exprs ++ expr :: rest) env .exhausted)) ∧
    (∀ exprs (numbers : List Number) last,
      YieldAll exprs env.afterWord (numbers.map Number.toCell) last → Ascends numbers →
      ComparisonEnds exprs env (.value (.integer 1) last)) ∧
    (∀ exprs (ns : List Int64) last, YieldAll exprs env.afterWord (ns.map .integer) last →
      ((∃ last', ComparisonEnds exprs env (.value (.integer 1) last')) ↔ ns.Pairwise (· < ·))) ∧
    ∀ exprs last, ComparisonEnds exprs env (.value (.integer 1) last) →
      ∃ numbers : List Number, YieldAll exprs env.afterWord (numbers.map Number.toCell) last ∧
        numbers.Pairwise fun a b => ∀ expr expr' (env' last' : Environment F),
          YieldAll [expr, expr'] env'.afterWord [a.toCell, b.toCell] last' →
          ComparisonEnds [expr, expr'] env' (.value (.integer 1) last') := by
  refine ⟨fun exprs expr rest numbers mid h hascends => ⟨fun a b last hprevious hnext hnot => ?_,
      fun value last hvalue hkind => ?_, fun e last hfails => ?_, fun hexhausted => ?_⟩,
    fun exprs numbers last h hascends => comparisonEnds_of_ascends h hascends,
    fun exprs ns last h => ?_, fun exprs last h => ?_⟩
  · refine comparisonEnds_append h hascends (settles_ascendingAfter_descent hnext ?_)
    rw [hprevious]
    exact hnot
  · refine comparisonEnds_append h hascends (settles_ascendingAfter_failure ?_)
    have hcheck : Evaluator.asNumber .lessThan value =
        .error (.typeMismatch (.builtin .lessThan) .number (.value value.kind)) := by
      rw [Evaluator.asNumber, hkind]
    refine hvalue.bind ⟨0, fun _ _ => ?_⟩
    rw [hcheck]
    rfl
  · exact comparisonEnds_append h hascends (settles_ascendingAfter_failure hfails.bind_failure)
  · refine comparisonEnds_append h hascends ?_
    simp only [Evaluator.ascendingAfter_cons]
    exact hexhausted.bind_exhausted.bind_exhausted
  · rw [← ascends_integers_iff]
    rw [← Number.map_toCell_integer] at h
    constructor
    · rintro ⟨last', hone⟩
      obtain ⟨numbers, hvalues, hascends⟩ := ascends_of_comparisonEnds hone
      rwa [← Number.map_toCell_injective (hvalues.unique h).1]
    · exact fun hascends => ⟨last, comparisonEnds_of_ascends h hascends⟩
  · obtain ⟨numbers, hvalues, hascends⟩ := ascends_of_comparisonEnds h
    refine ⟨numbers, hvalues, hascends.pairwise.imp fun {a b} hlt expr expr' env' last' h' => ?_⟩
    have hpair : YieldAll [expr, expr'] env'.afterWord ([a, b].map Number.toCell) last' := h'
    exact comparisonEnds_of_ascends hpair (.cons_cons hlt (.singleton b))

/-- Numbers of both kinds that ascend, and what becomes of them if a NaN, a smaller number, an empty
list or a failing call comes next, in front of an operand that fails. -/
theorem comparison_decides_sortedness_of_both_kinds :
    let env : Environment OrderedFrame := Environment.fresh .unlimited
    let two : Cell := .double (Double.ofInt64 2)
    let nan : Cell := .double (0.0 / 0.0)
    let bad : Cell := Operator.car.form [.integer 5]
    let e : EvalError := .notAPair (.builtin .car) .integer
    (∃ last, ComparisonEnds [.integer 1, two, nan, bad] env (.value (.integer 0) last)) ∧
    (∃ last, ComparisonEnds [.integer 1, two, .integer 2, bad] env (.value (.integer 0) last)) ∧
    (∃ last, ComparisonEnds [.integer 1, two, .nil, bad] env
      (.failure (.typeMismatch (.builtin .lessThan) .number (.value .nil)) last)) ∧
    (∃ last, ComparisonEnds [.integer 1, two, bad, .nil] env (.failure e last)) ∧
    (∃ last, ComparisonEnds [.integer 1, .integer 2, .integer 3] env (.value (.integer 1) last)) ∧
    ∃ last, ComparisonEnds [.integer 1, two, .integer 3] env (.value (.integer 1) last) ∧
      ∃ last', ComparisonEnds [.integer 1, .integer 3] last (.value (.integer 1) last') := by
  intro env two nan bad e
  obtain ⟨hstops, hone, hintegers, hpairs⟩ := comparison_decides_sortedness env
  have hself (exprs : List Cell) (h : exprs.all Cell.standsForItself = true)
      (env : Environment OrderedFrame) : ∃ last, YieldAll exprs env exprs last :=
    exists_yieldAll_self (List.all_eq_true.1 h) env
  obtain ⟨mid, hfront⟩ := hself [.integer 1, two] rfl env.afterWord
  have hnext (expr : Cell) (rest : List Cell) := hstops [.integer 1, two] expr rest
    [.integer 1, .double (Double.ofInt64 2)] mid hfront (by decide)
  have hbad : Fails bad mid e _ := .of_eq (rfl : (run 2).operand bad mid = _)
  refine ⟨⟨_, (hnext nan [bad]).1 _ (.double (0.0 / 0.0)) _ rfl
      (yields_of_standsForItself rfl mid) (by decide)⟩,
    ⟨_, (hnext (.integer 2) [bad]).1 _ (.integer 2) _ rfl (yields_of_standsForItself rfl mid)
      (by decide)⟩,
    ⟨_, (hnext .nil [bad]).2.1 .nil _ (yields_of_standsForItself rfl mid) rfl⟩,
    ⟨_, (hnext bad [.nil]).2.2.1 e _ hbad⟩, ?_, ?_⟩
  · obtain ⟨last, hall⟩ := hself [.integer 1, .integer 2, .integer 3] rfl env.afterWord
    exact (hintegers _ [1, 2, 3] last hall).2 (by decide)
  · obtain ⟨last, hall⟩ := hself [.integer 1, two, .integer 3] rfl env.afterWord
    have hends := hone _ [.integer 1, .double (Double.ofInt64 2), .integer 3] last hall (by decide)
    obtain ⟨numbers, hvalues, hless⟩ := hpairs _ last hends
    obtain ⟨last', hpair⟩ := hself [.integer 1, .integer 3] rfl last.afterWord
    have hnumbers : numbers = [.integer 1, .double (Double.ofInt64 2), .integer 3] :=
      Number.map_toCell_injective (hvalues.unique hall).1
    rw [hnumbers] at hless
    exact ⟨last, hends, last', (List.pairwise_cons.1 hless).1 (.integer 3) (by simp) _ _ _ _ hpair⟩

end ConsLisp

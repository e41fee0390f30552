import ConsLisp.Frame.Containers
import ConsLisp.Proofs.Calculation
import Mathlib.Algebra.BigOperators.Group.List.Basic
import Mathlib.Data.Int.ModEq

/-!
# Arithmetic of integers

Integers wrap at 64 bits with every operand, but for `+`, `*` and `-` it comes to the same as to
calculate exactly and to wrap once at the end, since wrapping is a congruence
(`Operator.exists_total_integers`).  A result is determined by its congruence class, so the order and
the grouping of the operands of `+` and `*` do not matter.

A quotient is cut towards zero with every divisor.  Here it comes to the same as to divide once by
the product of the divisors, unless a division overflows (`toInt_foldl_div`).  The only quotient that
overflows is that of the least integer and minus one, and this can only be the first one, divisors of
one apart: the least integer is not the quotient of any other division (`div_ne_minValue`).
-/

namespace ConsLisp

/-! ## Wrapping once -/

theorem modEq_of_eq_bmod {a b : ℤ} (h : a = b.bmod (2 ^ 64)) : a ≡ b [ZMOD 2 ^ 64] :=
  (congrArg (· % 2 ^ 64) h).trans Int.bmod_emod

/-- Integers that agree up to wrapping are the same. -/
theorem Int64.eq_of_modEq {m n : Int64} (h : m.toInt ≡ n.toInt [ZMOD 2 ^ 64]) : m = n := by
  have hm := m.le_toInt
  have hm' := m.toInt_lt
  have hn := n.le_toInt
  have hn' := n.toInt_lt
  obtain ⟨k, hk⟩ := h.dvd
  exact Int64.toInt_inj.1 (by omega)

namespace Operator

/-- What an operator makes of two integers. -/
def onIntegers : Operator → Int64 → Int64 → Int64
  | sub, m, n => m - n
  | mul, m, n => m * n
  | div, m, n => m / n
  | _, m, n => m + n

/-- What an operator other than `/` makes of two integers without a bound. -/
def exact : Operator → ℤ → ℤ → ℤ
  | sub, a, b => a - b
  | mul, a, b => a * b
  | _, a, b => a + b

/-- What an operator other than `/` makes of integers without a bound. -/
def exactTotal : Operator → List ℤ → ℤ
  | mul, ns => ns.prod
  | sub, n :: ns => n - ns.sum
  | _, ns => ns.sum

variable {op : Operator}

theorem toInt_onIntegers (hop : op ≠ .div) (m n : Int64) :
    (op.onIntegers m n).toInt ≡ op.exact m.toInt n.toInt [ZMOD 2 ^ 64] := by
  cases op with
  | sub => exact modEq_of_eq_bmod (Int64.toInt_sub m n)
  | mul => exact modEq_of_eq_bmod (Int64.toInt_mul m n)
  | div => exact absurd rfl hop
  | _ => exact modEq_of_eq_bmod (Int64.toInt_add m n)

theorem exact_modEq (op : Operator) {a a' b b' : ℤ} (ha : a ≡ a' [ZMOD 2 ^ 64])
    (hb : b ≡ b' [ZMOD 2 ^ 64]) : op.exact a b ≡ op.exact a' b' [ZMOD 2 ^ 64] := by
  cases op with
  | sub => exact ha.sub hb
  | mul => exact ha.mul hb
  | _ => exact ha.add hb

theorem toInt_foldl_onIntegers (hop : op ≠ .div) (ns : List Int64) {n : Int64} {a : ℤ}
    (h : n.toInt ≡ a [ZMOD 2 ^ 64]) :
    (ns.foldl op.onIntegers n).toInt ≡ (ns.map Int64.toInt).foldl op.exact a [ZMOD 2 ^ 64] := by
  induction ns generalizing n a with
  | nil => exact h
  | cons m ns ih =>
    exact ih ((toInt_onIntegers hop n m).trans (op.exact_modEq h rfl))

theorem exactTotal_cons_cons (op : Operator) (a n : ℤ) (ns : List ℤ) :
    op.exactTotal (a :: n :: ns) = op.exactTotal (op.exact a n :: ns) := by
  cases op with
  | sub => simp [exactTotal, exact, sub_sub]
  | mul => simp [exactTotal, exact, mul_assoc]
  | _ => simp [exactTotal, exact, add_assoc]

theorem foldl_exact (op : Operator) (a : ℤ) (ns : List ℤ) :
    ns.foldl op.exact a = op.exactTotal (a :: ns) := by
  induction ns generalizing a with
  | nil => cases op <;> simp [exactTotal]
  | cons n ns ih => rw [List.foldl_cons, ih, exactTotal_cons_cons]

theorem combine_integers {n : Int64} (h : op = .div → n ≠ 0) (m : Int64) :
    op.combine (.integer m) (.integer n) = .ok (.integer (op.onIntegers m n)) := by
  cases op with
  | div => exact if_neg (by simpa [Number.isZero] using h rfl)
  | _ => rfl

theorem foldlM_combine_integers {ns : List Int64} (h : op = .div → 0 ∉ ns) (m : Int64) :
    (ns.map Number.integer).foldlM op.combine (.integer m) =
      .ok (.integer (ns.foldl op.onIntegers m)) := by
  induction ns generalizing m with
  | nil => rfl
  | cons n ns ih =>
    have hn : op = .div → n ≠ 0 := fun hop hzero => h hop (hzero ▸ List.mem_cons_self)
    have hns : op = .div → 0 ∉ ns := fun hop hzero => h hop (List.mem_cons_of_mem n hzero)
    exact foldlM_combine_cons_iff.2 ⟨_, combine_integers hn m, ih hns _⟩

theorem total_integers {m : Int64} {ns : List Int64} (h : op = .div → 0 ∉ ns) :
    op.total ((m :: ns).map .integer) = .ok (.integer (ns.foldl op.onIntegers m)) := by
  rw [List.map_cons, total, entry_integer, foldlM_combine_integers h]

/-- The total of integers is the exact one, wrapped. -/
theorem exists_total_integers (hop : op ≠ .div) (ns : List Int64) :
    ∃ n, op.total (ns.map .integer) = .ok (.integer n) ∧
      n.toInt ≡ op.exactTotal (ns.map Int64.toInt) [ZMOD 2 ^ 64] := by
  cases ns with
  | nil => cases op <;> exact ⟨_, rfl, by decide⟩
  | cons m ns =>
    refine ⟨_, total_integers fun h => absurd h hop, ?_⟩
    rw [List.map_cons, ← foldl_exact]
    exact toInt_foldl_onIntegers hop ns rfl

end Operator

/-! ## Quotients -/

theorem tdiv_tdiv (a b c : ℤ) : (a.tdiv b).tdiv c = a.tdiv (b * c) := by
  obtain ⟨a, rfl | rfl⟩ := a.eq_nat_or_neg <;> obtain ⟨b, rfl | rfl⟩ := b.eq_nat_or_neg <;>
    obtain ⟨c, rfl | rfl⟩ := c.eq_nat_or_neg <;>
    simp only [Int.neg_tdiv, Int.tdiv_neg, Int.neg_mul, Int.mul_neg, Int.neg_neg,
      ← Int.ofNat_tdiv, ← Int.natCast_mul, Nat.div_div_eq_div_mul]

theorem toInt_div {a d : Int64} (h : a ≠ Int64.minValue ∨ d ≠ -1) :
    (a / d).toInt = a.toInt.tdiv d.toInt := by
  rcases h with h | h
  · exact Int64.toInt_div_of_ne_left a d h
  · exact Int64.toInt_div_of_ne_right a d h

/-- A quotient that does not overflow is nearer to zero than the least integer, unless the divisor is
one. -/
theorem div_ne_minValue {a d : Int64} (hone : d ≠ 1) (h : a ≠ Int64.minValue ∨ d ≠ -1) :
    a / d ≠ Int64.minValue := by
  intro hmin
  have hquotient : a.toInt.tdiv d.toInt = -2 ^ 63 := by
    rw [← toInt_div h, hmin]
    rfl
  have hle := a.le_toInt
  have hlt := a.toInt_lt
  by_cases hminus : d = -1
  · subst hminus
    rw [show (-1 : Int64).toInt = -1 from rfl, Int.tdiv_neg, Int.tdiv_one] at hquotient
    omega
  · have hone' : d.toInt ≠ 1 := fun h => hone (Int64.toInt_inj.1 h)
    have hminus' : d.toInt ≠ -1 := fun h => hminus (Int64.toInt_inj.1 h)
    have habs : (a.toInt.tdiv d.toInt).natAbs = a.toInt.natAbs / d.toInt.natAbs :=
      Int.natAbs_tdiv a.toInt d.toInt
    -- a quotient by zero is zero, and any other is at most half the dividend
    have hsmall : d.toInt.natAbs = 0 ∨ 2 ≤ d.toInt.natAbs := by omega
    rcases hsmall with hzero | htwo
    · rw [hzero, Nat.div_zero] at habs
      omega
    · have hhalf : a.toInt.natAbs / d.toInt.natAbs ≤ a.toInt.natAbs / 2 :=
        Nat.div_le_div_left htwo Nat.zero_lt_two
      omega

/-- To cut a quotient with every divisor is to cut it once, unless the first divisor other than one
makes it overflow. -/
theorem toInt_foldl_div {a : Int64} {ds : List Int64}
    (h : ¬ (a = Int64.minValue ∧ ds.find? (· ≠ 1) = some (-1))) :
    (ds.foldl (· / ·) a).toInt = a.toInt.tdiv (ds.map Int64.toInt).prod := by
  induction ds generalizing a with
  | nil => simp
  | cons d ds ih =>
    rw [List.foldl_cons, List.map_cons, List.prod_cons]
    by_cases hone : d = 1
    · -- the exception looks past a one, so the hypothesis stays with the other divisors
      subst hone
      rw [ih (by simpa using h)]
      simp
    · have hd : a ≠ Int64.minValue ∨ d ≠ -1 := by
        rw [List.find?_cons_of_pos (by simpa using hone)] at h
        by_contra hcon
        push Not at hcon
        exact h ⟨hcon.1, congrArg some hcon.2⟩
      rw [ih fun hcon => div_ne_minValue hone hd hcon.1, toInt_div hd, tdiv_tdiv]

theorem foldl_div_of_ones {ones : List Int64} (h : ∀ d ∈ ones, d = 1) (a : Int64) :
    ones.foldl (· / ·) a = a := by
  induction ones with
  | nil => rfl
  | cons d ones ih =>
    rw [List.foldl_cons, h d List.mem_cons_self, Int64.div_one]
    exact ih fun d' hd' => h d' (List.mem_cons_of_mem d hd')

/-! ## Forms of integers -/

namespace Operator

variable {op : Operator}

theorem ne_div (hop : op = add ∨ op = mul) : op ≠ div := by
  rintro rfl
  simp at hop

theorem calculates_of_ne_nil (hop : op = sub ∨ op = div) {exprs : List Cell} (hne : exprs ≠ [])
    (expr : Cell) : op.Calculates (expr :: exprs).length := by
  have := List.length_pos_of_ne_nil hne
  rw [List.length_cons]
  exact .inr ⟨hop, by omega⟩

theorem exactTotal_append (hop : op = add ∨ op = mul) (ns ns' : List ℤ) :
    op.exactTotal (ns ++ ns') = op.exact (op.exactTotal ns) (op.exactTotal ns') := by
  rcases hop with rfl | rfl
  · exact List.sum_append
  · exact List.prod_append

theorem exactTotal_cons (hop : op = add ∨ op = mul) (n : ℤ) (ns : List ℤ) :
    op.exactTotal (n :: ns) = op.exact n (op.exactTotal ns) := by
  rcases hop with rfl | rfl
  · exact List.sum_cons
  · exact List.prod_cons

theorem exactTotal_perm (hop : op = add ∨ op = mul) {ns ns' : List ℤ} (h : ns.Perm ns') :
    op.exactTotal ns = op.exactTotal ns' := by
  rcases hop with rfl | rfl
  · exact h.sum_eq
  · exact h.prod_eq

end Operator

/-- Operands of an operator before and after some in a row have been put into forms of their own,
within which this may have been done again. -/
inductive Regrouped (op : Operator) : List Cell → List Cell → Prop
  | nil : Regrouped op [] []
  | keep {expr exprs exprs'} : Regrouped op exprs exprs' →
    Regrouped op (expr :: exprs) (expr :: exprs')
  | group {inner inner' exprs exprs'} : Regrouped op inner inner' → Regrouped op exprs exprs' →
    Regrouped op (inner ++ exprs) (op.form inner' :: exprs')

section Forms

variable {F : Type} [Frame F] {op : Operator} {expr : Cell} {exprs exprs' : List Cell} {n : Int64}
  {ns ns' : List Int64} {env env' last last' : Environment F}

theorem settles_integers (hop : op.Calculates exprs.length)
    (h : YieldAll exprs env.afterWord (ns.map .integer) last)
    (htotal : op.total (ns.map .integer) = .ok (.integer n)) :
    Settles (fun budget => evaluate budget (op.form exprs) env) (.value (.integer n) last) := by
  rw [← Number.map_toCell_integer] at h
  exact settles_calculation hop h htotal

/-- Operands that are integers make the exact total, wrapped. -/
theorem exists_settles_integers (hop : op.Calculates exprs.length) (hne : op ≠ .div)
    (h : YieldAll exprs env.afterWord (ns.map .integer) last) :
    ∃ n, Settles (fun budget => evaluate budget (op.form exprs) env) (.value (.integer n) last) ∧
      n.toInt ≡ op.exactTotal (ns.map Int64.toInt) [ZMOD 2 ^ 64] := by
  obtain ⟨n, htotal, hn⟩ := Operator.exists_total_integers hne ns
  exact ⟨n, settles_integers hop h htotal, hn⟩

theorem settles_negation (h : Yields expr env.afterWord (.integer n) last) :
    Settles (fun budget => evaluate budget (Operator.sub.form [expr]) env)
      (.value (.integer (-n)) last) := by
  have hnumber : Settles (fun budget => (run budget).number .sub expr env.afterWord)
      (.value (.integer n) last) := settles_number h
  exact (settles_form_of_run? fun _ => rfl).2 (hnumber.bind ⟨0, fun _ _ => rfl⟩)

theorem settles_quotient (hne : exprs ≠ [])
    (h : YieldAll (expr :: exprs) env.afterWord ((n :: ns).map .integer) last) (hns : 0 ∉ ns) :
    Settles (fun budget => evaluate budget (Operator.div.form (expr :: exprs)) env)
      (.value (.integer (ns.foldl (· / ·) n)) last) :=
  settles_integers (Operator.calculates_of_ne_nil (.inr rfl) hne expr) h
    (Operator.total_integers fun _ => hns)

theorem YieldAll.regrouped [LawfulFrame F] (hop : op = .add ∨ op = .mul)
    (hgroups : Regrouped op exprs exprs') (h : YieldAll exprs env (ns.map .integer) last)
    (henv : env.SameButTrace env') :
    ∃ (ns' : List Int64) (last' : Environment F), YieldAll exprs' env' (ns'.map .integer) last' ∧
      last.SameButTrace last' ∧
      op.exactTotal (ns'.map Int64.toInt) ≡ op.exactTotal (ns.map Int64.toInt) [ZMOD 2 ^ 64] := by
  induction hgroups generalizing env env' ns last with
  | nil =>
    obtain ⟨hns, rfl⟩ := yieldAll_nil_iff.1 h
    obtain rfl := List.map_eq_nil_iff.1 hns
    exact ⟨[], env', .nil, henv, rfl⟩
  | keep _ ih =>
    obtain ⟨value, rest, mid, hns, hyields, hrest⟩ := yieldAll_cons_iff.1 h
    obtain ⟨n, ns, rfl, rfl, rfl⟩ := List.map_eq_cons_iff.1 hns
    obtain ⟨mid', hyields', hmid⟩ := hyields.of_sameButTrace henv
    obtain ⟨ns', last', hrest', hlast, htotal⟩ := ih hrest hmid
    refine ⟨n :: ns', last', .cons hyields' hrest', hlast, ?_⟩
    simp only [List.map_cons, Operator.exactTotal_cons hop]
    exact op.exact_modEq rfl htotal
  | group _ _ ihinner ih =>
    obtain ⟨front, back, mid, hns, hfront, hback⟩ := yieldAll_append_iff.1 h
    obtain ⟨ns, ms, rfl, rfl, rfl⟩ := List.map_eq_append_iff.1 hns
    -- the operands in the inner form are evaluated after its word, which only a trace shows
    obtain ⟨ns', mid', hinner, hmid, hfrontTotal⟩ :=
      ihinner hfront (henv.trans (.afterWord env'))
    obtain ⟨n, hform, hn⟩ := exists_settles_integers (.inl hop) (Operator.ne_div hop) hinner
    obtain ⟨ms', last', hrest, hlast, hbackTotal⟩ := ih hback hmid
    refine ⟨n :: ms', last', .cons hform hrest, hlast, ?_⟩
    simp only [List.map_cons, List.map_append, Operator.exactTotal_cons hop,
      Operator.exactTotal_append hop]
    exact op.exact_modEq (hn.trans hfrontTotal) hbackTotal

end Forms

/-- **Arithmetic of integers is exact, wrapped once.**  A sum, a product or a difference of integers
is the integer congruent to the exact one, so for sums and products neither the order of operands nor
their grouping matters.  A quotient is the exact one by the product of the divisors, cut once, unless
the least integer meets minus one first, divisors of one apart: this makes the least integer again,
and the division goes on from there. -/
theorem integer_arithmetic_wraps_once {F : Type} [Frame F] [LawfulFrame F] (env : Environment F) :
    (∀ exprs (ns : List Int64) last, YieldAll exprs env.afterWord (ns.map .integer) last →
      (∃ n, Settles (fun budget => evaluate budget (Operator.add.form exprs) env)
          (.value (.integer n) last) ∧
        n.toInt ≡ (ns.map Int64.toInt).sum [ZMOD 2 ^ 64]) ∧
      ∃ n, Settles (fun budget => evaluate budget (Operator.mul.form exprs) env)
          (.value (.integer n) last) ∧
        n.toInt ≡ (ns.map Int64.toInt).prod [ZMOD 2 ^ 64]) ∧
    (∀ expr exprs n (ns : List Int64) last, exprs ≠ [] →
      YieldAll (expr :: exprs) env.afterWord ((n :: ns).map .integer) last →
      ∃ m, Settles (fun budget => evaluate budget (Operator.sub.form (expr :: exprs)) env)
          (.value (.integer m) last) ∧
        m.toInt ≡ n.toInt - (ns.map Int64.toInt).sum [ZMOD 2 ^ 64]) ∧
    (∀ expr n last, Yields expr env.afterWord (.integer n) last →
      ∃ m, Settles (fun budget => evaluate budget (Operator.sub.form [expr]) env)
          (.value (.integer m) last) ∧
        m.toInt ≡ -n.toInt [ZMOD 2 ^ 64]) ∧
    (∀ op exprs exprs' (ns ns' : List Int64) last last', op = .add ∨ op = .mul → ns.Perm ns' →
      YieldAll exprs env.afterWord (ns.map .integer) last →
      YieldAll exprs' env.afterWord (ns'.map .integer) last' →
      ∃ n, Settles (fun budget => evaluate budget (Operator.form op exprs) env)
          (.value (.integer n) last) ∧
        Settles (fun budget => evaluate budget (op.form exprs') env)
          (.value (.integer n) last')) ∧
    (∀ op exprs exprs' (ns : List Int64) last, op = .add ∨ op = .mul →
      Regrouped op exprs exprs' → YieldAll exprs env.afterWord (ns.map .integer) last →
      ∃ n last', last.SameButTrace last' ∧
        Settles (fun budget => evaluate budget (op.form exprs) env) (.value (.integer n) last) ∧
        Settles (fun budget => evaluate budget (op.form exprs') env)
          (.value (.integer n) last')) ∧
    ∀ expr exprs a (ds : List Int64) last, exprs ≠ [] → 0 ∉ ds →
      YieldAll (expr :: exprs) env.afterWord ((a :: ds).map .integer) last →
      let overflows := a = Int64.minValue ∧ ds.find? (· ≠ 1) = some (-1)
      Settles (fun budget => evaluate budget (Operator.div.form (expr :: exprs)) env)
        (.value (.integer (ds.foldl (· / ·) a)) last) ∧
      (¬ overflows → (ds.foldl (· / ·) a).toInt = a.toInt.tdiv (ds.map Int64.toInt).prod) ∧
      (overflows → ∃ ones rest, ds = ones ++ -1 :: rest ∧ (∀ d ∈ ones, d = 1) ∧
        (ones ++ [-1]).foldl (· / ·) a = Int64.minValue ∧
        ds.foldl (· / ·) a = rest.foldl (· / ·) Int64.minValue) := by
  refine ⟨fun exprs ns last h => ⟨?_, ?_⟩, fun expr exprs n ns last hne h => ?_,
    fun expr n last h => ?_, fun op exprs exprs' ns ns' last last' hop hperm h h' => ?_,
    fun op exprs exprs' ns last hop hgroups h => ?_, fun expr exprs a ds last hne hds h => ?_⟩
  · exact exists_settles_integers (.inl (.inl rfl)) nofun h
  · exact exists_settles_integers (.inl (.inr rfl)) nofun h
  · exact exists_settles_integers (Operator.calculates_of_ne_nil (.inl rfl) hne expr) nofun h
  · exact ⟨_, settles_negation h, modEq_of_eq_bmod (Int64.toInt_neg n)⟩
  · obtain ⟨n, hform, hn⟩ := exists_settles_integers (.inl hop) (Operator.ne_div hop) h
    obtain ⟨n', hform', hn'⟩ := exists_settles_integers (.inl hop) (Operator.ne_div hop) h'
    rw [← Operator.exactTotal_perm hop (hperm.map Int64.toInt)] at hn'
    obtain rfl := Int64.eq_of_modEq (hn.trans hn'.symm)
    exact ⟨n, hform, hform'⟩
  · obtain ⟨ns', last', h', hlast, htotal⟩ := h.regrouped hop hgroups (.refl _)
    obtain ⟨n, hform, hn⟩ := exists_settles_integers (.inl hop) (Operator.ne_div hop) h
    obtain ⟨n', hform', hn'⟩ := exists_settles_integers (.inl hop) (Operator.ne_div hop) h'
    obtain rfl := Int64.eq_of_modEq (hn.trans (hn'.trans htotal).symm)
    exact ⟨n, last', hlast, hform, hform'⟩
  · refine ⟨settles_quotient hne h hds, toInt_foldl_div, ?_⟩
    rintro ⟨rfl, hfind⟩
    obtain ⟨-, ones, rest, rfl, hones⟩ := List.find?_eq_some_iff_append.1 hfind
    have hones' : ∀ d ∈ ones, d = 1 := fun d hd => by simpa using hones d hd
    refine ⟨ones, rest, rfl, hones', ?_, ?_⟩
    · rw [List.foldl_append, foldl_div_of_ones hones']
      exact Int64.minValue_div_neg_one
    · rw [List.foldl_append, foldl_div_of_ones hones', List.foldl_cons, Int64.minValue_div_neg_one]

/-- Sums and products that wrap, in another order and in groups, the negation of the least integer,
and its quotients by minus one, after a one and before a three, and by two and minus one. -/
theorem integer_arithmetic_wraps_once_at_least_integer :
    let env : Environment OrderedFrame := Environment.fresh .unlimited
    let least : Cell := .integer Int64.minValue
    let greatest : Cell := .integer Int64.maxValue
    (∃ n last, Settles (fun budget => evaluate budget
          (Operator.add.form [greatest, .integer 1]) env) (.value (.integer n) last) ∧
        n.toInt ≡ 2 ^ 63 [ZMOD 2 ^ 64]) ∧
    (∃ n last, Settles (fun budget => evaluate budget (Operator.sub.form [least, .integer 1]) env)
        (.value (.integer n) last) ∧ n.toInt ≡ -2 ^ 63 - 1 [ZMOD 2 ^ 64]) ∧
    (∃ n last, Settles (fun budget => evaluate budget (Operator.sub.form [least]) env)
        (.value (.integer n) last) ∧ n.toInt ≡ 2 ^ 63 [ZMOD 2 ^ 64]) ∧
    (∃ n last last', Settles (fun budget => evaluate budget
          (Operator.add.form [greatest, .integer 1]) env) (.value (.integer n) last) ∧
        Settles (fun budget => evaluate budget
          (Operator.add.form [.integer 1, greatest]) env) (.value (.integer n) last')) ∧
    (∃ n last last', Settles (fun budget => evaluate budget
          (Operator.mul.form [greatest, least, .integer 3]) env) (.value (.integer n) last) ∧
        Settles (fun budget => evaluate budget
          (Operator.mul.form [greatest, Operator.mul.form [Operator.mul.form [least], .integer 3]])
          env) (.value (.integer n) last')) ∧
    (∃ last, Settles (fun budget => evaluate budget
        (Operator.div.form [least, .integer 1, .integer (-1), .integer 3]) env)
        (.value (.integer (Int64.minValue / 3)) last)) ∧
    ∃ n last, Settles (fun budget => evaluate budget
        (Operator.div.form [least, .integer 2, .integer (-1)]) env) (.value (.integer n) last) ∧
      n.toInt = 2 ^ 62 := by
  intro env least greatest
  obtain ⟨hboth, hsub, hneg, hperm, hgroups, hdiv⟩ := integer_arithmetic_wraps_once env
  have hself (ns : List Int64) :
      ∃ last, YieldAll (ns.map .integer) env.afterWord (ns.map .integer) last :=
    exists_yieldAll_self (by simp [Cell.standsForItself]) env.afterWord
  obtain ⟨last, hsum⟩ := hself [Int64.maxValue, 1]
  obtain ⟨last', hswapped⟩ := hself [1, Int64.maxValue]
  obtain ⟨mid, hdifference⟩ := hself [Int64.minValue, 1]
  obtain ⟨mid', hproduct⟩ := hself [Int64.maxValue, Int64.minValue, 3]
  obtain ⟨final, hover⟩ := hself [Int64.minValue, 1, -1, 3]
  obtain ⟨final', hexact⟩ := hself [Int64.minValue, 2, -1]
  have hleast : Yields least env.afterWord least _ := yields_of_standsForItself rfl env.afterWord
  obtain ⟨n, hadd, hn⟩ := (hboth _ [Int64.maxValue, 1] _ hsum).1
  obtain ⟨m, hdiff, hm⟩ := hsub least [.integer 1] _ [1] _ nofun hdifference
  obtain ⟨k, hnegation, hk⟩ := hneg _ _ _ hleast
  obtain ⟨i, hforth, hback⟩ := hperm .add _ _ [Int64.maxValue, 1] [1, Int64.maxValue] _ _ (.inl rfl)
    (.swap ..) hsum hswapped
  have hinner : Regrouped .mul ([least] ++ [.integer 3]) [Operator.mul.form [least], .integer 3] :=
    .group (.keep .nil) (.keep .nil)
  have hregrouped : Regrouped .mul (greatest :: ([least, .integer 3] ++ []))
      [greatest, Operator.mul.form [Operator.mul.form [least], .integer 3]] :=
    .keep (.group hinner .nil)
  obtain ⟨j, after, -, hflat, hnested⟩ := hgroups .mul _ _ [Int64.maxValue, Int64.minValue, 3] _
    (.inr rfl) hregrouped hproduct
  obtain ⟨hquotient, -, -⟩ := hdiv least [.integer 1, .integer (-1), .integer 3] _ [1, -1, 3] _
    nofun (by decide) hover
  obtain ⟨hquotient', hcut, -⟩ := hdiv least [.integer 2, .integer (-1)] _ [2, -1] _
    nofun (by decide) hexact
  exact ⟨⟨n, _, hadd, hn⟩, ⟨m, _, hdiff, hm⟩, ⟨k, _, hnegation, hk⟩, ⟨i, _, _, hforth, hback⟩,
    ⟨j, _, _, hflat, hnested⟩, ⟨_, hquotient⟩, _, _, hquotient', hcut (by decide)⟩

end ConsLisp

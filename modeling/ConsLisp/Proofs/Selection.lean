import ConsLisp.Frame.Containers
import ConsLisp.Proofs.Forms
import Mathlib.Data.List.Induction

/-!
# Paths into a cell

A path of halves leads from a cell down to one of its parts, as long as there are pairs on the way
(`Cell.at?`).  Applying `car` and `cdr` one after another to the value of an expression is to follow
such a path: the innermost form takes the first step.  Since a step only looks at the value before
it, everything that happens is the evaluation of the innermost expression, and the first step that
does not meet a pair decides how the whole fails.

`Cell.follow` takes the steps in the way of the forms, with their errors, and `settles_along` is the
induction that leads from the nested forms to it.
-/

namespace ConsLisp

/-- A step from a pair to one of its halves. -/
inductive Half
  | car
  | cdr
  deriving DecidableEq, Repr

namespace Half

/-- The operator that takes the step. -/
def operator : Half → Operator
  | car => .car
  | cdr => .cdr

/-- The half of a pair. -/
def of? : Half → Cell → Option Cell
  | car => Cell.car?
  | cdr => Cell.cdr?

/-- The half of a pair, with the error of the operator for what is not a pair. -/
def take (half : Half) : Cell → Except EvalError Cell
  | .pair a d => .ok (match half with | car => a | cdr => d)
  | .nil => .error (.emptyOperand half.operator)
  | other => .error (.notAPair (.builtin half.operator) other.kind)

theorem of?_eq_none_iff {half : Half} {c : Cell} : half.of? c = none ↔ c.isPair = false := by
  cases half <;> cases c <;> simp [of?, Cell.car?, Cell.cdr?, Cell.isPair]

theorem take_of_some {half : Half} {c sub : Cell} (h : half.of? c = some sub) :
    half.take c = .ok sub := by
  cases c with
  | pair a d => cases half <;> exact congrArg Except.ok (Option.some.inj h)
  | _ => cases half <;> cases h

theorem take_of_kind {half : Half} {c : Cell} (hnil : c ≠ .nil) (hpair : c.isPair = false) :
    half.take c = .error (.notAPair (.builtin half.operator) c.kind) := by
  cases c with
  | nil => exact absurd rfl hnil
  | pair a d => cases hpair
  | _ => rfl

end Half

namespace Cell

/-- The part of a cell that a path leads to, if there is a pair at each of its steps. -/
def at? (c : Cell) : List Half → Option Cell
  | [] => some c
  | half :: path => (half.of? c).bind fun sub => sub.at? path

/-- Follows a path in the way of the operators, which fail at the first step without a pair. -/
def follow (c : Cell) (path : List Half) : Except EvalError Cell :=
  path.foldlM (fun c half => half.take c) c

/-- The expression that takes the steps of a path from the value of `expr`, the first step being
innermost. -/
def along (expr : Cell) (path : List Half) : Cell :=
  path.foldl (fun expr half => half.operator.form [expr]) expr

theorem follow_cons {c sub : Cell} {half : Half} {path : List Half} (h : half.of? c = some sub) :
    c.follow (half :: path) = sub.follow path := by
  rw [follow, List.foldlM_cons, Half.take_of_some h]
  rfl

theorem follow_of_at? {c sub : Cell} {path : List Half} (h : c.at? path = some sub)
    (rest : List Half) : c.follow (path ++ rest) = sub.follow rest := by
  induction path generalizing c with
  | nil =>
    obtain rfl := Option.some.inj h
    rfl
  | cons half path ih =>
    obtain ⟨mid, hmid, hsub⟩ := Option.bind_eq_some_iff.1 h
    rw [List.cons_append, follow_cons hmid, ih hsub]

/-- A path that leads nowhere has a first step at which there is no pair. -/
theorem at?_cases (c : Cell) (path : List Half) :
    (∃ sub, c.at? path = some sub) ∨
      ∃ front half back sub, path = front ++ half :: back ∧ c.at? front = some sub ∧
        sub.isPair = false := by
  induction path generalizing c with
  | nil => exact .inl ⟨c, rfl⟩
  | cons half path ih =>
    cases hstep : half.of? c with
    | none => exact .inr ⟨[], half, path, c, rfl, rfl, Half.of?_eq_none_iff.1 hstep⟩
    | some next =>
      have hnext (path : List Half) : c.at? (half :: path) = next.at? path := by
        rw [at?, hstep, Option.bind_some]
      obtain ⟨sub, hsub⟩ | ⟨front, half', back, sub, rfl, hsub, hpair⟩ := ih next
      · exact .inl ⟨sub, (hnext path).trans hsub⟩
      · exact .inr ⟨half :: front, half', back, sub, rfl, (hnext front).trans hsub, hpair⟩

/-- Where there is no pair at a step of a path, the steps before it having been taken, the path
cannot be followed any further. -/
theorem follow_of_not_isPair {c sub : Cell} {front : List Half} (h : c.at? front = some sub)
    (half : Half) (back : List Half) {e : EvalError} (he : half.take sub = .error e) :
    c.follow (front ++ half :: back) = .error e := by
  rw [follow_of_at? h, follow, List.foldlM_cons, he]
  rfl

theorem along_ne_nil {expr : Cell} {path : List Half} (h : expr ≠ .nil ∨ path ≠ []) :
    expr.along path ≠ .nil := by
  induction path using List.reverseRecOn with
  | nil => exact h.resolve_right fun hne => hne rfl
  | append_singleton path half _ =>
    rw [along, List.foldl_append]
    exact fun h => nomatch h

end Cell

/-! ## Evaluation -/

variable {F : Type} [Frame F]

omit [Frame F] in
theorem Environment.SameButTrace.afterWords (env : Environment F) (n : Nat) :
    env.SameButTrace (Environment.afterWord^[n] env) := by
  induction n generalizing env with
  | zero => exact .refl env
  | succ n ih => exact (afterWord env).trans (ih env.afterWord)

/-- A step from the value of an expression fails if the expression does, and otherwise depends on
the value alone. -/
theorem settles_step (half : Half) {expr : Cell} {env last : Environment F}
    {result : Except EvalError Cell}
    (h : Settles (fun budget => (run budget).operand expr env.afterWord)
      (EvalM.ofExcept result last)) :
    Settles (fun budget => (run budget).operand (half.operator.form [expr]) env)
      (EvalM.ofExcept (result >>= half.take) last) := by
  have hform {o : Outcome (Environment F) Cell} {x : Nat → EvalM F Cell}
      (hrun : ∀ budget, ((run budget).builtin half.operator).run? [expr] = some (x budget)) :
      Settles (fun budget => x budget env.afterWord) o →
        Settles (fun budget => (run budget).operand (half.operator.form [expr]) env) o :=
    (settles_form_of_run? hrun).2
  cases result with
  | error e => cases half <;> exact hform (fun _ => rfl) h.bind_failure
  | ok value =>
    cases half <;> refine hform (fun _ => rfl) (h.bind ⟨0, fun _ _ => ?_⟩) <;> cases value <;> rfl

/-- The nested forms evaluate the innermost expression, and then follow the path. -/
theorem settles_along {expr c : Cell} {path : List Half} {env last : Environment F}
    (h : Yields expr (Environment.afterWord^[path.length] env) c last) :
    Settles (fun budget => (run budget).operand (expr.along path) env)
      (EvalM.ofExcept (c.follow path) last) := by
  induction path using List.reverseRecOn generalizing env with
  | nil => exact h
  | append_singleton path half ih =>
    rw [List.length_append, List.length_singleton, Function.iterate_succ_apply] at h
    have hstep := settles_step half (ih h)
    rw [Cell.along, List.foldl_append, Cell.follow, List.foldlM_append]
    simp only [List.foldlM_cons, List.foldlM_nil, bind_pure]
    exact hstep

/-- **Nested selections follow a path.**  Let an expression evaluate to a cell, and let the steps of
a path be taken from there by nested forms.  The innermost expression is evaluated once, after the
words of the forms, and nothing else happens: `last` is what it leaves.  If there is a pair at each
step, the value is the part of the cell that the path leads to.  Otherwise the form of the first
step without a pair fails, and its error says whether there was nil or a cell of another kind. -/
theorem nested_selections_follow_path [LawfulFrame F] {expr c : Cell} {path : List Half}
    {env after : Environment F} (hexpr : Yields expr env c after)
    (hne : expr ≠ .nil ∨ path ≠ []) :
    ((∃ sub, c.at? path = some sub) ∨
      ∃ front half back sub, path = front ++ half :: back ∧ c.at? front = some sub ∧
        sub.isPair = false) ∧
    ∃ last, after.SameButTrace last ∧
      Yields expr (Environment.afterWord^[path.length] env) c last ∧
      (∀ sub, c.at? path = some sub →
        Settles (fun budget => evaluate budget (expr.along path) env) (.value sub last)) ∧
      ∀ front half back sub, path = front ++ half :: back → c.at? front = some sub →
        (sub = .nil → Settles (fun budget => evaluate budget (expr.along path) env)
          (.failure (.emptyOperand half.operator) last)) ∧
        (sub ≠ .nil → sub.isPair = false →
          Settles (fun budget => evaluate budget (expr.along path) env)
            (.failure (.notAPair (.builtin half.operator) sub.kind) last)) := by
  obtain ⟨last, hlast, hsame⟩ := hexpr.of_sameButTrace (.afterWords env path.length)
  have hsettles : Settles (fun budget => evaluate budget (expr.along path) env)
      (EvalM.ofExcept (c.follow path) last) := by
    simp only [evaluate, Evaluator.evaluate_of_ne_nil _ (Cell.along_ne_nil hne)]
    exact settles_along hlast
  refine ⟨c.at?_cases path, last, hsame, hlast, fun sub hsub => ?_, ?_⟩
  · have hfollow : c.follow path = .ok sub := by
      rw [← List.append_nil path]
      exact Cell.follow_of_at? hsub []
    rwa [hfollow] at hsettles
  · rintro front half back sub rfl hsub
    refine ⟨fun hnil => ?_, fun hnil hpair => ?_⟩
    · subst hnil
      rwa [Cell.follow_of_not_isPair hsub half back rfl] at hsettles
    · rwa [Cell.follow_of_not_isPair hsub half back (Half.take_of_kind hnil hpair)] at hsettles

/-- The halves of a list that is made after something was printed: one that is there, one of nil and
one of an integer. -/
theorem nested_selections_follow_path_after_print :
    let env : Environment OrderedFrame := Environment.fresh .unlimited
    let expr := Operator.cons.form [Operator.print.form [.symbol "cdr"],
      Operator.cons.form [.integer 1, .integer 2]]
    let ends (path : List Half) (o : Environment OrderedFrame → Outcome _ Cell) :=
      ∃ after last, Yields expr env (.pair .nil (.pair (.integer 1) (.integer 2))) after ∧
        after.SameButTrace last ∧
        Settles (fun budget => evaluate budget (expr.along path) env) (o last)
    ends [.cdr, .car] (.value (.integer 1)) ∧
      ends [.car, .cdr, .car] (.failure (.emptyOperand .cdr)) ∧
      ends [.cdr, .cdr, .car] (.failure (.notAPair (.builtin .car) .integer)) := by
  intro env expr ends
  have hexpr : Yields expr env (.pair .nil (.pair (.integer 1) (.integer 2))) _ :=
    .of_eq (rfl : (run 5).operand expr env = _)
  have hpath (path : List Half) (hne : path ≠ []) := nested_selections_follow_path hexpr (.inr hne)
  refine ⟨?_, ?_, ?_⟩
  · obtain ⟨-, last, hsame, -, hvalue, -⟩ := hpath [.cdr, .car] (List.cons_ne_nil _ _)
    exact ⟨_, last, hexpr, hsame, hvalue _ rfl⟩
  · obtain ⟨-, last, hsame, -, -, hfails⟩ := hpath [.car, .cdr, .car] (List.cons_ne_nil _ _)
    exact ⟨_, last, hexpr, hsame, (hfails [.car] .cdr [.car] .nil rfl rfl).1 rfl⟩
  · obtain ⟨-, last, hsame, -, -, hfails⟩ := hpath [.cdr, .cdr, .car] (List.cons_ne_nil _ _)
    exact ⟨_, last, hexpr, hsame,
      (hfails [.cdr, .cdr] .car [] (.integer 2) rfl rfl).2 (fun h => nomatch h) rfl⟩

end ConsLisp

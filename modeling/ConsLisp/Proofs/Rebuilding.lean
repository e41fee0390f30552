import ConsLisp.Frame.Containers
import ConsLisp.Proofs.Forms

/-!
# Rebuilding data

Since code is data, every cell can be made again by a program: `rebuild c` puts pairs together by
`cons`, from the bottom upwards, and quotes whatever is not a pair.  The one thing that can get in
the way is the rule that an operator is never stored.  A cell whose pairs hold no operator
(`Cell.PairsStorable`) is rebuilt exactly, in any environment, and running what was rebuilt is
running the cell.  Any other cell is refused at its first pair that cannot be stored, and nothing
has happened.
-/

namespace ConsLisp

/-! ## Pairs of a cell -/

namespace Cell

/-- A cell that is reached from another one through the halves of pairs. -/
inductive Within : Cell → Cell → Prop
  | self {c} : Within c c
  | car {c car cdr} : Within c car → Within c (.pair car cdr)
  | cdr {c car cdr} : Within c cdr → Within c (.pair car cdr)

/-- No pair that is reached through pairs has an operator for one of its halves. -/
def PairsStorable (c : Cell) : Prop :=
  ∀ car cdr, (pair car cdr).Within c → car.kind ≠ .operator ∧ cdr.kind ≠ .operator

theorem pairsStorable_of_not_isPair {c : Cell} (h : c.isPair = false) : c.PairsStorable := by
  rintro car cdr hwithin
  cases hwithin <;> cases h

theorem pairsStorable_pair_iff {car cdr : Cell} : (pair car cdr).PairsStorable ↔
    (car.PairsStorable ∧ cdr.PairsStorable) ∧ car.kind ≠ .operator ∧ cdr.kind ≠ .operator := by
  constructor
  · intro h
    exact ⟨⟨fun a d hwithin => h a d (.car hwithin), fun a d hwithin => h a d (.cdr hwithin)⟩,
      h car cdr .self⟩
  · rintro ⟨⟨hcar, hcdr⟩, hhalves⟩ a d hwithin
    cases hwithin with
    | self => exact hhalves
    | car hwithin => exact hcar a d hwithin
    | cdr hwithin => exact hcdr a d hwithin

instance decidablePairsStorable : (c : Cell) → Decidable c.PairsStorable
  | .pair car cdr =>
    have := decidablePairsStorable car
    have := decidablePairsStorable cdr
    decidable_of_iff _ pairsStorable_pair_iff.symm
  | .nil | .integer _ | .double _ | .symbol _ | .operator _ | .procedure _ _ =>
    .isTrue (pairsStorable_of_not_isPair rfl)

theorem checkStorable_of_operator {form : Form} {value : Cell} (h : value.kind = .operator) :
    value.checkStorable form =
      .error (.typeMismatch form .storableValue (.value .operator)) := by
  cases value with
  | operator op => rfl
  | _ => cases h

end Cell

/-! ## The expression -/

/-- The expression that makes a cell from quotations by `cons`. -/
def rebuild : Cell → Cell
  | .pair car cdr => Operator.cons.form [rebuild car, rebuild cdr]
  | c => quotation c

theorem rebuild_of_not_isPair {c : Cell} (h : c.isPair = false) : rebuild c = quotation c := by
  cases c with
  | pair car cdr => cases h
  | _ => rfl

variable {F : Type} [Frame F]

/-- The expression is a form, also for nil. -/
theorem evaluate_rebuild (budget : Nat) (c : Cell) :
    evaluate (F := F) budget (rebuild c) = (run budget).operand (rebuild c) := by
  cases c <;> rfl

theorem yields_quotation (c : Cell) (env : Environment F) :
    ∃ last, env.SameButTrace last ∧ Yields (quotation c) env c last := by
  obtain ⟨last, hrun, hlast⟩ := quietly_quotation 0 c env
  exact ⟨last, hlast, .of_eq hrun⟩

/-- How the two values of a pair are put together. -/
theorem settles_cons {carExpr cdrExpr car cdr : Cell} {env mid last : Environment F}
    (hcar : Yields carExpr env.afterWord car mid) (hcdr : Yields cdrExpr mid cdr last) :
    Settles (fun budget => evaluate budget (Operator.cons.form [carExpr, cdrExpr]) env)
      ((do
        car.checkStorable (.builtin .cons)
        cdr.checkStorable (.builtin .cons)
        return .pair car cdr : EvalM F Cell) last) := by
  refine (settles_form_of_run? fun _ => rfl).2 (hcar.bind (hcdr.bind ?_))
  exact ⟨0, fun _ _ => rfl⟩

/-- A cell is rebuilt as it was, if the rules of storage permit. -/
theorem yields_rebuild {c : Cell} (h : c.PairsStorable) (env : Environment F) :
    ∃ last, env.SameButTrace last ∧ Yields (rebuild c) env c last := by
  induction c generalizing env with
  | pair car cdr ihcar ihcdr =>
    obtain ⟨⟨hcar, hcdr⟩, hkind, hkind'⟩ := Cell.pairsStorable_pair_iff.1 h
    obtain ⟨mid, hmid, hyields⟩ := ihcar hcar env.afterWord
    obtain ⟨last, hlast, hyields'⟩ := ihcdr hcdr mid
    refine ⟨last, ((Environment.SameButTrace.afterWord env).trans hmid).trans hlast, ?_⟩
    have hpair := settles_cons hyields hyields'
    rwa [EvalM.check_of_ok (Cell.checkStorable_of_kind hkind),
      EvalM.check_of_ok (Cell.checkStorable_of_kind hkind')] at hpair
  | _ =>
    rw [rebuild_of_not_isPair rfl]
    exact yields_quotation _ env

/-- A cell that cannot be stored is refused. -/
theorem fails_rebuild {c : Cell} (h : ¬ c.PairsStorable) (env : Environment F) :
    ∃ last, env.SameButTrace last ∧
      Fails (rebuild c) env (.typeMismatch (.builtin .cons) .storableValue (.value .operator))
        last := by
  induction c generalizing env with
  | pair car cdr ihcar ihcdr =>
    have hword := Environment.SameButTrace.afterWord env
    by_cases hcar : car.PairsStorable
    · obtain ⟨mid, hmid, hyields⟩ := yields_rebuild hcar env.afterWord
      by_cases hcdr : cdr.PairsStorable
      · -- both halves can be rebuilt, so one of them is an operator itself
        obtain ⟨last, hlast, hyields'⟩ := yields_rebuild hcdr mid
        refine ⟨last, (hword.trans hmid).trans hlast, ?_⟩
        have hpair := settles_cons hyields hyields'
        by_cases hkind : car.kind = .operator
        · rwa [EvalM.check_of_error (Cell.checkStorable_of_operator hkind)] at hpair
        · have hkind' : cdr.kind = .operator := by
            by_contra hkind'
            exact h (Cell.pairsStorable_pair_iff.2 ⟨⟨hcar, hcdr⟩, hkind, hkind'⟩)
          rwa [EvalM.check_of_ok (Cell.checkStorable_of_kind hkind),
            EvalM.check_of_error (Cell.checkStorable_of_operator hkind')] at hpair
      · obtain ⟨last, hlast, hfails⟩ := ihcdr hcdr mid
        refine ⟨last, (hword.trans hmid).trans hlast, ?_⟩
        exact (settles_form_of_run? fun _ => rfl).2 (hyields.bind hfails.bind_failure)
    · obtain ⟨last, hlast, hfails⟩ := ihcar hcar env.afterWord
      refine ⟨last, hword.trans hlast, ?_⟩
      exact (settles_form_of_run? fun _ => rfl).2 hfails.bind_failure
  | _ => exact absurd (Cell.pairsStorable_of_not_isPair rfl) h

/-- **Every datum can be rebuilt and then run.**  A cell whose pairs can be stored is the value of
the expression that rebuilds it, nothing but a trace shows that it was evaluated, and to evaluate
what it yields is to evaluate the cell, however that ends.  If one of the pairs has an operator for a half,
the expression fails at the storage of this pair and changes nothing. -/
theorem data_can_be_rebuilt_and_run [LawfulFrame F] (c : Cell) (env : Environment F) :
    (c.PairsStorable →
      (∃ last, env.SameButTrace last ∧
        Settles (fun budget => evaluate budget (rebuild c) env) (.value c last)) ∧
      EndTogether Environment.SameButTrace
        (fun budget => evaluate budget (Operator.eval.form [rebuild c]) env)
        fun budget => evaluate budget c env) ∧
    (¬ c.PairsStorable → ∃ last, env.SameButTrace last ∧
      Settles (fun budget => evaluate budget (rebuild c) env)
        (.failure (.typeMismatch (.builtin .cons) .storableValue (.value .operator)) last)) := by
  simp only [evaluate_rebuild]
  refine ⟨fun h => ⟨yields_rebuild h env, ?_⟩, fun h => fails_rebuild h env⟩
  obtain ⟨mid, hmid, hyields⟩ := yields_rebuild h env.afterWord
  obtain ⟨o, o', ho, ho', hsame⟩ := (uniform_evaluate c).endTogether
    ((Environment.SameButTrace.afterWord env).trans hmid).symm
  exact ⟨o, o', (settles_form_of_run? fun _ => rfl).2 (hyields.bind ho), ho', hsame⟩

/-- A call is rebuilt and run in a scope that binds a reserved word, and a pair with an operator is
refused. -/
theorem data_can_be_rebuilt_and_run_in_scope :
    let env : Environment OrderedFrame :=
      (Environment.fresh .unlimited).push (Frame.ofList [("cons", .nil), ("x", .integer 5)])
    let call : Cell := Operator.add.form [.symbol "x", .integer 1]
    let stored : Cell := .pair (.integer 1) (.operator .add)
    (∃ last, env.SameButTrace last ∧
        Settles (fun budget => evaluate budget (rebuild call) env) (.value call last)) ∧
      (EndTogether Environment.SameButTrace
          (fun budget => evaluate budget (Operator.eval.form [rebuild call]) env)
          (fun budget => evaluate budget call env) ∧
        ∃ last, Settles (fun budget => evaluate budget (Operator.eval.form [rebuild call]) env)
          (.value (.integer 6) last)) ∧
      ∃ last, env.SameButTrace last ∧ Settles (fun budget => evaluate budget (rebuild stored) env)
        (.failure (.typeMismatch (.builtin .cons) .storableValue (.value .operator)) last) := by
  intro env call stored
  have hcall : call.PairsStorable := by decide
  have hstored : ¬ stored.PairsStorable := by decide
  obtain ⟨hyields, htogether⟩ := (data_can_be_rebuilt_and_run call env).1 hcall
  obtain ⟨o, o', ho, ho', hsame⟩ := id htogether
  obtain ⟨final, hrun⟩ : ∃ final, evaluate 3 call env = .value (.integer 6) final := ⟨_, rfl⟩
  obtain rfl := ho'.unique ((steady_evaluate call env).settles_of_value hrun)
  cases hsame with
  | value _ _ =>
    exact ⟨hyields, ⟨htogether, _, ho⟩, (data_can_be_rebuilt_and_run stored env).2 hstored⟩

end ConsLisp

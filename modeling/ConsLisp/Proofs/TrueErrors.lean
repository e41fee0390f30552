import ConsLisp.Frame.Containers
import ConsLisp.Proofs.Calling

/-!
# Errors tell the truth

An error reports what was found where it arose, which may be deep inside the run that it ends.
What it says of operands, formals and values is settled there (`EvalError.Justified`), but an unbound
symbol and a full sink are matters of the environment, and it is the environment in the end that
whoever sees the error will look at.  In between nothing is defined and nothing is printed, only
frames are taken off, and these can take bindings away but add none
(`Environment.lookup?_pop_eq_none`).  So what an error says is still true when it comes out
(`EvalError.TrueOf`).
-/

namespace ConsLisp

variable {F : Type} [Frame F]

/-- What an error says, of what was found and of the environment that is left. -/
def EvalError.TrueOf (env : Environment F) : EvalError → Prop
  | unboundSymbol name => Operator.isReserved name = false ∧ env.lookup? name = none
  | reservedName name => Operator.isReserved name = true
  | duplicateDefinition name => Operator.isReserved name = false
  | arityMismatch _ expected found => expected.accepts found = false
  | notAPair _ found => found ≠ .nil ∧ found ≠ .pair
  | typeMismatch _ .number found => found ≠ .value .integer ∧ found ≠ .value .double
  | typeMismatch _ .storableValue found => found = .value .operator
  | output reason => reason = env.output.refusal ∧ env.output.room = some 0
  | _ => True

/-- What a check finds does not depend on the environment. -/
theorem EvalError.Justified.trueOf {e : EvalError} (h : e.Justified) (env : Environment F) :
    e.TrueOf env := by
  cases e with
  | unboundSymbol name => exact h.elim
  | output reason => exact h.elim
  | typeMismatch form expected found => cases expected <;> exact h
  | _ => exact h

/-- A sink that does not take all of a text is full afterwards. -/
theorem Sink.room_of_write_eq_false (sink : Sink) (text : String)
    (h : (sink.write text).1 = false) : (sink.write text).2.room = some 0 := by
  unfold write at h ⊢
  cases hroom : sink.room with
  | none =>
    rw [hroom] at h
    cases h
  | some room =>
    rw [hroom] at h
    dsimp only at h ⊢
    split at h
    · cases h
    · next hsize => rw [if_neg hsize]

/-! ## Leaving a frame -/

/-- What stands for nothing in a scope stands for nothing outside of it. -/
theorem Environment.lookup?_pop_eq_none {env : Environment F} {name : String}
    (h : env.lookup? name = none) : env.pop.lookup? name = none := by
  obtain ⟨hlocals, hglobals⟩ := Option.or_eq_none_iff.1 h
  refine Option.or_eq_none_iff.2 ⟨?_, hglobals⟩
  refine List.findSome?_eq_none_iff.2 fun frame hframe => ?_
  exact List.findSome?_eq_none_iff.1 hlocals frame (List.mem_of_mem_tail hframe)

theorem EvalError.TrueOf.pop {env : Environment F} {e : EvalError} (h : e.TrueOf env) :
    e.TrueOf env.pop := by
  cases e with
  | unboundSymbol name => exact ⟨h.1, Environment.lookup?_pop_eq_none h.2⟩
  | typeMismatch form expected found => cases expected <;> exact h
  | _ => exact h

/-! ## Runs -/

/-- The first action fails only with errors that are true of the environment it leaves. -/
def FailsTruly : ActionRel F F := fun _ Q x _ =>
  ∀ env : Environment F, (x env).Ends (fun a _ => Q a) fun e last => e.TrueOf last

namespace FailsTruly

theorem bind {A B : Type} {Q : A → Prop} {Q' : B → Prop} {x y : EvalM F A} {f g : A → EvalM F B}
    (h : FailsTruly Q x y) (hf : ∀ a, Q a → FailsTruly Q' (f a) (g a)) :
    FailsTruly Q' (x >>= f) (y >>= g) := by
  intro env
  have hends := h env
  rw [EvalM.bind_apply]
  cases hx : x env with
  | value a mid =>
    rw [hx] at hends
    exact hf a hends mid
  | failure e last =>
    rw [hx] at hends
    exact hends
  | exhausted => trivial

theorem sequenced : Sequenced (FailsTruly (F := F)) where
  pure_rel hQ _ := hQ
  bind_rel := bind
  fail_rel he env := he.trueOf env
  exhausted_rel _ := trivial

theorem lookup {name : String} (hname : Operator.isReserved name = false) :
    FailsTruly (F := F) (fun _ => True) (EvalM.lookup name) (EvalM.lookup name) := by
  intro env
  unfold EvalM.lookup
  cases hlookup : env.lookup? name with
  | some v => trivial
  | none => exact ⟨hname, hlookup⟩

theorem write (text : String) :
    FailsTruly (F := F) (fun _ => True) (EvalM.write text) (EvalM.write text) := by
  intro env
  have hfull := env.output.room_of_write_eq_false text
  unfold EvalM.write Environment.write
  generalize env.output.write text = answer at hfull
  obtain ⟨taken, sink⟩ := answer
  cases taken with
  | true => trivial
  | false => exact ⟨rfl, hfull rfl⟩

theorem define {name : String} (hname : Operator.isReserved name = false) (value : Cell) :
    FailsTruly (F := F) (fun _ => True) (EvalM.define name value) (EvalM.define name value) := by
  intro env
  unfold EvalM.define
  obtain ⟨globals, -, hdef⟩ | ⟨-, hdef⟩ := env.define?_cases value hname
  · rw [hdef]
    trivial
  · rw [hdef]
    exact hname

theorem inFrame {A : Type} {Q : A → Prop} {x y : EvalM F A} {bindings : List (String × Cell)}
    (h : FailsTruly Q x y) :
    FailsTruly Q (EvalM.inFrame bindings x) (EvalM.inFrame bindings y) := by
  intro env
  have hends := h (env.enter bindings)
  rw [Environment.inFrame_apply]
  cases hx : x (env.enter bindings) with
  | value a last =>
    rw [hx] at hends
    exact hends
  | failure e last =>
    rw [hx] at hends
    exact EvalError.TrueOf.pop hends
  | exhausted => trivial

theorem closed : Closed (fun _ => True) (FailsTruly (F := F)) where
  toSequenced := sequenced
  note_rel _ _ := trivial
  lookup_rel := lookup
  write_rel := write
  defineAs_rel hname h := sequenced.defineAs_rel trivial (fun _ _ _ => trivial)
    (fun _ hname value _ => define hname value) hname h
  inFrame_rel _ := inFrame

end FailsTruly

/-- **Errors tell the truth.**  However deep inside a run an error arises, what it says is true when
the run is over: an unbound symbol is not reserved and still stands for nothing, and what is
reported of names, numbers of operands and kinds of values is as it says. -/
theorem errors_tell_the_truth {budget : Nat} {expr : Cell} {env last : Environment F} {e : EvalError}
    (h : evaluate budget expr env = .failure e last) : e.TrueOf last := by
  have hexpr : Passing (fun _ => True) expr := .inl trivial
  have hends := FailsTruly.closed.evaluate_run .all budget hexpr env
  rwa [h] at hends

/-- The symbol is missed inside a frame, after a definition that stays. -/
theorem errors_tell_the_truth_after_definition :
    let env : Environment OrderedFrame := Environment.fresh .unlimited
    let body : List Cell :=
      [Operator.define.form [.symbol "y", .symbol "x"], Operator.add.form [.symbol "y", .symbol "z"]]
    ∃ last, evaluate 5 (letForm [(.symbol "x", .integer 1)] body) env =
        .failure (.unboundSymbol "z") last ∧
      last.lookup? "y" = some (.integer 1) ∧ last.lookup? "x" = none ∧
      (EvalError.unboundSymbol "z").TrueOf last := by
  intro env body
  obtain ⟨last, hrun, hy, hx⟩ : ∃ last,
      evaluate 5 (letForm [(.symbol "x", .integer 1)] body) env =
        .failure (.unboundSymbol "z") last ∧
      last.lookup? "y" = some (.integer 1) ∧ last.lookup? "x" = none := ⟨_, rfl, rfl, rfl⟩
  exact ⟨last, hrun, hy, hx, errors_tell_the_truth hrun⟩

end ConsLisp

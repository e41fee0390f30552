import ConsLisp.Proofs.Growth
import ConsLisp.Proofs.Related

/-!
# The end of a run

The budget says how long a run is waited for, not how it ends: a run that ends with some budget ends
in the same way with every larger one (`Prolongs.run`).  So the outcomes of a run, one for each
budget, become constant (`Steady.exists_settles`), and what they become is how the run ends, or
`Outcome.exhausted` if it goes on for ever.  `EndTogether` compares two runs by that alone.  They
may spend different budgets, and neither of them need end.
-/

namespace ConsLisp

variable {S T A : Type}

/-! ## Outcomes by budget -/

/-- A larger budget changes an outcome only if it was exhausted. -/
def Steady (x : Nat → Outcome S A) : Prop :=
  ∀ ⦃budget budget' : Nat⦄, budget ≤ budget' → x budget ≠ .exhausted → x budget' = x budget

/-- With enough budget the outcome is always `o`. -/
def Settles (x : Nat → Outcome S A) (o : Outcome S A) : Prop :=
  ∃ least, ∀ budget, least ≤ budget → x budget = o

theorem Settles.unique {x : Nat → Outcome S A} {o o' : Outcome S A} (h : Settles x o)
    (h' : Settles x o') : o = o' := by
  obtain ⟨least, h⟩ := h
  obtain ⟨least', h'⟩ := h'
  rw [← h (max least least') (Nat.le_max_left _ _), h' _ (Nat.le_max_right _ _)]

/-- What a task comes to is what it comes to with one unit of budget more. -/
theorem Settles.of_succ {x : Nat → Outcome S A} {o : Outcome S A}
    (h : Settles (fun budget => x (budget + 1)) o) : Settles x o := by
  obtain ⟨least, h⟩ := h
  refine ⟨least + 1, fun budget hle => ?_⟩
  obtain ⟨n, rfl⟩ : ∃ n, budget = n + 1 := ⟨budget - 1, by omega⟩
  exact h n (by omega)

section Sequencing

variable {F A B : Type} {x : Nat → EvalM F A} {f : Nat → A → EvalM F B}
  {env mid last : Environment F}

theorem Settles.bind {a : A} {o : Outcome (Environment F) B}
    (hx : Settles (fun budget => x budget env) (.value a mid))
    (hf : Settles (fun budget => f budget a mid) o) :
    Settles (fun budget => (x budget >>= f budget) env) o := by
  obtain ⟨least, hx⟩ := hx
  obtain ⟨least', hf⟩ := hf
  refine ⟨max least least', fun budget hle => ?_⟩
  exact (EvalM.bind_of_value (hx budget (by omega))).trans (hf budget (by omega))

theorem Settles.bind_failure {e : EvalError}
    (hx : Settles (fun budget => x budget env) (.failure e last)) :
    Settles (fun budget => (x budget >>= f budget) env) (.failure e last) := by
  obtain ⟨least, hx⟩ := hx
  exact ⟨least, fun budget hle => EvalM.bind_of_failure (hx budget hle)⟩

theorem Settles.bind_exhausted (hx : Settles (fun budget => x budget env) .exhausted) :
    Settles (fun budget => (x budget >>= f budget) env) .exhausted := by
  obtain ⟨least, hx⟩ := hx
  exact ⟨least, fun budget hle => EvalM.bind_of_exhausted (hx budget hle)⟩

theorem Settles.inFrame [Frame F] {bindings : List (String × Cell)}
    {o : Outcome (Environment F) A} (hx : Settles (fun budget => x budget (env.enter bindings)) o) :
    Settles (fun budget => EvalM.inFrame bindings (x budget) env) (o.mapState Environment.pop) := by
  obtain ⟨least, hx⟩ := hx
  refine ⟨least, fun budget hle => ?_⟩
  exact (Outcome.inFrame_eq_mapState _ _ _).trans (congrArg _ (hx budget hle))

end Sequencing

namespace Steady

variable {x : Nat → Outcome S A} (hx : Steady x)

include hx

theorem settles_of_eq {budget : Nat} {o : Outcome S A} (h : x budget = o) (ho : o ≠ .exhausted) :
    Settles x o := by
  refine ⟨budget, fun budget' hle => ?_⟩
  rw [hx hle (h ▸ ho), h]

theorem settles_of_value {budget : Nat} {a : A} {last : S} (h : x budget = .value a last) :
    Settles x (.value a last) :=
  hx.settles_of_eq h fun h => nomatch h

theorem settles_of_failure {budget : Nat} {e : EvalError} {last : S}
    (h : x budget = .failure e last) : Settles x (.failure e last) :=
  hx.settles_of_eq h fun h => nomatch h

/-- A run diverges if no budget is enough. -/
theorem settles_exhausted_iff : Settles x .exhausted ↔ ∀ budget, x budget = .exhausted := by
  constructor
  · rintro ⟨least, h⟩ budget
    refine Classical.byContradiction fun hne => hne ?_
    rw [← hx (Nat.le_max_left budget least) hne, h _ (Nat.le_max_right _ _)]
  · exact fun h => ⟨0, fun budget _ => h budget⟩

/-- Every run ends or diverges. -/
theorem exists_settles : ∃ o, Settles x o := by
  by_cases h : ∀ budget, x budget = .exhausted
  · exact ⟨.exhausted, hx.settles_exhausted_iff.2 h⟩
  · obtain ⟨budget, hne⟩ := Classical.not_forall.1 h
    exact ⟨x budget, hx.settles_of_eq rfl hne⟩

end Steady

/-- Both runs diverge, or both end in the same way, with the same value or error, and in related
states. -/
def EndTogether (related : S → T → Prop) (x : Nat → Outcome S A) (y : Nat → Outcome T A) : Prop :=
  ∃ o o', Settles x o ∧ Settles y o' ∧ Outcome.Same (fun _ => True) related o o'

/-- It is enough that runs end alike with all large budgets, one of them needing so much more than
the other. -/
theorem EndTogether.of_eventually {related : S → T → Prop} {x : Nat → Outcome S A}
    {y : Nat → Outcome T A} (hx : Steady x) (hy : Steady y) (least more more' : Nat)
    (h : ∀ budget, least ≤ budget →
      Outcome.Same (fun _ => True) related (x (budget + more)) (y (budget + more'))) :
    EndTogether related x y := by
  obtain ⟨o, ho⟩ := hx.exists_settles
  obtain ⟨o', ho'⟩ := hy.exists_settles
  refine ⟨o, o', ho, ho', ?_⟩
  obtain ⟨n, ho⟩ := ho
  obtain ⟨n', ho'⟩ := ho'
  have hsame := h (max least (max n n')) (Nat.le_max_left _ _)
  rwa [ho _ (by omega), ho' _ (by omega)] at hsame

/-- Computations that end together may be continued by computations that do. -/
theorem EndTogether.bind {F G B : Type} {related : Environment F → Environment G → Prop}
    {x : Nat → EvalM F A} {y : Nat → EvalM G A} {f : Nat → A → EvalM F B}
    {g : Nat → A → EvalM G B} {env : Environment F} {env' : Environment G}
    (h : EndTogether related (fun budget => x budget env) fun budget => y budget env')
    (hnext : ∀ a mid mid', related mid mid' →
      EndTogether related (fun budget => f budget a mid) fun budget => g budget a mid') :
    EndTogether related (fun budget => (x budget >>= f budget) env)
      fun budget => (y budget >>= g budget) env' := by
  obtain ⟨o, o', hx, hy, hsame⟩ := h
  cases hsame with
  | value _ hmid =>
    obtain ⟨last, last', hf, hg, hlast⟩ := hnext _ _ _ hmid
    exact ⟨last, last', hx.bind hf, hy.bind hg, hlast⟩
  | failure hlast => exact ⟨_, _, hx.bind_failure, hy.bind_failure, .failure hlast⟩
  | exhausted => exact ⟨_, _, hx.bind_exhausted, hy.bind_exhausted, .exhausted⟩

/-! ## Larger budgets -/

variable {F : Type}

/-- Where the first action ends, the second one ends in the same way. -/
def Prolongs : ActionRel F F := fun _ Q x y =>
  ∀ env : Environment F, x env ≠ .exhausted →
    y env = x env ∧ (x env).Ends (fun a _ => Q a) fun _ _ => True

namespace Prolongs

variable {A B : Type}

theorem bind {Q : A → Prop} {Q' : B → Prop} {x y : EvalM F A} {f g : A → EvalM F B}
    (h : Prolongs Q x y) (hf : ∀ a, Q a → Prolongs Q' (f a) (g a)) :
    Prolongs Q' (x >>= f) (y >>= g) := by
  intro env hne
  have hx : x env ≠ .exhausted := fun hx => hne (EvalM.bind_of_exhausted hx)
  obtain ⟨heq, hends⟩ := h env hx
  rw [EvalM.bind_apply] at hne ⊢
  rw [EvalM.bind_apply, heq]
  cases hxenv : x env with
  | value a mid =>
    rw [hxenv] at hne hends
    exact hf a hends mid hne
  | failure e last => exact ⟨rfl, trivial⟩
  | exhausted => exact absurd hxenv hx

theorem refl {Q : A → Prop} (hQ : ∀ a, Q a) (x : EvalM F A) : Prolongs Q x x := by
  intro env _
  refine ⟨rfl, ?_⟩
  cases x env with
  | value a last => exact hQ a
  | failure e last => trivial
  | exhausted => trivial

theorem sequenced : Sequenced (Prolongs (F := F)) where
  pure_rel hQ _ _ := ⟨rfl, hQ⟩
  bind_rel := bind
  fail_rel _ _ _ := ⟨rfl, trivial⟩
  exhausted_rel _ hne := absurd rfl hne

theorem steady {Q : A → Prop} {x : Nat → EvalM F A}
    (h : ∀ budget budget', budget ≤ budget' → Prolongs Q (x budget) (x budget'))
    (env : Environment F) : Steady fun budget => x budget env :=
  fun budget budget' hle hne => (h budget budget' hle env hne).1

variable [Frame F]

theorem inFrame {Q : A → Prop} {x y : EvalM F A} {bindings : List (String × Cell)}
    (h : Prolongs Q x y) : Prolongs Q (EvalM.inFrame bindings x) (EvalM.inFrame bindings y) := by
  intro env hne
  rw [Environment.inFrame_apply] at hne ⊢
  rw [Environment.inFrame_apply]
  have hx : x (env.enter bindings) ≠ .exhausted := by
    intro hx
    rw [hx] at hne
    exact hne rfl
  obtain ⟨heq, hends⟩ := h (env.enter bindings) hx
  rw [heq]
  cases hxenv : x (env.enter bindings) with
  | value a last =>
    rw [hxenv] at hends
    exact ⟨rfl, hends⟩
  | failure e last => exact ⟨rfl, trivial⟩
  | exhausted => exact absurd hxenv hx

theorem closed : Closed (fun _ => True) (Prolongs (F := F)) where
  toSequenced := sequenced
  note_rel _ := refl (fun _ => trivial) _
  lookup_rel _ := refl (fun _ => trivial) _
  write_rel _ := refl (fun _ => trivial) _
  defineAs_rel hname h := sequenced.defineAs_rel trivial
    (fun _ _ => refl (fun _ => trivial) _) (fun _ _ _ _ => refl (fun _ => trivial) _) hname h
  inFrame_rel _ := inFrame

/-- A run with a larger budget goes on where the one with the smaller budget gives up. -/
theorem run {budget budget' : Nat} (hle : budget ≤ budget') :
    ∀ task : Task, task.In (fun _ => True) →
      Prolongs (Passing fun _ => True) (ConsLisp.run (F := F) budget task)
        (ConsLisp.run budget' task) := by
  induction budget generalizing budget' with
  | zero => exact fun _ _ _ hne => absurd rfl hne
  | succ budget ih =>
    cases budget' with
    | zero => exact absurd hle (Nat.not_succ_le_zero budget)
    | succ budget' => exact closed.step .all (ih (Nat.le_of_succ_le_succ hle))

end Prolongs

/-! ## Runs are steady -/

variable [Frame F]

theorem steady_operand (expr : Cell) (env : Environment F) :
    Steady fun budget => (run budget).operand expr env :=
  Prolongs.steady (fun _ _ hle => Prolongs.run hle (.operand expr) (.inl trivial)) env

theorem steady_evaluate (expr : Cell) (env : Environment F) :
    Steady fun budget => evaluate budget expr env :=
  Prolongs.steady (fun _ _ hle => Prolongs.closed.evaluate (Prolongs.run hle) (.inl trivial)) env

theorem steady_call (callee args : Cell) (env : Environment F) :
    Steady fun budget => (run budget).call callee args env :=
  Prolongs.steady
    (fun _ _ hle => Prolongs.closed.call .all (Prolongs.run hle) (.inl trivial) trivial) env

end ConsLisp

import ConsLisp.Proofs.Growth
import ConsLisp.Proofs.Related

/-!
# Watching a run

A statement about every moment of a run is stated as an equation.  `watchedRun watch` carries out
tasks as `run` does but gives up where a task, a value or an environment is not as `watch` wants, so
if it ends like `run` then nothing was amiss when any task, however deeply nested, began or ended.
`Closed.run_watched` is `Closed.run` with a watched run on the right.
-/

namespace ConsLisp

variable {F G : Type}

/-- What to look at whenever a task begins and whenever it ends. -/
structure Watch (F : Type) where
  onTask : Task → Environment F → Prop
  onValue : Cell → Environment F → Prop
  onFailure : EvalError → Environment F → Prop

namespace Watch

/-- Looks at the environment only. -/
def always (p : Environment F → Prop) : Watch F :=
  ⟨fun _ => p, fun _ => p, fun _ => p⟩

open Classical in
/-- Carries out the action of a task under a watch. -/
noncomputable def during (watch : Watch F) (task : Task) (action : EvalM F Cell) : EvalM F Cell :=
  fun env =>
    if watch.onTask task env ∧ (action env).Ends watch.onValue watch.onFailure then action env
    else .exhausted

theorem during_apply {watch : Watch F} {task : Task} {action : EvalM F Cell} {env : Environment F}
    (htask : watch.onTask task env) (hends : (action env).Ends watch.onValue watch.onFailure) :
    watch.during task action env = action env :=
  if_pos ⟨htask, hends⟩

end Watch

variable [Frame F] [Frame G]

/-- A run that is watched at the beginning and at the end of every task. -/
noncomputable def watchedRun (watch : Watch F) : Nat → Evaluator F
  | 0 => fun _ => EvalM.exhausted
  | budget + 1 => fun task => watch.during task (Evaluator.step (watchedRun watch budget) task)

/-- Tasks stay related when the second one is watched, if what they do meets the watch. -/
theorem Closed.run_watched {P : Cell → Prop} {R : ActionRel F G} (hR : Closed P R)
    (hP : Hereditary P) {watch : Watch G}
    (hwatch : ∀ (task : Task) (x : EvalM F Cell) (y : EvalM G Cell), task.In P →
      R (Passing P) x y → R (Passing P) x (watch.during task y))
    (budget : Nat) : ∀ task : Task, task.In P →
      R (Passing P) (ConsLisp.run budget task) (watchedRun watch budget task) := by
  induction budget with
  | zero => exact fun _ _ => hR.exhausted_rel
  | succ budget ih => exact fun task h => hwatch task _ _ h (hR.step hP ih task h)

end ConsLisp

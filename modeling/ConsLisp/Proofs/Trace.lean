import ConsLisp.Proofs.Simulation

/-!
# Runs without their trace

At the level of traces the record says of every expression that its evaluation began, so two ways to
write the same computation can hardly leave the same record.  At the level of debugging they can:
`Environment.SameButTrace` relates environments that differ in what only a trace shows.  It is a
simulation, so evaluating more expressions than necessary, as long as they do nothing, is not
noticed by anything that comes after.
-/

namespace ConsLisp

namespace Environment

variable {F : Type}

/-- The events that a reader at the level of debugging sees. -/
def debugEvents (env : Environment F) : List Event :=
  env.events.toList.filter (·.shownAt .debug)

theorem debugEvents_record (env : Environment F) (event : Event) :
    (env.record event).debugEvents =
      env.debugEvents ++ if event.shownAt .debug then [event] else [] := by
  simp only [debugEvents, record, Array.toList_push, List.filter_append]
  cases h : event.shownAt .debug <;> simp [h]

/-- The same environment, up to which evaluations are on record. -/
structure SameButTrace (env env' : Environment F) : Prop where
  globals_eq : env.globals = env'.globals
  locals_eq : env.locals = env'.locals
  output_eq : env.output = env'.output
  debugEvents_eq : env.debugEvents = env'.debugEvents

namespace SameButTrace

variable {env env' env'' : Environment F}

theorem refl (env : Environment F) : env.SameButTrace env :=
  ⟨rfl, rfl, rfl, rfl⟩

theorem symm (h : env.SameButTrace env') : env'.SameButTrace env :=
  ⟨h.globals_eq.symm, h.locals_eq.symm, h.output_eq.symm, h.debugEvents_eq.symm⟩

theorem trans (h : env.SameButTrace env') (h' : env'.SameButTrace env'') :
    env.SameButTrace env'' :=
  ⟨h.globals_eq.trans h'.globals_eq, h.locals_eq.trans h'.locals_eq,
    h.output_eq.trans h'.output_eq, h.debugEvents_eq.trans h'.debugEvents_eq⟩

/-- Only a trace shows that an evaluation began. -/
theorem record_evaluate (env : Environment F) (kind : Kind) (depth : Nat) :
    env.SameButTrace (env.record (.evaluate kind depth)) where
  globals_eq := rfl
  locals_eq := rfl
  output_eq := rfl
  debugEvents_eq := by
    rw [debugEvents_record]
    exact (List.append_nil _).symm

theorem depth_eq (h : env.SameButTrace env') : env.depth = env'.depth := by
  rw [depth, depth, h.locals_eq]

theorem record (h : env.SameButTrace env') (event : Event) :
    (env.record event).SameButTrace (env'.record event) where
  globals_eq := h.globals_eq
  locals_eq := h.locals_eq
  output_eq := h.output_eq
  debugEvents_eq := by rw [debugEvents_record, debugEvents_record, h.debugEvents_eq]

theorem record_depth (h : env.SameButTrace env') (event : Nat → Event) :
    (env.record (event env.depth)).SameButTrace (env'.record (event env'.depth)) := by
  rw [h.depth_eq]
  exact h.record _

theorem with_globals (h : env.SameButTrace env') (globals : F) :
    { env with globals }.SameButTrace { env' with globals } :=
  ⟨rfl, h.locals_eq, h.output_eq, h.debugEvents_eq⟩

theorem with_locals (h : env.SameButTrace env') {locals locals' : List F}
    (hlocals : locals = locals') :
    { env with locals }.SameButTrace { env' with locals := locals' } :=
  ⟨h.globals_eq, hlocals, h.output_eq, h.debugEvents_eq⟩

theorem pop (h : env.SameButTrace env') : env.pop.SameButTrace env'.pop :=
  (h.with_locals (congrArg List.tail h.locals_eq)).record_depth .poppedFrame

theorem push (h : env.SameButTrace env') (frame : F) :
    (env.push frame).SameButTrace (env'.push frame) :=
  (h.with_locals (congrArg (frame :: ·) h.locals_eq)).record_depth .pushedFrame

variable [Frame F]

theorem simulation : Environment.Simulation (SameButTrace (F := F)) where
  depth_eq := depth_eq
  lookup?_eq h _ := by rw [lookup?, lookup?, h.globals_eq, h.locals_eq]
  isGloballyBound_eq h _ := by rw [isGloballyBound, isGloballyBound, h.globals_eq]
  globalNames_eq h := by rw [globalNames, globalNames, h.globals_eq]
  record h event _ := h.record event
  write_eq h _ := by rw [write, write, h.output_eq]
  refusal_eq h := by rw [h.output_eq]
  write h text := ⟨h.globals_eq, h.locals_eq, by rw [write, write, h.output_eq], h.debugEvents_eq⟩
  define h name value globals globals' _ hinsert hinsert' := by
    rw [← h.globals_eq, hinsert] at hinsert'
    obtain rfl := Option.some.inj hinsert'
    exact (h.with_globals globals).record _
  push h _ := h.push _
  pop := pop

end SameButTrace

end Environment

/-! ## Actions that do nothing -/

/-- The action yields `a`, and only a trace shows that it took place. -/
def Quietly {F A : Type} (action : EvalM F A) (a : A) : Prop :=
  ∀ env : Environment F, ∃ last, action env = .value a last ∧ env.SameButTrace last

namespace Quietly

variable {F A B : Type}

theorem pure (a : A) : Quietly (Pure.pure a : EvalM F A) a :=
  fun env => ⟨env, rfl, .refl env⟩

theorem bind {action : EvalM F A} {a : A} {next : A → EvalM F B} {b : B} (h : Quietly action a)
    (hnext : Quietly (next a) b) : Quietly (action >>= next) b := by
  intro env
  obtain ⟨mid, haction, hmid⟩ := h env
  obtain ⟨last, hlast, hsame⟩ := hnext mid
  exact ⟨last, by rw [EvalM.bind_of_value haction, hlast], hmid.trans hsame⟩

theorem mapM {f : A → EvalM F B} {g : B → A} (h : ∀ b, Quietly (f (g b)) b) (bs : List B) :
    Quietly ((bs.map g).mapM f) bs := by
  induction bs with
  | nil => exact pure []
  | cons b bs ih =>
    rw [List.map_cons, List.mapM_cons]
    exact (h b).bind (ih.bind (pure (b :: bs)))

theorem noteEvaluate [Frame F] (expr : Cell) :
    Quietly (EvalM.noteEvaluate (F := F) expr) () :=
  fun env => ⟨_, rfl, .record_evaluate env expr.kind env.depth⟩

/-- It makes no difference how a value is come by, if it is done quietly. -/
theorem simulates {Q : A → Prop} {x y : EvalM F A} {a : A} (hx : Quietly x a) (hy : Quietly y a)
    (hQ : Q a) : Simulates (F := F) Environment.SameButTrace Q x y := by
  intro env env' hsame
  obtain ⟨last, hxenv, hlast⟩ := hx env
  obtain ⟨last', hyenv, hlast'⟩ := hy env'
  rw [hxenv, hyenv]
  exact .value hQ ((hlast.symm.trans hsame).trans hlast')

/-- What is done quietly beforehand is not noticed. -/
theorem bind_simulates {Q : B → Prop} {x : EvalM F B} {y : EvalM F A} {a : A} {next : A → EvalM F B}
    (hy : Quietly y a) (h : Simulates (F := F) Environment.SameButTrace Q x (next a)) :
    Simulates Environment.SameButTrace Q x (y >>= next) := by
  intro env env' hsame
  obtain ⟨mid, hyenv, hmid⟩ := hy env'
  rw [EvalM.bind_of_value hyenv]
  exact h env mid (hsame.trans hmid)

end Quietly

end ConsLisp

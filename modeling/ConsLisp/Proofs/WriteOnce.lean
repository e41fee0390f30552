import ConsLisp.Frame.Containers
import ConsLisp.Proofs.Calling
import ConsLisp.Proofs.Definition
import ConsLisp.Proofs.Ledger
import ConsLisp.Proofs.Points

/-!
# Definitions are write-once

What was defined in a session, and as what, is written in the ledgers of its frames
(`ConsLisp.Proofs.Ledger`).  A session with ledgers is the session without them
(`Environment.Logged.simulation`), and at every point of it the ledger of the global frame accounts
for everything that is bound (`Environment.WriteOnce`): each name was defined once, has the value it
was defined as, and is refused from then on.  So it also accounts for what a host is told of names
(`Environment.AnswersBy`).  The ledger only grows, from point to point and within runs
(`Session.Point.AccountedBy`).
-/

namespace ConsLisp

variable {F : Type} [Frame F]

namespace Environment

/-- The definitions that the record of events reports. -/
def reported (env : Environment F) : List (String × Kind) :=
  env.events.toList.filterMap Event.definition?

omit [Frame F] in
theorem reported_record (env : Environment F) (event : Event) :
    (env.record event).reported = env.reported ++ event.definition?.toList := by
  simp only [reported, record, Array.toList_push, List.filterMap_append]
  cases h : event.definition? <;> simp [h]

/-! ## What the ledger of the global frame accounts for -/

/-- `logged` is `env` with ledgers.  The definitions so far begin with `base`, are all that is bound,
and are what the record reports. -/
structure Logged (base : List (String × Cell)) (env : Environment F)
    (logged : Environment (Ledger F)) : Prop where
  plain_eq : logged.plain = env
  since : base <+: logged.made
  adds : Frame.Adds Frame.empty logged.made env.globals
  bindable : ∀ b ∈ logged.made, Operator.isReserved b.1 = false
  reported_eq : env.reported = logged.made.map fun b => (b.1, b.2.kind)

namespace Logged

variable {base : List (String × Cell)} {env : Environment F} {logged : Environment (Ledger F)}

theorem fresh (output : Sink) :
    Logged [] (Environment.fresh output : Environment F) (Environment.fresh output) :=
  ⟨rfl, List.prefix_rfl, rfl, by simp [made, Environment.fresh, Frame.empty], rfl⟩

/-- Only a definition makes a difference to what the ledger has to account for. -/
theorem of_globals_eq {env' : Environment F} {logged' : Environment (Ledger F)}
    (h : Logged base env logged) (hplain : logged'.plain = env')
    (hglobals : logged'.globals = logged.globals) (hreported : env'.reported = env.reported) :
    Logged base env' logged' := by
  have hmade : logged'.made = logged.made := congrArg Ledger.made hglobals
  have hframe : env'.globals = env.globals := by
    rw [← hplain, ← h.plain_eq]
    exact congrArg Ledger.frame hglobals
  exact ⟨hplain, hmade ▸ h.since, by rw [hmade, hframe]; exact h.adds, hmade ▸ h.bindable,
    by rw [hreported, hmade]; exact h.reported_eq⟩

theorem record (h : Logged base env logged) {event : Event} (hevent : event.definition? = none) :
    Logged base (env.record event) (logged.record event) := by
  refine h.of_globals_eq (congrArg (·.record event) h.plain_eq) rfl ?_
  rw [reported_record, hevent]
  exact List.append_nil _

theorem define (h : Logged base env logged) {name : String} {value : Cell} {globals : F}
    {globals' : Ledger F} (hname : Operator.isReserved name = false)
    (hinsert : Frame.insert? env.globals name value = some globals)
    (hinsert' : Frame.insert? logged.globals name value = some globals') :
    Logged base ({ env with globals }.record (.definedGlobal name value.kind))
      ({ logged with globals := globals' }.record (.definedGlobal name value.kind)) := by
  obtain ⟨hframe, hmade⟩ := Ledger.insert?_eq_some_iff.1 hinsert'
  have hframe : globals'.frame = globals := by
    obtain rfl := h.plain_eq
    exact Option.some.inj (hframe.symm.trans hinsert)
  have hmade : globals'.made = logged.made ++ [(name, value)] := hmade
  refine ⟨?_, ?_, ?_, ?_, ?_⟩
  · obtain rfl := h.plain_eq
    obtain rfl := hframe
    rfl
  · show base <+: globals'.made
    rw [hmade]
    exact h.since.trans (List.prefix_append _ _)
  · show Frame.Adds Frame.empty globals'.made globals
    rw [hmade]
    exact h.adds.append ⟨globals, hinsert, rfl⟩
  · show ∀ b ∈ globals'.made, _
    rw [hmade]
    intro b hb
    rcases List.mem_append.1 hb with hb | hb
    · exact h.bindable b hb
    · obtain rfl := List.mem_singleton.1 hb
      exact hname
  · show _ = globals'.made.map _
    rw [reported_record, hmade, List.map_append]
    exact congrArg (· ++ [(name, value.kind)]) h.reported_eq

/-- Nothing that is done with an environment depends on whether there are ledgers, and at every
moment they account for all definitions. -/
theorem simulation (base : List (String × Cell)) :
    Environment.Simulation (Logged (F := F) base) where
  depth_eq h := plain_simulation.depth_eq h.plain_eq
  lookup?_eq h := plain_simulation.lookup?_eq h.plain_eq
  isGloballyBound_eq h := plain_simulation.isGloballyBound_eq h.plain_eq
  globalNames_eq h := plain_simulation.globalNames_eq h.plain_eq
  record h _ hevent := h.record hevent
  write_eq h := plain_simulation.write_eq h.plain_eq
  refusal_eq h := plain_simulation.refusal_eq h.plain_eq
  write h text := h.of_globals_eq (plain_simulation.write h.plain_eq text) rfl rfl
  define h _ _ _ _ hname hinsert hinsert' := h.define hname hinsert hinsert'
  push h bindings := h.of_globals_eq (plain_simulation.push h.plain_eq bindings) rfl
    ((reported_record _ _).trans (List.append_nil _))
  pop h := h.of_globals_eq (plain_simulation.pop h.plain_eq) rfl
    ((reported_record _ _).trans (List.append_nil _))

end Logged

/-! ## Attempts to define -/

/-- Every way to define a name is refused because it is defined, and changes nothing but the
trace. -/
structure Refuses (env : Environment F) (name : String) : Prop where
  define (value : Cell) :
    EvalM.define name value env = .failure (.duplicateDefinition name) env
  dispatch (budget : Nat) (expr : Cell) :
    ConsLisp.dispatch (budget + 1) .define (.ofList [.symbol name, expr]) env =
      .failure (.duplicateDefinition name) env
  evaluate (budget : Nat) (expr : Cell) :
    ∃ last, ConsLisp.evaluate (budget + 2) (Operator.define.form [.symbol name, expr]) env =
        .failure (.duplicateDefinition name) last ∧ env.SameButTrace last

/-- The form refuses before it evaluates anything. -/
theorem dispatch_define_of_bound (self : Evaluator F) {env : Environment F} {name : String}
    (hname : Operator.isReserved name = false) (hbound : env.isGloballyBound name = true)
    (expr : Cell) :
    self.dispatch .define (.ofList [.symbol name, expr]) env =
      .failure (.duplicateDefinition name) env := by
  rw [self.dispatch_define, self.define_symbol hname]
  exact EvalM.defineAs_of_bound hbound

theorem refuses_of_bound [LawfulFrame F] {env : Environment F} {name : String}
    (hname : Operator.isReserved name = false) (hbound : env.isGloballyBound name = true) :
    env.Refuses name where
  define value := EvalM.define_of_bound hname hbound value
  dispatch budget expr := dispatch_define_of_bound (run budget) hname hbound expr
  evaluate budget expr := by
    let noted := (env.record (.evaluate .pair env.depth)).record (.evaluate .symbol env.depth)
    have hnoted : noted.isGloballyBound name = true := hbound
    refine ⟨noted, ?_, .record_form env⟩
    rw [evaluate_form, operand_form]
    exact dispatch_define_of_bound (run (budget + 1)) hname hnoted expr

/-- A free name can be defined, and then stands for its value. -/
theorem define_of_free [LawfulFrame F] {env : Environment F} {name : String}
    (hname : Operator.isReserved name = false) (hfree : env.isGloballyBound name = false)
    (value : Cell) :
    ∃ last, EvalM.define name value env = .value () last ∧
      Frame.find? last.globals name = some value ∧
      last.reported = env.reported ++ [(name, value.kind)] := by
  obtain ⟨last, hdefine, hlast⟩ := EvalM.define_of_free hname hfree value
  refine ⟨last, hdefine, (hlast.find?_eq name).trans (if_pos rfl), ?_⟩
  rw [reported, hlast.events_eq]
  exact reported_record env _

/-! ## The account -/

theorem lookup?_of_locals_eq_nil {env : Environment F} (hlocals : env.locals = []) (name : String) :
    env.lookup? name = Frame.find? env.globals name := by
  rw [lookup?, hlocals, List.findSome?_nil, Option.none_or]

/-- Everything that is bound was defined once, by one of the definitions `made`, and has its value
from there.  A name that is bound is refused from then on, and one that is free is not. -/
structure WriteOnce (env : Environment F) (made : List (String × Cell)) : Prop where
  nodup : (made.map Prod.fst).Nodup
  reported_eq : env.reported = made.map fun b => (b.1, b.2.kind)
  find?_eq_some_iff : ∀ name value,
    Frame.find? env.globals name = some value ↔ (name, value) ∈ made
  not_reserved : ∀ name, env.isGloballyBound name = true → Operator.isReserved name = false
  accepts : ∀ name value, Operator.isReserved name = false → env.isGloballyBound name = false →
    ∃ last, EvalM.define name value env = .value () last ∧
      Frame.find? last.globals name = some value ∧
      last.reported = env.reported ++ [(name, value.kind)]
  refuses : ∀ name, env.isGloballyBound name = true → env.Refuses name
  lookup : env.locals = [] → ∀ name value, (name, value) ∈ made →
    EvalM.lookup name env = .value value env

theorem Logged.writeOnce [LawfulFrame F] {base : List (String × Cell)} {env : Environment F}
    {logged : Environment (Ledger F)} (h : Logged base env logged) :
    env.WriteOnce logged.made := by
  have hfind (name : String) (value : Cell) :
      Frame.find? env.globals name = some value ↔ (name, value) ∈ logged.made :=
    h.adds.find?_eq_some_iff
  have hbindable (name : String) (hbound : env.isGloballyBound name = true) :
      Operator.isReserved name = false := by
    obtain ⟨value, hv⟩ := Option.isSome_iff_exists.1 hbound
    exact h.bindable _ ((hfind name value).1 hv)
  refine ⟨h.adds.nodup, h.reported_eq, hfind, hbindable,
    fun _ value hname hfree => define_of_free hname hfree value,
    fun name hbound => refuses_of_bound (hbindable name hbound) hbound, ?_⟩
  intro hlocals name value hmem
  rw [EvalM.lookup, lookup?_of_locals_eq_nil hlocals, (hfind name value).2 hmem]

/-- A name is bound if it was defined. -/
theorem WriteOnce.isGloballyBound_iff {env : Environment F} {made : List (String × Cell)}
    (h : env.WriteOnce made) {name : String} :
    env.isGloballyBound name = true ↔ name ∈ made.map Prod.fst := by
  rw [isGloballyBound, Frame.contains, Option.isSome_iff_exists, List.mem_map]
  constructor
  · rintro ⟨value, hvalue⟩
    exact ⟨(name, value), (h.find?_eq_some_iff name value).1 hvalue, rfl⟩
  · rintro ⟨⟨n, value⟩, hmem, rfl⟩
    exact ⟨value, (h.find?_eq_some_iff n value).2 hmem⟩

/-- What a host is told about names when the definitions so far are `made`: which names can still be
defined, what a name stands for outside of all scopes, and which names there are. -/
structure AnswersBy (budget : Nat) (env : Environment F) (made : List (String × Cell)) : Prop where
  define_made : ∀ name value, name ∈ made.map Prod.fst →
    (Session.Operation.define name value).take budget env =
      (.failure (.duplicateDefinition name), env)
  define_reserved : ∀ name value, Operator.isReserved name = true →
    (Session.Operation.define name value).take budget env = (.failure (.reservedName name), env)
  define_free : ∀ name value, Operator.isReserved name = false → name ∉ made.map Prod.fst →
    ∃ last, (Session.Operation.define name value).take budget env = (.value .nil, last) ∧
      Frame.find? last.globals name = some value ∧
      last.reported = env.reported ++ [(name, value.kind)]
  lookup_made : env.locals = [] → ∀ name value, (name, value) ∈ made →
    (Session.Operation.lookup name).take budget env = (.value value, env)
  lookup_free : env.locals = [] → ∀ name, name ∉ made.map Prod.fst →
    (Session.Operation.lookup name).take budget env = (.failure (.unboundSymbol name), env)
  isGloballyBound : ∀ name, (Session.Operation.isGloballyBound name).take budget env =
    (.bound (decide (name ∈ made.map Prod.fst)), env)
  globalNames : ∃ names, Session.Operation.globalNames.take budget env = (.names names, env) ∧
    names.Pairwise (· < ·) ∧ ∀ name, name ∈ names ↔ name ∈ made.map Prod.fst

theorem WriteOnce.answersBy [LawfulFrame F] {env : Environment F} {made : List (String × Cell)}
    (h : env.WriteOnce made) (budget : Nat) : env.AnswersBy budget made where
  define_made name value hmem := by
    have hrefuses : env.Refuses name := h.refuses name (h.isGloballyBound_iff.2 hmem)
    exact Session.Operation.take_define_of_failure (hrefuses.define value)
  define_reserved name value hname := by
    refine Session.Operation.take_define_of_failure ?_
    rw [EvalM.define, env.define?_of_isReserved value hname]
  define_free name value hname hmem := by
    have hfree : env.isGloballyBound name = false :=
      Bool.eq_false_iff.2 (mt h.isGloballyBound_iff.1 hmem)
    obtain ⟨last, hdefine, hlast⟩ := h.accepts name value hname hfree
    exact ⟨last, Session.Operation.take_define_of_value hdefine, hlast⟩
  lookup_made hlocals name value hmem := by
    rw [Session.Operation.take_lookup, lookup?_of_locals_eq_nil hlocals,
      (h.find?_eq_some_iff name value).2 hmem]
    rfl
  lookup_free hlocals name hmem := by
    have hfree : Frame.find? env.globals name = none :=
      Option.not_isSome_iff_eq_none.1 (mt h.isGloballyBound_iff.1 hmem)
    rw [Session.Operation.take_lookup, lookup?_of_locals_eq_nil hlocals, hfree]
    rfl
  isGloballyBound name := by
    rw [Session.Operation.take_isGloballyBound, Bool.eq_iff_iff.2
      (h.isGloballyBound_iff.trans decide_eq_true_iff.symm)]
  globalNames :=
    ⟨env.globalNames, Session.Operation.take_globalNames budget env,
      Frame.pairwise_lt_names env.globals,
      fun _ => Frame.mem_names_iff.trans h.isGloballyBound_iff⟩

/-- Everything is accounted for, and the definitions so far begin with `base`. -/
def WriteOnceSince (base : List (String × Cell)) (logged : Environment (Ledger F)) : Prop :=
  base <+: logged.made ∧ logged.plain.WriteOnce logged.made

theorem Logged.writeOnceSince [LawfulFrame F] {base : List (String × Cell)} {env : Environment F}
    {logged : Environment (Ledger F)} (h : Logged base env logged) :
    logged.WriteOnceSince base :=
  ⟨h.since, h.plain_eq ▸ h.writeOnce⟩

/-- What is so far is where the ledger of all that follows begins. -/
theorem Logged.rebase {base : List (String × Cell)} {env : Environment F}
    {logged : Environment (Ledger F)} (h : Logged base env logged) :
    Logged logged.made env logged :=
  { h with since := List.prefix_rfl }

end Environment

/-! ## Whole sessions -/

namespace Session

/-- The point without its ledgers. -/
def Point.plain (logged : Point (Ledger F)) : Point F :=
  ⟨logged.env.plain, logged.todo⟩

theorem Point.Related.plain_eq {base : List (String × Cell)} {now : Point F}
    {logged : Point (Ledger F)} (h : now.Related (Environment.Logged base) logged) :
    logged.plain = now := by
  obtain ⟨env, todo⟩ := now
  obtain ⟨henv, rfl⟩ := h
  exact congrArg (Point.mk · _) henv.plain_eq

/-- Above the global frame the stack holds the frames of the open scopes.  A step leaves its depth as
it was, closing a scope takes off the frame of that scope, and a run takes off no frame that was
there before. -/
structure Point.Balanced (budget : Nat) (now : Point F) : Prop where
  depth_eq : now.env.depth = now.todo.length
  locals_ne_nil : ∀ steps outer, now.todo = [] :: steps :: outer → now.env.locals ≠ []
  take_depth_eq : ∀ step, (take budget step now.env).2.depth = now.env.depth
  run_eq : ∀ (fuel : Nat) (task : Task),
    watchedRun (.always fun mid => now.env.locals <:+ mid.locals) fuel task now.env =
      run fuel task now.env

theorem Point.Leads.balanced {budget : Nat} {output : Sink} {steps : List Step} {now : Point F}
    (h : (Point.start output steps).Leads budget now) : now.Balanced budget where
  depth_eq := h.depth_eq
  locals_ne_nil steps outer htodo hlocals := by
    have hdepth := h.depth_eq
    simp [Environment.depth, htodo, hlocals] at hdepth
  take_depth_eq step := take_depth budget step now.env
  run_eq fuel task := watchedRun_locals fuel task now.env

/-- The ledger of the global frame accounts for all definitions up to this point, and so for what
the host is told of them.  Later points of the session only add to it, and so does every moment of a
run that starts here. -/
structure Point.AccountedBy (budget : Nat) (now : Point F) (logged : Point (Ledger F)) : Prop where
  plain_eq : logged.plain = now
  writeOnce : now.env.WriteOnce logged.env.made
  answersBy : now.env.AnswersBy budget logged.env.made
  leads : ∀ later : Point F, now.Leads budget later →
    ∃ logged' : Point (Ledger F), logged.Leads budget logged' ∧ logged'.plain = later ∧
      logged'.env.WriteOnceSince logged.env.made
  run_eq : ∀ (fuel : Nat) (task : Task),
    (watchedRun (.always fun mid => mid.WriteOnceSince logged.env.made) fuel task
      logged.env).mapState Environment.plain = run fuel task now.env

theorem Point.Related.accountedBy [LawfulFrame F] {base : List (String × Cell)} {now : Point F}
    {logged : Point (Ledger F)} (h : now.Related (Environment.Logged base) logged) (budget : Nat) :
    now.AccountedBy budget logged := by
  -- what counts from here on is what is added to the ledger of this point
  have hsim := Environment.Logged.simulation (F := F) logged.env.made
  have hhere : now.Related (Environment.Logged logged.env.made) logged := ⟨h.env.rebase, h.todo_eq⟩
  refine ⟨h.plain_eq, h.env.writeOnce, h.env.writeOnce.answersBy budget, fun later hlater => ?_,
    fun fuel task => ?_⟩
  · obtain ⟨logged', hlogged', hlater⟩ := hsim.leads hhere hlater
    exact ⟨logged', hlogged', hlater.plain_eq, hlater.env.writeOnceSince⟩
  · have hrun := hsim.run_watched (fun _ _ h => h.writeOnceSince) fuel task now.env logged.env
      hhere.env
    exact (hrun.mono fun _ _ h => h.plain_eq).mapState_eq

/-- **Definitions are write-once.**  The end of a session is one of its points, and at each of them
the stack is that of the open scopes, and everything that is defined is accounted for by the ledger
that the session with ledgers has at this point. -/
theorem definitions_are_write_once [LawfulFrame F] (budget : Nat) (output : Sink)
    (steps : List Step) :
    (Point.start output steps : Point F).Leads budget
      ⟨(takeAll budget steps (Environment.fresh output)).2, [[]]⟩ ∧
    ∀ now : Point F, (Point.start output steps).Leads budget now →
      now.Balanced budget ∧
      ∃ logged : Point (Ledger F), (Point.start output steps).Leads budget logged ∧
        now.AccountedBy budget logged := by
  refine ⟨leads_takeAll budget steps (Environment.fresh output) [],
    fun now hnow => ⟨hnow.balanced, ?_⟩⟩
  have hstart : Point.Related (Environment.Logged []) (Point.start output steps : Point F)
      (Point.start output steps) := ⟨.fresh output, rfl⟩
  obtain ⟨logged, hlogged, hrelated⟩ := (Environment.Logged.simulation []).leads hstart hnow
  exact ⟨logged, hlogged, hrelated.accountedBy budget⟩

/-- A name defined in a scope that shadows it is defined for good all the same. -/
theorem definitions_are_write_once_under_shadow :
    let lookup : Step := .single (.lookup "x")
    let steps : List Step := [.scope [("x", .integer 7)]
      [.single (.evaluate (Operator.define.form [.symbol "x", .integer 1])), lookup]]
    ∃ now later : Point OrderedFrame,
      (Point.start .unlimited steps).Leads 2 now ∧ now.Leads 2 later ∧
      now.todo = [[lookup], []] ∧ now.env.lookup? "x" = some (.integer 7) ∧
      now.env.Refuses "x" ∧
      later.todo = [[]] ∧ EvalM.lookup "x" later.env = .value (.integer 1) later.env := by
  intro lookup steps
  obtain ⟨now, hnow, htodo, hshadow, hdefined, later, hlater, hend, houtside⟩ :
      ∃ now : Point OrderedFrame, (Point.start .unlimited steps).Leads 2 now ∧
        now.todo = [[lookup], []] ∧ now.env.lookup? "x" = some (.integer 7) ∧
        Frame.find? now.env.globals "x" = some (.integer 1) ∧
        ∃ later, now.Leads 2 later ∧ later.todo = [[]] ∧ later.env.locals = [] :=
    ⟨_, .tail (.single rfl) rfl, rfl, rfl, rfl, _, .tail (.single rfl) rfl, rfl, rfl⟩
  obtain ⟨-, logged, -, hlogged⟩ := (definitions_are_write_once 2 .unlimited steps).2 now hnow
  obtain ⟨logged', -, rfl, hsince, hlast⟩ := hlogged.leads later hlater
  have honce := hlogged.writeOnce
  have hbound : now.env.isGloballyBound "x" = true := by
    rw [Environment.isGloballyBound, Frame.contains, hdefined]
    rfl
  have hmade := (honce.find?_eq_some_iff "x" (.integer 1)).1 hdefined
  exact ⟨now, logged'.plain, hnow, hlater, htodo, hshadow, honce.refuses "x" hbound, hend,
    hlast.lookup houtside "x" _ (hsince.subset hmade)⟩

end Session

end ConsLisp

import ConsLisp.Proofs.Watch

/-!
# Simulation

A relation between environments, perhaps with frames of different kinds, is a simulation if every
primitive of `EvalM` keeps it and answers alike on both sides (`Environment.Simulation`).  Then every
evaluation keeps it, and ends alike in related environments (`Environment.Simulation.closed`).
-/

namespace ConsLisp

variable {F G : Type} [Frame F] [Frame G]

/-- The definition that an event reports, with the kind of its value. -/
def Event.definition? : Event → Option (String × Kind)
  | .definedGlobal name kind => some (name, kind)
  | _ => none

/-- A relation between environments that nothing an evaluation or a host does can break or
notice.  The binding and the event of a definition come together, so a relation may compare the
bindings with the record. -/
structure Environment.Simulation (rel : Environment F → Environment G → Prop) : Prop where
  depth_eq {env env'} : rel env env' → env.depth = env'.depth
  lookup?_eq {env env'} : rel env env' → ∀ name, env.lookup? name = env'.lookup? name
  isGloballyBound_eq {env env'} : rel env env' → ∀ name,
    env.isGloballyBound name = env'.isGloballyBound name
  globalNames_eq {env env'} : rel env env' → env.globalNames = env'.globalNames
  record {env env'} : rel env env' → ∀ event, event.definition? = none →
    rel (env.record event) (env'.record event)
  write_eq {env env'} : rel env env' → ∀ text, (env.write text).1 = (env'.write text).1
  refusal_eq {env env'} : rel env env' → env.output.refusal = env'.output.refusal
  write {env env'} : rel env env' → ∀ text, rel (env.write text).2 (env'.write text).2
  define {env env'} : rel env env' → ∀ name value globals globals',
    Operator.isReserved name = false →
    Frame.insert? env.globals name value = some globals →
    Frame.insert? env'.globals name value = some globals' →
    rel ({ env with globals }.record (.definedGlobal name value.kind))
      ({ env' with globals := globals' }.record (.definedGlobal name value.kind))
  push {env env'} : rel env env' → ∀ bindings,
    rel (env.push (Frame.ofList bindings)) (env'.push (Frame.ofList bindings))
  pop {env env'} : rel env env' → rel env.pop env'.pop

/-- Two actions that end alike in related environments. -/
def Simulates (rel : Environment F → Environment G → Prop) : ActionRel F G := fun _ Q x y =>
  ∀ env env', rel env env' → Outcome.Same Q rel (x env) (y env')

namespace Simulates

variable {rel : Environment F → Environment G → Prop}

omit [Frame F] [Frame G] in
theorem bind {A B : Type} {Q : A → Prop} {Q' : B → Prop} {x : EvalM F A} {y : EvalM G A}
    {f : A → EvalM F B} {g : A → EvalM G B} (h : Simulates rel Q x y)
    (hf : ∀ a, Q a → Simulates rel Q' (f a) (g a)) : Simulates rel Q' (x >>= f) (y >>= g) := by
  intro env env' hrel
  exact (h env env' hrel).bind (fun _ _ hlast => hlast) fun a mid mid' ha hmid => hf a ha mid mid' hmid

omit [Frame F] [Frame G] in
theorem sequenced : Sequenced (Simulates rel) where
  pure_rel hQ _ _ hrel := .value hQ hrel
  bind_rel := bind
  fail_rel _ _ _ hrel := .failure hrel
  exhausted_rel _ _ _ := .exhausted

omit [Frame F] [Frame G] in
theorem value {A : Type} {Q : A → Prop} {x : EvalM F A} {y : EvalM G A} (h : Simulates rel Q x y)
    {env last : Environment F} {env' : Environment G} (henv : rel env env') {a : A}
    (hx : x env = .value a last) : ∃ last', y env' = .value a last' ∧ rel last last' := by
  have hsame := h env env' henv
  rw [hx] at hsame
  generalize y env' = o at hsame
  cases hsame with
  | value _ hlast => exact ⟨_, rfl, hlast⟩

variable (hrel : Environment.Simulation rel)

include hrel

theorem lookup (name : String) :
    Simulates rel (fun _ => True) (EvalM.lookup name) (EvalM.lookup name) := by
  intro env env' h
  unfold EvalM.lookup
  rw [← hrel.lookup?_eq h name]
  cases env.lookup? name with
  | some v => exact .value trivial h
  | none => exact .failure h

theorem isGloballyBound (name : String) :
    Simulates rel (fun _ => True) (EvalM.isGloballyBound name) (EvalM.isGloballyBound name) := by
  intro env env' h
  unfold EvalM.isGloballyBound
  rw [← hrel.isGloballyBound_eq h name]
  exact .value trivial h

theorem write (text : String) :
    Simulates rel (fun _ => True) (EvalM.write text) (EvalM.write text) := by
  intro env env' h
  have htaken := hrel.write_eq h text
  have hlast := hrel.write h text
  unfold EvalM.write
  generalize env.write text = o, env'.write text = o' at htaken hlast
  obtain ⟨taken, last⟩ := o
  obtain ⟨taken', last'⟩ := o'
  obtain rfl : taken = taken' := htaken
  cases taken with
  | true => exact .value trivial hlast
  | false =>
    dsimp only
    rw [hrel.refusal_eq hlast]
    exact .failure hlast

variable [LawfulFrame F] [LawfulFrame G]

/-- A name is free on both sides or on neither. -/
theorem define (name : String) (value : Cell) :
    Simulates rel (fun _ => True) (EvalM.define name value) (EvalM.define name value) := by
  intro env env' h
  unfold EvalM.define
  cases hname : Operator.isReserved name with
  | true =>
    rw [env.define?_of_isReserved value hname, env'.define?_of_isReserved value hname]
    exact .failure h
  | false =>
    have hfree : Frame.insert? env.globals name value = none ↔
        Frame.insert? env'.globals name value = none := by
      have hbound : (Frame.find? env.globals name).isSome = (Frame.find? env'.globals name).isSome :=
        hrel.isGloballyBound_eq h name
      rw [LawfulFrame.insert?_eq_none_iff, LawfulFrame.insert?_eq_none_iff, hbound]
    obtain ⟨globals, hinsert, hdef⟩ | ⟨hnone, hdef⟩ := env.define?_cases value hname <;>
      obtain ⟨globals', hinsert', hdef'⟩ | ⟨hnone', hdef'⟩ := env'.define?_cases value hname
    · rw [hdef, hdef']
      exact .value trivial (hrel.define h name value _ _ hname hinsert hinsert')
    · rw [hfree.2 hnone'] at hinsert
      cases hinsert
    · rw [hfree.1 hnone] at hinsert'
      cases hinsert'
    · rw [hdef, hdef']
      exact .failure h

theorem inFrame {A : Type} {Q : A → Prop} {x : EvalM F A} {y : EvalM G A}
    {bindings : List (String × Cell)} (h : Simulates rel Q x y) :
    Simulates rel Q (EvalM.inFrame bindings x) (EvalM.inFrame bindings y) := by
  intro env env' henv
  have henter : rel (env.enter bindings) (env'.enter bindings) := by
    simp only [Environment.enter, Frame.size_ofList F G, hrel.depth_eq henv]
    exact hrel.push (hrel.record henv _ rfl) bindings
  exact (h _ _ henter).inFrame fun _ _ hlast => hrel.pop hlast

end Simulates

/-- Every evaluation keeps a simulation. -/
theorem Environment.Simulation.closed [LawfulFrame F] [LawfulFrame G]
    {rel : Environment F → Environment G → Prop} (hrel : Environment.Simulation rel) :
    Closed (fun _ => True) (Simulates rel) where
  toSequenced := Simulates.sequenced
  note_rel expr env env' h := by
    refine .value trivial ?_
    rw [hrel.depth_eq h]
    exact hrel.record h _ rfl
  lookup_rel _ := Simulates.lookup hrel _
  write_rel := Simulates.write hrel
  defineAs_rel hname h := Simulates.sequenced.defineAs_rel trivial
    (fun _ _ => Simulates.isGloballyBound hrel _)
    (fun name _ value _ => Simulates.define hrel name value) hname h
  inFrame_rel _ := Simulates.inFrame hrel

omit [Frame F] [Frame G] in
/-- A watch for what a simulation implies sees nothing amiss. -/
theorem Simulates.watched {rel : Environment F → Environment G → Prop} {p : Environment G → Prop}
    (hp : ∀ env env', rel env env' → p env') {Q : Cell → Prop} {task : Task} {x : EvalM F Cell}
    {y : EvalM G Cell} (h : Simulates rel Q x y) :
    Simulates rel Q x ((Watch.always p).during task y) := by
  intro env env' henv
  have hsame := h env env' henv
  have hends : (y env').Ends (fun _ => p) (fun _ => p) := by
    generalize x env = o, y env' = o' at hsame
    cases hsame with
    | value _ hlast => exact hp _ _ hlast
    | failure hlast => exact hp _ _ hlast
    | exhausted => trivial
  rw [Watch.during_apply (hp env env' henv) hends]
  exact hsame

theorem Environment.Simulation.run_watched [LawfulFrame F] [LawfulFrame G]
    {rel : Environment F → Environment G → Prop} (hrel : Environment.Simulation rel)
    {p : Environment G → Prop} (hp : ∀ env env', rel env env' → p env') (budget : Nat)
    (task : Task) :
    Simulates rel (Passing fun _ => True) (run budget task) (watchedRun (.always p) budget task) :=
  hrel.closed.run_watched .all (fun _ _ _ _ h => h.watched hp) budget task task.in_all

end ConsLisp

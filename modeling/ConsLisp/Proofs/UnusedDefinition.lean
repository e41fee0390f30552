import ConsLisp.Frame.Containers
import ConsLisp.Proofs.Growth
import ConsLisp.Proofs.Related

/-!
# Unused definitions

A run that succeeds and leaves a name undefined does not notice if that name is defined beforehand.
It cannot have looked the name up in the global frame, where there was nothing, nor have defined it,
since it would still be defined; and a run that succeeds has not been through a failed lookup, since
no form recovers from an error.

The relation is one of successful runs only (`Ignores`), and it goes backwards: that the name is
undefined at the end says that it was undefined all along.
-/

namespace ConsLisp

variable {F : Type} [Frame F]

/-- `env'` is `env` with one more definition in its global frame. -/
structure Environment.WithDefinition (name : String) (value : Cell) (env env' : Environment F) :
    Prop where
  locals_eq : env'.locals = env.locals
  find?_globals : ∀ n,
    Frame.find? env'.globals n = if name = n then some value else Frame.find? env.globals n
  output_eq : env'.output = env.output
  events_eq : env'.events = env.events

namespace Environment.WithDefinition

variable {name : String} {value : Cell} {env env' : Environment F}

theorem of_insert? [LawfulFrame F] {globals : F}
    (h : Frame.insert? env.globals name value = some globals) :
    env.WithDefinition name value { env with globals } :=
  ⟨rfl, LawfulFrame.find?_of_insert? env.globals globals name value h, rfl, rfl⟩

theorem depth_eq (h : env.WithDefinition name value env') : env'.depth = env.depth := by
  rw [depth, depth, h.locals_eq]

/-- A name that stands for something without the definition stands for it with the definition. -/
theorem lookup?_eq (h : env.WithDefinition name value env')
    (hfree : Frame.find? env.globals name = none) {n : String} {v : Cell}
    (hv : env.lookup? n = some v) : env'.lookup? n = some v := by
  unfold lookup? at hv ⊢
  rw [h.locals_eq, h.find?_globals n]
  by_cases hn : name = n
  · subst hn
    rw [hfree, Option.or_none] at hv
    rw [hv, Option.some_or]
  · rw [if_neg hn, hv]

theorem record (h : env.WithDefinition name value env') (event : Event) :
    (env.record event).WithDefinition name value (env'.record event) :=
  ⟨h.locals_eq, h.find?_globals, h.output_eq, congrArg (·.push event) h.events_eq⟩

theorem enter (h : env.WithDefinition name value env') (bindings : List (String × Cell)) :
    (env.enter bindings).WithDefinition name value (env'.enter bindings) := by
  obtain ⟨globals, locals, output, events⟩ := env
  obtain ⟨globals', locals', output', events'⟩ := env'
  obtain ⟨rfl, hfind, rfl, rfl⟩ := h
  exact ⟨rfl, hfind, rfl, rfl⟩

theorem pop (h : env.WithDefinition name value env') :
    env.pop.WithDefinition name value env'.pop := by
  obtain ⟨globals, locals, output, events⟩ := env
  obtain ⟨globals', locals', output', events'⟩ := env'
  obtain ⟨rfl, hfind, rfl, rfl⟩ := h
  exact ⟨rfl, hfind, rfl, rfl⟩

end Environment.WithDefinition

/-- A definition that succeeds has found its name free. -/
theorem EvalM.define_eq_value {n : String} (hn : Operator.isReserved n = false) {v : Cell}
    {env last : Environment F} {a : Unit} (h : EvalM.define n v env = .value a last) :
    ∃ globals, Frame.insert? env.globals n v = some globals ∧
      last = ({ env with globals } : Environment F).record (.definedGlobal n v.kind) := by
  unfold EvalM.define at h
  obtain ⟨globals, hinsert, hdef⟩ | ⟨-, hdef⟩ := env.define?_cases v hn
  · rw [hdef] at h
    exact ⟨globals, hinsert, (Outcome.value.inj h).2.symm⟩
  · rw [hdef] at h
    cases h

/-- Where the first action succeeds and leaves the name undefined, the second one does the same in
the environment that has the definition. -/
def Ignores (name : String) (value : Cell) : ActionRel F F := fun _ Q x y =>
  ∀ (env last : Environment F) a, x env = .value a last →
    Q a ∧ (Frame.find? last.globals name = none →
      Frame.find? env.globals name = none ∧
      ∀ env', env.WithDefinition name value env' →
        ∃ last', y env' = .value a last' ∧ last.WithDefinition name value last')

namespace Ignores

variable {name : String} {value : Cell}

theorem bind {A B : Type} {Q : A → Prop} {Q' : B → Prop} {x y : EvalM F A} {f g : A → EvalM F B}
    (h : Ignores name value Q x y) (hf : ∀ a, Q a → Ignores name value Q' (f a) (g a)) :
    Ignores name value Q' (x >>= f) (y >>= g) := by
  intro env last b hrun
  obtain ⟨a, mid, hx, hfa⟩ := EvalM.bind_eq_value_iff.1 hrun
  obtain ⟨ha, hback⟩ := h env mid a hx
  obtain ⟨hb, hback'⟩ := hf a ha mid last b hfa
  refine ⟨hb, fun hlast => ?_⟩
  obtain ⟨hmid, hsame'⟩ := hback' hlast
  obtain ⟨henv, hsame⟩ := hback hmid
  refine ⟨henv, fun env' hwith => ?_⟩
  obtain ⟨mid', hy, hwith⟩ := hsame env' hwith
  obtain ⟨last', hga, hwith⟩ := hsame' mid' hwith
  exact ⟨last', EvalM.bind_eq_value_iff.2 ⟨a, mid', hy, hga⟩, hwith⟩

theorem sequenced : Sequenced (Ignores (F := F) name value) where
  pure_rel hQ env last a hrun := by
    cases hrun
    exact ⟨hQ, fun hfree => ⟨hfree, fun env' hwith => ⟨env', rfl, hwith⟩⟩⟩
  bind_rel := bind
  fail_rel _ _ _ _ hrun := nomatch hrun
  exhausted_rel _ _ _ hrun := nomatch hrun

theorem lookup (n : String) :
    Ignores (F := F) name value (fun _ => True) (EvalM.lookup n) (EvalM.lookup n) := by
  intro env last a hrun
  unfold EvalM.lookup at hrun
  cases hv : env.lookup? n with
  | none =>
    rw [hv] at hrun
    cases hrun
  | some v =>
    rw [hv] at hrun
    cases hrun
    refine ⟨trivial, fun hfree => ⟨hfree, fun env' hwith => ⟨env', ?_, hwith⟩⟩⟩
    unfold EvalM.lookup
    rw [hwith.lookup?_eq hfree hv]

theorem write (text : String) :
    Ignores (F := F) name value (fun _ => True) (EvalM.write text) (EvalM.write text) := by
  intro env last a hrun
  unfold EvalM.write Environment.write at hrun
  rcases hwrite : env.output.write text with ⟨_ | _, output⟩
  · rw [hwrite] at hrun
    cases hrun
  · rw [hwrite] at hrun
    cases hrun
    refine ⟨trivial, fun hfree => ⟨hfree, fun env' hwith => ⟨{ env' with output }, ?_, ?_⟩⟩⟩
    · unfold EvalM.write Environment.write
      rw [hwith.output_eq, hwrite]
    · exact ⟨hwith.locals_eq, hwith.find?_globals, rfl, hwith.events_eq⟩

theorem inFrame {A : Type} {Q : A → Prop} {x y : EvalM F A} {bindings : List (String × Cell)}
    (h : Ignores name value Q x y) :
    Ignores name value Q (EvalM.inFrame bindings x) (EvalM.inFrame bindings y) := by
  intro env last a hrun
  rw [Environment.inFrame_apply] at hrun
  cases hx : x (env.enter bindings) with
  | value b inner =>
    rw [hx] at hrun
    obtain ⟨rfl, rfl⟩ := Outcome.value.inj hrun
    obtain ⟨hb, hback⟩ := h (env.enter bindings) inner b hx
    refine ⟨hb, fun hlast => ?_⟩
    obtain ⟨henv, hsame⟩ := hback hlast
    refine ⟨henv, fun env' hwith => ?_⟩
    obtain ⟨inner', hy, hwith⟩ := hsame _ (hwith.enter bindings)
    refine ⟨inner'.pop, ?_, hwith.pop⟩
    rw [Environment.inFrame_apply, hy]
  | failure e inner =>
    rw [hx] at hrun
    cases hrun
  | exhausted =>
    rw [hx] at hrun
    cases hrun

variable [LawfulFrame F]

/-- Another name can be defined with the definition in place if it can be without. -/
theorem define {n : String} (hn : Operator.isReserved n = false) (v : Cell) :
    Ignores (F := F) name value (fun _ => True) (EvalM.define n v) (EvalM.define n v) := by
  intro env last a hrun
  refine ⟨trivial, fun hlast => ?_⟩
  obtain ⟨globals, hinsert, rfl⟩ := EvalM.define_eq_value hn hrun
  have hlast : Frame.find? globals name = none := hlast
  have hfind := LawfulFrame.find?_of_insert? env.globals globals n v hinsert
  have hne : n ≠ name := by
    rintro rfl
    rw [hfind n, if_pos rfl] at hlast
    cases hlast
  refine ⟨by rwa [hfind name, if_neg hne] at hlast, fun env' hwith => ?_⟩
  obtain ⟨globals', hinsert', hdef'⟩ | ⟨hnone', -⟩ := env'.define?_cases v hn
  · have hfind' := LawfulFrame.find?_of_insert? env'.globals globals' n v hinsert'
    refine ⟨({ env' with globals := globals' } : Environment F).record (.definedGlobal n v.kind),
      ?_, hwith.locals_eq, fun m => ?_, hwith.output_eq, ?_⟩
    · unfold EvalM.define
      rw [hdef']
    · show Frame.find? globals' m = if name = m then some value else Frame.find? globals m
      rw [hfind' m, hfind m, hwith.find?_globals m]
      by_cases hm : n = m
      · rw [if_pos hm, if_pos hm, if_neg fun h => hne (hm.trans h.symm)]
      · rw [if_neg hm, if_neg hm]
    · exact congrArg (·.push (Event.definedGlobal n v.kind)) hwith.events_eq
  · have hbound := (LawfulFrame.insert?_eq_none_iff env'.globals n v).1 hnone'
    rw [hwith.find?_globals n, if_neg (Ne.symm hne), Frame.find?_of_insert?_eq_some hinsert]
      at hbound
    cases hbound

/-- What follows the check for a name that is defined already. -/
theorem find?_of_defineRest {n : String} (hn : Operator.isReserved n = false) {x : EvalM F Cell}
    {env last : Environment F} {a : Cell}
    (h : (do
      let v ← x
      v.checkStorable (.builtin .define)
      EvalM.define n v
      return Cell.nil : EvalM F Cell) env = .value a last) :
    ∃ w, Frame.find? last.globals n = some w := by
  obtain ⟨v, env₁, -, h⟩ := EvalM.bind_eq_value_iff.1 h
  obtain ⟨_, env₂, -, h⟩ := EvalM.bind_eq_value_iff.1 h
  obtain ⟨_, env₃, hdef, h⟩ := EvalM.bind_eq_value_iff.1 h
  obtain ⟨-, rfl⟩ := Outcome.value.inj h
  obtain ⟨globals, hinsert, rfl⟩ := EvalM.define_eq_value hn hdef
  refine ⟨v, ?_⟩
  show Frame.find? globals n = some v
  rw [LawfulFrame.find?_of_insert? env₂.globals globals n v hinsert n, if_pos rfl]

/-- The check before the operand would find the added definition, if it were for the same name.
That it is not shows only at the end, where the name of the form is defined. -/
theorem defineAs {n : String} (hn : Operator.isReserved n = false) {x y : EvalM F Cell}
    (h : Ignores name value (Passing fun _ => True) x y) :
    Ignores name value (fun _ => True) (EvalM.defineAs n x) (EvalM.defineAs n y) := by
  have hrest := sequenced.bind_rel h fun v hv =>
    sequenced.bind_rel (sequenced.lift_rel (@Cell.checkStorable_meets _ (.builtin .define) v hv))
      fun _ _ => sequenced.bind_rel (define hn v) fun _ _ =>
        sequenced.pure_rel (a := Cell.nil) (Q := fun _ => True) trivial
  intro env last a hrun
  obtain ⟨bound, env₁, hbound, hrun⟩ := EvalM.bind_eq_value_iff.1 hrun
  obtain ⟨hfalse, rfl⟩ := Outcome.value.inj hbound
  cases bound with
  | true => cases hrun
  | false =>
    refine ⟨trivial, fun hlast => ?_⟩
    obtain ⟨henv, hsame⟩ := (hrest env last a hrun).2 hlast
    refine ⟨henv, fun env' hwith => ?_⟩
    obtain ⟨last', hrun', hwith'⟩ := hsame env' hwith
    refine ⟨last', EvalM.bind_eq_value_iff.2 ⟨false, env', ?_, hrun'⟩, hwith'⟩
    have hne : name ≠ n := by
      rintro rfl
      obtain ⟨w, hw⟩ := find?_of_defineRest hn hrun
      rw [hw] at hlast
      cases hlast
    unfold EvalM.isGloballyBound Environment.isGloballyBound Frame.contains
    rw [hwith.find?_globals n, if_neg hne]
    exact congrArg (Outcome.value · env') hfalse

theorem closed : Closed (fun _ => True) (Ignores (F := F) name value) where
  toSequenced := sequenced
  note_rel expr env last a hrun := by
    obtain ⟨-, rfl⟩ := Outcome.value.inj hrun
    refine ⟨trivial, fun hfree => ⟨hfree, fun env' hwith => ⟨_, rfl, ?_⟩⟩⟩
    rw [hwith.depth_eq]
    exact hwith.record _
  lookup_rel _ := lookup _
  write_rel := write
  defineAs_rel hn h := defineAs hn h
  inFrame_rel _ := inFrame

end Ignores

/-- **A definition that is not used is not noticed.**  If an expression has a value and a name is
undefined afterwards, then the name was free before, and with any definition of it in place the
expression has the same value, prints the same, and leaves the same environment but for that
definition. -/
theorem unused_definition_unnoticed [LawfulFrame F] {name : String} {value : Cell}
    {env last : Environment F} {budget : Nat} {expr v : Cell}
    (hrun : evaluate budget expr env = .value v last)
    (hunused : last.isGloballyBound name = false) :
    (∃ globals, Frame.insert? env.globals name value = some globals ∧
      env.WithDefinition name value { env with globals }) ∧
    ∀ env', env.WithDefinition name value env' →
      ∃ last', evaluate budget expr env' = .value v last' ∧
        last.WithDefinition name value last' := by
  have hignores : Ignores name value (Passing fun _ => True) (evaluate (F := F) budget expr)
      (evaluate budget expr) := Ignores.closed.evaluate_run .all budget (.inl trivial)
  have hlast : Frame.find? last.globals name = none :=
    Option.not_isSome_iff_eq_none.1 (Bool.eq_false_iff.1 hunused)
  obtain ⟨hfree, hsame⟩ := (hignores env last v hrun).2 hlast
  refine ⟨?_, hsame⟩
  obtain ⟨globals, hinsert⟩ := Frame.exists_insert? value hfree
  exact ⟨globals, hinsert, .of_insert? hinsert⟩

/-- A program that reads and prints a local `y`, without and with a definition of `y`. -/
theorem unused_definition_unnoticed_under_frame :
    let expr : Cell :=
      .ofList [.symbol "define", .symbol "z", .ofList [.symbol "print", .symbol "y"]]
    let env : Environment OrderedFrame :=
      { Environment.fresh .unlimited with locals := [Frame.ofList [("y", .integer 7)]] }
    let env' := { env with globals := Frame.ofList [("y", .integer 5)] }
    ∃ last last', evaluate 4 expr env = .value .nil last ∧ last.isGloballyBound "y" = false ∧
      evaluate 4 expr env' = .value .nil last' ∧ last.WithDefinition "y" (.integer 5) last' := by
  intro expr env env'
  obtain ⟨last, hrun, hunused⟩ : ∃ last, evaluate 4 expr env = .value .nil last ∧
      last.isGloballyBound "y" = false := ⟨_, rfl, rfl⟩
  obtain ⟨-, hsame⟩ := unused_definition_unnoticed hrun hunused
  obtain ⟨last', hrun', hwith⟩ := hsame env' (.of_insert? rfl)
  exact ⟨last, last', hrun, hunused, hrun', hwith⟩

end ConsLisp

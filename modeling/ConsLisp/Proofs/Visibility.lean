import ConsLisp.Frame.Containers
import ConsLisp.Proofs.Growth
import ConsLisp.Proofs.Related

/-!
# What an evaluation sees of its environment

Two environments look alike (`Environment.LooksLike`) if every name that is not reserved stands for
the same cell in both, the same names can still be defined, and their sinks behave alike.  The
number of frames and what else they hold may differ, even the containers.  Then every evaluation
ends alike in both, makes the same definitions in the same order, prints the same bytes, and leaves
environments that look alike.

The invariant is not the likeness itself but growth by the same definitions: `Grown.lookup?_eq`
computes every later lookup from the first one and the definitions made since, whatever the two
stacks look like, and so likeness survives when a frame is popped in whose scope a definition was
made (`LooksLike.of_grown`).
-/

namespace ConsLisp

variable {F G : Type} [Frame F] [Frame G]

namespace Environment

/-! ## Lookup after growth -/

section

variable [LawfulFrame F]

theorem lookup?_enter (env : Environment F) (bindings : List (String × Cell)) (name : String) :
    (env.enter bindings).lookup? name = (bindings.lookup name).or (env.lookup? name) := by
  rw [lookup?, enter_locals, List.findSome?_cons, Frame.find?_ofList]
  cases bindings.lookup name <;> rfl

theorem Grown.lookup?_eq {env env' : Environment F} {news : List (String × Cell)}
    {bytes : ByteArray} (h : Grown env news bytes env') (name : String) :
    env'.lookup? name = (env.lookup? name).or (news.lookup name) := by
  rw [lookup?, h.locals_eq, h.globals.find?_eq, lookup?, Option.or_assoc]

theorem Grown.isGloballyBound_eq {env env' : Environment F} {news : List (String × Cell)}
    {bytes : ByteArray} (h : Grown env news bytes env') (name : String) :
    env'.isGloballyBound name = (env.isGloballyBound name || (news.lookup name).isSome) := by
  rw [isGloballyBound, Frame.contains, h.globals.find?_eq, Option.isSome_or]
  rfl

end

/-! ## Likeness -/

/-- Two environments that cannot be told apart by an evaluation. -/
structure LooksLike (env : Environment F) (env' : Environment G) : Prop where
  lookup?_eq : ∀ name, Operator.isReserved name = false → env.lookup? name = env'.lookup? name
  isGloballyBound_eq : ∀ name, Operator.isReserved name = false →
    env.isGloballyBound name = env'.isGloballyBound name
  /-- How much a sink takes is decided by its room alone. -/
  room_eq : env.output.room = env'.output.room
  refusal_eq : env.output.refusal = env'.output.refusal

/-- Two runs have done the same: they have made the same definitions in the same order and printed
the same bytes, and they have left environments that look alike. -/
structure DidAlike (env : Environment F) (env' : Environment G) (last : Environment F)
    (last' : Environment G) (news : List (String × Cell)) (bytes : ByteArray) : Prop where
  grown : env.Grown news bytes last
  grown' : env'.Grown news bytes last'
  looksLike : last.LooksLike last'

namespace LooksLike

variable [LawfulFrame F] [LawfulFrame G] {env : Environment F} {env' : Environment G}

theorem of_grown (h : env.LooksLike env') {last : Environment F} {last' : Environment G}
    {news : List (String × Cell)} {bytes : ByteArray} (hgrown : env.Grown news bytes last)
    (hgrown' : env'.Grown news bytes last') (hroom : last.output.room = last'.output.room) :
    last.LooksLike last' where
  lookup?_eq name hname := by
    rw [hgrown.lookup?_eq, hgrown'.lookup?_eq, h.lookup?_eq name hname]
  isGloballyBound_eq name hname := by
    rw [hgrown.isGloballyBound_eq, hgrown'.isGloballyBound_eq, h.isGloballyBound_eq name hname]
  room_eq := hroom
  refusal_eq := by rw [hgrown.refusal_eq, hgrown'.refusal_eq, h.refusal_eq]

omit [LawfulFrame F] [LawfulFrame G] in
theorem record (h : env.LooksLike env') (event event' : Event) :
    (env.record event).LooksLike (env'.record event') :=
  ⟨h.lookup?_eq, h.isGloballyBound_eq, h.room_eq, h.refusal_eq⟩

theorem enter (h : env.LooksLike env') (bindings : List (String × Cell)) :
    (env.enter bindings).LooksLike (env'.enter bindings) where
  lookup?_eq name hname := by
    rw [lookup?_enter, lookup?_enter, h.lookup?_eq name hname]
  isGloballyBound_eq := h.isGloballyBound_eq
  room_eq := h.room_eq
  refusal_eq := h.refusal_eq

end LooksLike

theorem DidAlike.refl {env : Environment F} {env' : Environment G} (h : env.LooksLike env') :
    DidAlike env env' env env' [] .empty :=
  ⟨.refl env, .refl env', h⟩

theorem DidAlike.trans {env mid last : Environment F} {env' mid' last' : Environment G}
    {news news' : List (String × Cell)} {bytes bytes' : ByteArray}
    (h : DidAlike env env' mid mid' news bytes) (h' : DidAlike mid mid' last last' news' bytes') :
    DidAlike env env' last last' (news ++ news') (bytes ++ bytes') :=
  ⟨h.grown.trans h'.grown, h.grown'.trans h'.grown', h'.looksLike⟩

end Environment

/-! ## Runs that end alike -/

/-- Two actions that do the same in environments that look alike. -/
def SeesAlike : ActionRel F G := fun _ Q x y =>
  ∀ (env : Environment F) (env' : Environment G), env.LooksLike env' →
    Outcome.Same Q (fun last last' => ∃ news bytes, env.DidAlike env' last last' news bytes)
      (x env) (y env')

namespace SeesAlike

open Environment

theorem bind {A B : Type} {Q : A → Prop} {Q' : B → Prop} {x : EvalM F A} {y : EvalM G A}
    {f : A → EvalM F B} {g : A → EvalM G B} (h : SeesAlike Q x y)
    (hf : ∀ a, Q a → SeesAlike Q' (f a) (g a)) : SeesAlike Q' (x >>= f) (y >>= g) := by
  intro env env' hlike
  refine (h env env' hlike).bind (fun _ _ hdid => hdid) ?_
  rintro a mid mid' ha ⟨_, _, hdid⟩
  exact (hf a ha mid mid' hdid.looksLike).mono fun _ _ ⟨_, _, hdid'⟩ => ⟨_, _, hdid.trans hdid'⟩

theorem sequenced : Sequenced (@SeesAlike F G _ _) where
  pure_rel hQ _ _ hlike := .value hQ ⟨_, _, .refl hlike⟩
  bind_rel := bind
  fail_rel _ _ _ hlike := .failure ⟨_, _, .refl hlike⟩
  exhausted_rel _ _ _ := .exhausted

theorem lookup {name : String} (hname : Operator.isReserved name = false) :
    @SeesAlike F G _ _ _ (fun _ => True) (EvalM.lookup name) (EvalM.lookup name) := by
  intro env env' hlike
  unfold EvalM.lookup
  rw [← hlike.lookup?_eq name hname]
  cases env.lookup? name with
  | some v => exact .value trivial ⟨_, _, .refl hlike⟩
  | none => exact .failure ⟨_, _, .refl hlike⟩

theorem isGloballyBound {name : String} (hname : Operator.isReserved name = false) :
    @SeesAlike F G _ _ _ (fun _ => True) (EvalM.isGloballyBound name)
      (EvalM.isGloballyBound name) := by
  intro env env' hlike
  unfold EvalM.isGloballyBound
  rw [← hlike.isGloballyBound_eq name hname]
  exact .value trivial ⟨_, _, .refl hlike⟩

theorem write (text : String) :
    @SeesAlike F G _ _ _ (fun _ => True) (EvalM.write text) (EvalM.write text) := by
  intro env env' hlike
  obtain ⟨taken, bytes, room', hwrite⟩ := Sink.write_eq env.output.room text
  have hlast : (env.printed room' bytes).LooksLike (env'.printed room' bytes) :=
    ⟨hlike.lookup?_eq, hlike.isGloballyBound_eq, rfl, hlike.refusal_eq⟩
  have hdid : env.DidAlike env' (env.printed room' bytes) (env'.printed room' bytes) [] bytes :=
    ⟨env.grown_printed room' bytes, env'.grown_printed room' bytes, hlast⟩
  unfold EvalM.write
  rw [write_eq hwrite rfl, write_eq hwrite hlike.room_eq.symm]
  cases taken with
  | true => exact .value trivial ⟨_, _, hdid⟩
  | false =>
    dsimp only
    rw [hlast.refusal_eq]
    exact .failure ⟨_, _, hdid⟩

variable [LawfulFrame F] [LawfulFrame G]

theorem define {name : String} (hname : Operator.isReserved name = false) (value : Cell) :
    @SeesAlike F G _ _ _ (fun _ => True) (EvalM.define name value)
      (EvalM.define name value) := by
  intro env env' hlike
  -- the two global frames refuse the same names
  have hfree : Frame.insert? env.globals name value = none ↔
      Frame.insert? env'.globals name value = none := by
    have hbound : (Frame.find? env.globals name).isSome = (Frame.find? env'.globals name).isSome :=
      hlike.isGloballyBound_eq name hname
    rw [LawfulFrame.insert?_eq_none_iff, LawfulFrame.insert?_eq_none_iff, hbound]
  unfold EvalM.define
  obtain ⟨globals, hinsert, hdef⟩ | ⟨hnone, hdef⟩ := env.define?_cases value hname <;>
    obtain ⟨globals', hinsert', hdef'⟩ | ⟨hnone', hdef'⟩ := env'.define?_cases value hname
  · rw [hdef, hdef']
    have hgrown := env.grown_define hname hinsert (.definedGlobal name value.kind)
    have hgrown' := env'.grown_define hname hinsert' (.definedGlobal name value.kind)
    exact .value trivial ⟨_, _, hgrown, hgrown', hlike.of_grown hgrown hgrown' hlike.room_eq⟩
  · rw [hfree.2 hnone'] at hinsert
    cases hinsert
  · rw [hfree.1 hnone] at hinsert'
    cases hinsert'
  · rw [hdef, hdef']
    exact .failure ⟨_, _, .refl hlike⟩

/-- The frame of a procedure is popped from two stacks that need not have the same shape. -/
theorem inFrame {A : Type} {Q : A → Prop} {x : EvalM F A} {y : EvalM G A}
    {bindings : List (String × Cell)} (h : SeesAlike Q x y) :
    SeesAlike Q (EvalM.inFrame bindings x) (EvalM.inFrame bindings y) := by
  intro env env' hlike
  refine (h _ _ (hlike.enter bindings)).inFrame ?_
  rintro last last' ⟨news, bytes, hgrown, hgrown', hlast⟩
  exact ⟨news, bytes, hgrown.leave, hgrown'.leave,
    hlike.of_grown hgrown.leave hgrown'.leave hlast.room_eq⟩

theorem closed : Closed (fun _ => True) (@SeesAlike F G _ _) where
  toSequenced := sequenced
  note_rel _ env env' hlike := .value trivial ⟨_, _, env.grown_record _, env'.grown_record _,
    hlike.record _ _⟩
  lookup_rel := lookup
  write_rel := write
  defineAs_rel hname h := sequenced.defineAs_rel trivial (fun _ hname => isGloballyBound hname)
    (fun _ hname value _ => define hname value) hname h
  inFrame_rel _ := inFrame

end SeesAlike

/-! ## Frames that do not matter -/

section Hidden

variable {env : Environment F} {above below : List F} {frame frame' : F}

/-- What a frame binds to reserved words does not show. -/
theorem Environment.looksLike_of_reserved (h : ∀ name, Operator.isReserved name = false →
    Frame.find? frame name = Frame.find? frame' name) :
    { env with locals := above ++ frame :: below }.LooksLike
      { env with locals := above ++ frame' :: below } where
  lookup?_eq name hname := by
    simp only [lookup?, List.findSome?_append, List.findSome?_cons, h name hname]
  isGloballyBound_eq _ _ := rfl
  room_eq := rfl
  refusal_eq := rfl

/-- A frame does not show whose names are all reserved or bound further inside. -/
theorem Environment.looksLike_of_shadowed (h : ∀ name, Operator.isReserved name = false →
    (Frame.find? frame name).isSome → ∃ inner ∈ above, (Frame.find? inner name).isSome) :
    { env with locals := above ++ frame :: below }.LooksLike
      { env with locals := above ++ below } where
  lookup?_eq name hname := by
    simp only [lookup?, List.findSome?_append, List.findSome?_cons]
    cases hframe : Frame.find? frame name with
    | none => rfl
    | some v =>
      obtain ⟨inner, hinner, hsome⟩ := h name hname (by rw [hframe]; rfl)
      have habove : (above.findSome? fun frame => Frame.find? frame name).isSome :=
        List.findSome?_isSome_iff.2 ⟨inner, hinner, hsome⟩
      obtain ⟨w, hw⟩ := Option.isSome_iff_exists.1 habove
      simp [hw]
  isGloballyBound_eq _ _ := rfl
  room_eq := rfl
  refusal_eq := rfl

end Hidden

/-! ## A body under no clauses -/

/-- An expression as the body of a `let` without clauses. -/
def emptyLet (expr : Cell) : Cell :=
  .ofList [.symbol Operator.letIn.name, .nil, expr]

omit [Frame F] in
theorem Evaluator.sequence_singleton (self : Evaluator F) (expr : Cell) :
    self.sequence [expr] = self.operand expr := by
  simp [sequence]

/-- The clauses take two tasks, the form itself and its head, and then the body has a frame. -/
theorem evaluate_emptyLet (budget : Nat) (expr : Cell) (env : Environment F) :
    evaluate (budget + 2) (emptyLet expr) env =
      EvalM.inFrame [] ((run (budget + 1)).operand expr)
        ((env.record (.evaluate .pair env.depth)).record (.evaluate .symbol env.depth)) := by
  rw [← Evaluator.sequence_singleton]
  rfl

open Environment

variable [LawfulFrame F] [LawfulFrame G]

theorem Environment.LooksLike.enter_nil (env : Environment F) (event event' : Event) :
    env.LooksLike (((env.record event).record event').enter []) where
  lookup?_eq name _ := (lookup?_enter ((env.record event).record event') [] name).symm
  isGloballyBound_eq _ _ := rfl
  room_eq := rfl
  refusal_eq := rfl

/-- Two runs end alike: in the same way, after the same definitions in the same order and the same
output, and in environments that look alike. -/
def Environment.EndAlike (env : Environment F) (env' : Environment G) :
    Outcome (Environment F) Cell → Outcome (Environment G) Cell → Prop :=
  Outcome.Same (fun _ => True) fun last last' =>
    ∃ news bytes, env.DidAlike env' last last' news bytes

theorem endAlike_of_looksLike {env : Environment F} {env' : Environment G} (h : env.LooksLike env')
    (budget : Nat) (expr : Cell) :
    env.EndAlike env' (evaluate budget expr env) (evaluate budget expr env') := by
  have hclosed := SeesAlike.closed (F := F) (G := G)
  have hrun := hclosed.evaluate_run .all budget (.inl trivial : Passing (fun _ => True) expr)
  exact hclosed.mono_rel hrun (fun _ _ => trivial) env env' h

theorem endAlike_emptyLet (budget : Nat) {expr : Cell} (h : expr ≠ .nil) (env : Environment F) :
    env.EndAlike env (evaluate budget expr env) (evaluate (budget + 1) (emptyLet expr) env) := by
  cases budget with
  | zero =>
    have hleft : evaluate 0 expr env = .exhausted := by
      rw [evaluate, Evaluator.evaluate_of_ne_nil _ h]
      rfl
    rw [hleft]
    exact .exhausted
  | succ budget =>
    let env' := (env.record (.evaluate .pair env.depth)).record (.evaluate .symbol env.depth)
    have hsame := endAlike_of_looksLike (LooksLike.enter_nil env (.evaluate .pair env.depth)
      (.evaluate .symbol env.depth)) (budget + 1) expr
    -- what happened in the empty frame happened to the environment around it
    have hpop (last last' : Environment F)
        (hdid : ∃ news bytes, env.DidAlike (env'.enter []) last last' news bytes) :
        ∃ news bytes, env.DidAlike env last last'.pop news bytes := by
      obtain ⟨news, bytes, hgrown, hgrown', hlast⟩ := hdid
      have hgrown'' : env.Grown news bytes last'.pop :=
        ⟨hgrown'.leave.locals_eq, hgrown'.leave.globals, hgrown.bindable, hgrown'.leave.written_eq,
          hgrown'.leave.refusal_eq⟩
      have hlike : env.LooksLike env := ⟨fun _ _ => rfl, fun _ _ => rfl, rfl, rfl⟩
      exact ⟨news, bytes, hgrown, hgrown'', hlike.of_grown hgrown hgrown'' hlast.room_eq⟩
    rw [evaluate_emptyLet, inFrame_apply]
    rw [evaluate, Evaluator.evaluate_of_ne_nil _ h] at hsame ⊢
    generalize (run (budget + 1)).operand expr env = o,
      (run (budget + 1)).operand expr (env'.enter []) = o' at hsame
    cases hsame with
    | value _ hdid => exact .value trivial (hpop _ _ hdid)
    | failure hdid => exact .failure (hpop _ _ hdid)
    | exhausted => exact .exhausted

/-- **An evaluation sees its environment only through the visible bindings.**  In environments that
look alike every expression ends alike, with the same budget.  So nothing depends on what a frame
binds to reserved words, on a frame that is shadowed throughout, or on an empty frame such as that
of a `let` without clauses. -/
theorem evaluation_sees_visible_bindings :
    (∀ (budget : Nat) (expr : Cell) (env : Environment F) (env' : Environment G),
      env.LooksLike env' →
      env.EndAlike env' (evaluate budget expr env) (evaluate budget expr env')) ∧
    (∀ (budget : Nat) (expr : Cell) (env : Environment F) (above below : List F) (frame frame' : F),
      (∀ name, Operator.isReserved name = false →
        Frame.find? frame name = Frame.find? frame' name) →
      Environment.EndAlike { env with locals := above ++ frame :: below }
        { env with locals := above ++ frame' :: below }
        (evaluate budget expr { env with locals := above ++ frame :: below })
        (evaluate budget expr { env with locals := above ++ frame' :: below })) ∧
    (∀ (budget : Nat) (expr : Cell) (env : Environment F) (above below : List F) (frame : F),
      (∀ name, Operator.isReserved name = false → (Frame.find? frame name).isSome →
        ∃ inner ∈ above, (Frame.find? inner name).isSome) →
      Environment.EndAlike { env with locals := above ++ frame :: below }
        { env with locals := above ++ below }
        (evaluate budget expr { env with locals := above ++ frame :: below })
        (evaluate budget expr { env with locals := above ++ below })) ∧
    ∀ (budget : Nat) (expr : Cell) (env : Environment F), expr ≠ .nil →
      env.EndAlike env (evaluate budget expr env) (evaluate (budget + 1) (emptyLet expr) env) := by
  refine ⟨fun budget expr env env' h => ?_, fun budget expr env above below frame frame' h => ?_,
    fun budget expr env above below frame h => ?_, fun budget expr env h => ?_⟩
  · exact endAlike_of_looksLike h budget expr
  · exact endAlike_of_looksLike (looksLike_of_reserved h) budget expr
  · exact endAlike_of_looksLike (looksLike_of_shadowed h) budget expr
  · exact endAlike_emptyLet budget h env

/-- Under a frame that binds `x` neither a shadowed `x`, a binding of a reserved word, an empty
frame nor the container shows. -/
theorem evaluation_sees_visible_bindings_only :
    let env : Environment OrderedFrame :=
      { Environment.fresh .unlimited with
        locals := [Frame.ofList [("x", .integer 1)],
          Frame.ofList [("x", .integer 2), ("if", .integer 3)], Frame.empty] }
    let env' : Environment HashFrame :=
      { Environment.fresh .unlimited with locals := [Frame.ofList [("x", .integer 1)]] }
    let expr : Cell := .ofList [.symbol "define", .symbol "y", .symbol "x"]
    env.LooksLike env' ∧ env.EndAlike env' (evaluate 3 expr env) (evaluate 3 expr env') := by
  intro env env' expr
  have hlike : env.LooksLike env' := by
    refine ⟨fun name hname => ?_, fun name _ => ?_, rfl, rfl⟩
    · have hif : name ≠ "if" := by
        rintro rfl
        cases hname
      by_cases hx : name = "x"
      · simp [env, env', Environment.lookup?, Frame.find?_ofList, hx]
      · simp [env, env', Environment.lookup?, Environment.fresh, Frame.find?_ofList,
          List.lookup_cons, LawfulFrame.find?_empty, beq_false_of_ne hx, beq_false_of_ne hif]
    · simp [env, env', Environment.isGloballyBound, Environment.fresh, Frame.contains,
        LawfulFrame.find?_empty]
  exact ⟨hlike, evaluation_sees_visible_bindings.1 3 expr env env' hlike⟩

end ConsLisp

import ConsLisp.Frame.Containers
import ConsLisp.Proofs.Calling
import ConsLisp.Proofs.Ledger

/-!
# The record of events

The record of a run can be read like a text with brackets.  A frame is pushed only by an application
that has just been noted, and it is popped once, at the depth that was noted.  `Event.Bracketed` is
the grammar of such texts and `Event.Placed` is what it says of a single event in its place
(`Event.Bracketed.placed`).

Everything that one action records is bracketed at the depth of the stack, and reports the
definitions that it makes, in their order (`Environment.Noted`).  This is kept by sequencing, and
the body of a procedure is where a bracket comes from (`Environment.Noted.leave`), so it is true of
every run (`StaysOnRecord.closed`).
-/

namespace ConsLisp

/-! ## Bracketed records -/

namespace Event

def isPush : Event → Bool
  | pushedFrame _ => true
  | _ => false

def isPop : Event → Bool
  | poppedFrame _ => true
  | _ => false

/-- Records that begin and end at a depth of the stack and do not go below it. -/
inductive Bracketed : Nat → List Event → Prop
  | nil {depth : Nat} : Bracketed depth []
  | evaluate {depth : Nat} {kind : Kind} {rest : List Event} :
    Bracketed depth rest → Bracketed depth (.evaluate kind depth :: rest)
  | definedGlobal {depth : Nat} {name : String} {kind : Kind} {rest : List Event} :
    Bracketed depth rest → Bracketed depth (.definedGlobal name kind :: rest)
  | applied {depth bindings : Nat} {inner rest : List Event} :
    Bracketed (depth + 1) inner → Bracketed depth rest →
    Bracketed depth (.applyingProcedure bindings depth :: .pushedFrame (depth + 1) ::
      (inner ++ .poppedFrame depth :: rest))

/-- What is known of an event between those `before` it and those `after` it, in a record that
begins at the depth `base`.  Depths are those of the stack, which is `base` and what has been pushed
less what has been popped.  An application is followed by the push of its frame, and after a
bracketed record inside by the pop that belongs to it, the first one down to its depth.  There is no
other push, and no other pop. -/
def Placed (base : Nat) (before : List Event) (event : Event) (after : List Event) : Prop :=
  match event with
  | evaluate _ depth => depth + before.countP isPop = base + before.countP isPush
  | definedGlobal _ _ => True
  | applyingProcedure _ depth =>
    depth + before.countP isPop = base + before.countP isPush ∧
      ∃ inner rest, after = pushedFrame (depth + 1) :: (inner ++ poppedFrame depth :: rest) ∧
        Bracketed (depth + 1) inner ∧ ∀ lower, poppedFrame lower ∈ inner → depth < lower
  | pushedFrame depth =>
    ∃ outer bindings below, depth = below + 1 ∧
      before = outer ++ [applyingProcedure bindings below]
  | poppedFrame depth =>
    ∃ outer bindings inner,
      before = outer ++ applyingProcedure bindings depth :: pushedFrame (depth + 1) :: inner ∧
        Bracketed (depth + 1) inner

namespace Bracketed

variable {depth : Nat} {events : List Event}

theorem append {more : List Event} (h : Bracketed depth events) (h' : Bracketed depth more) :
    Bracketed depth (events ++ more) := by
  induction h with
  | nil => exact h'
  | evaluate _ ih => exact (ih h').evaluate
  | definedGlobal _ ih => exact (ih h').definedGlobal
  | applied hinner _ _ ih =>
    rw [List.cons_append, List.cons_append, List.append_assoc, List.cons_append]
    exact hinner.applied (ih h')

/-- As much is pushed as is popped. -/
theorem countP_eq (h : Bracketed depth events) : events.countP isPush = events.countP isPop := by
  induction h with
  | nil => rfl
  | evaluate _ ih => simpa [isPush, isPop] using ih
  | definedGlobal _ ih => simpa [isPush, isPop] using ih
  | applied _ _ ihinner ihrest =>
    simp only [List.countP_cons, List.countP_append, isPush, isPop, ihinner, ihrest,
      Bool.false_eq_true, ↓reduceIte]
    omega

theorem le_of_popped_mem (h : Bracketed depth events) {lower : Nat}
    (hmem : poppedFrame lower ∈ events) : depth ≤ lower := by
  induction h with
  | nil => cases hmem
  | evaluate _ ih => exact ih (by simpa using hmem)
  | definedGlobal _ ih => exact ih (by simpa using hmem)
  | applied _ _ ihinner ihrest =>
    simp only [List.mem_cons, reduceCtorEq, List.mem_append, poppedFrame.injEq, false_or] at hmem
    rcases hmem with hmem | rfl | hmem
    · exact Nat.le_of_succ_le (ihinner hmem)
    · exact Nat.le_refl _
    · exact ihrest hmem

end Bracketed

/-- An event keeps its place when more stands around, as long as the depth is accounted for. -/
theorem Placed.widen {base base' : Nat} {before after : List Event} {event : Event}
    (h : event.Placed base before after) (outer rest : List Event)
    (hbase : base + outer.countP isPop = base' + outer.countP isPush) :
    event.Placed base' (outer ++ before) (after ++ rest) := by
  cases event with
  | evaluate kind depth =>
    have hdepth : depth + before.countP isPop = base + before.countP isPush := h
    show depth + (outer ++ before).countP isPop = base' + (outer ++ before).countP isPush
    rw [List.countP_append, List.countP_append]
    omega
  | definedGlobal name kind => trivial
  | applyingProcedure bindings depth =>
    obtain ⟨hdepth, inner, later, rfl, hinner, hlower⟩ := h
    refine ⟨?_, inner, later ++ rest, by simp, hinner, hlower⟩
    rw [List.countP_append, List.countP_append]
    omega
  | pushedFrame depth =>
    obtain ⟨outer', bindings, below, hdepth, rfl⟩ := h
    exact ⟨outer ++ outer', bindings, below, hdepth, (List.append_assoc _ _ _).symm⟩
  | poppedFrame depth =>
    obtain ⟨outer', bindings, inner, rfl, hinner⟩ := h
    exact ⟨outer ++ outer', bindings, inner, (List.append_assoc _ _ _).symm, hinner⟩

/-- What neither pushes nor pops may come before anything. -/
theorem Placed.cons {base : Nat} {first event : Event} {before after : List Event}
    (h : event.Placed base before after) (hpush : first.isPush = false)
    (hpop : first.isPop = false) : event.Placed base (first :: before) after := by
  have hplaced : event.Placed base ([first] ++ before) (after ++ []) :=
    h.widen [first] [] (by simp [hpush, hpop])
  rwa [List.append_nil] at hplaced

/-- Every event of a bracketed record is in its place. -/
theorem Bracketed.placed {base : Nat} {events : List Event} (h : Bracketed base events)
    {before after : List Event} {event : Event} (heq : events = before ++ event :: after) :
    event.Placed base before after := by
  induction h generalizing before after with
  | nil => simp at heq
  | evaluate _ ih | definedGlobal _ ih =>
    cases before with
    | nil =>
      obtain ⟨rfl, -⟩ := List.cons_eq_cons.1 heq
      simp [Placed]
    | cons first before =>
      obtain ⟨rfl, hrest⟩ := List.cons_eq_cons.1 heq
      exact (ih hrest).cons rfl rfl
  | @applied depth bindings inner rest hinner _ ihinner ihrest =>
    rcases before with _ | ⟨first, _ | ⟨second, before⟩⟩
    · obtain ⟨rfl, rfl⟩ := List.cons_eq_cons.1 heq
      exact ⟨rfl, inner, rest, rfl, hinner, fun _ hmem => hinner.le_of_popped_mem hmem⟩
    · obtain ⟨rfl, htail⟩ := List.cons_eq_cons.1 heq
      obtain ⟨rfl, -⟩ := List.cons_eq_cons.1 htail
      exact ⟨[], bindings, depth, rfl, rfl⟩
    · obtain ⟨rfl, htail⟩ := List.cons_eq_cons.1 heq
      obtain ⟨rfl, hsplit⟩ := List.cons_eq_cons.1 htail
      -- the event is inside the frame, or it is the pop, or it comes after it
      rcases List.append_eq_append_iff.1 hsplit with ⟨past, rfl, hpast⟩ | ⟨inside, rfl, hinside⟩
      · rcases past with _ | ⟨popped, past⟩
        · obtain ⟨rfl, -⟩ := List.cons_eq_cons.1 hpast
          exact ⟨[], bindings, inner, by simp, hinner⟩
        · obtain ⟨rfl, hrest⟩ := List.cons_eq_cons.1 hpast
          let call := .applyingProcedure bindings depth :: .pushedFrame (depth + 1) ::
            (inner ++ [.poppedFrame depth])
          have hcall : Bracketed depth call := hinner.applied .nil
          have hplaced : event.Placed depth (call ++ past) (after ++ []) :=
            (ihrest hrest).widen call [] (by rw [hcall.countP_eq])
          simpa [call] using hplaced
      · rcases inside with _ | ⟨first, inside⟩
        · obtain ⟨rfl, -⟩ := List.cons_eq_cons.1 hinside
          exact ⟨[], bindings, before, by simp, by simpa using hinner⟩
        · obtain ⟨rfl, rfl⟩ := List.cons_eq_cons.1 hinside
          exact (ihinner rfl).widen [.applyingProcedure bindings depth, .pushedFrame (depth + 1)]
            (.poppedFrame depth :: rest) rfl

end Event

/-! ## What an action records -/

variable {F : Type} [Frame F]

namespace Environment

/-- On the way from `env` to `last` the definitions `news` were made and `events` were recorded.
The events are bracketed and report these definitions. -/
structure Noted (env last : Environment F) (news : List (String × Cell)) (events : List Event) :
    Prop where
  grown : ∃ bytes, env.Grown news bytes last
  events_eq : last.events.toList = env.events.toList ++ events
  bracketed : Event.Bracketed env.depth events
  definitions_eq : events.filterMap Event.definition? = news.map fun b => (b.1, b.2.kind)

/-- The way from one environment to the other is on record. -/
def OnRecord (env last : Environment F) : Prop :=
  ∃ news events, env.Noted last news events

namespace Noted

variable {env mid last : Environment F} {news news' : List (String × Cell)}
  {events events' : List Event}

theorem trans (h : env.Noted mid news events) (h' : mid.Noted last news' events') :
    env.Noted last (news ++ news') (events ++ events') := by
  obtain ⟨_, hgrown⟩ := h.grown
  obtain ⟨_, hgrown'⟩ := h'.grown
  refine ⟨⟨_, hgrown.trans hgrown'⟩, ?_, ?_, ?_⟩
  · rw [h'.events_eq, h.events_eq, List.append_assoc]
  · exact h.bracketed.append (hgrown.depth_eq ▸ h'.bracketed)
  · rw [List.filterMap_append, h.definitions_eq, h'.definitions_eq, List.map_append]

/-- What is recorded inside a frame is put in brackets by its push and its pop. -/
theorem leave {bindings : List (String × Cell)}
    (h : (env.enter bindings).Noted last news events) :
    env.Noted last.pop news
      (.applyingProcedure (Frame.size (Frame.ofList bindings : F)) env.depth ::
        .pushedFrame (env.depth + 1) :: (events ++ [.poppedFrame env.depth])) := by
  obtain ⟨bytes, hgrown⟩ := h.grown
  have hdepth : last.pop.depth = env.depth := hgrown.leave.depth_eq
  refine ⟨⟨bytes, hgrown.leave⟩, ?_, h.bracketed.applied .nil, ?_⟩
  · have hpop : last.pop.events.toList = last.events.toList ++ [.poppedFrame last.pop.depth] := by
      simp [pop, record, depth]
    rw [hpop, hdepth, h.events_eq]
    simp [enter, push, record, depth]
  · simp [List.filterMap_cons, Event.definition?, h.definitions_eq]

end Noted

namespace OnRecord

theorem refl (env : Environment F) : env.OnRecord env :=
  ⟨[], [], ⟨_, .refl env⟩, (List.append_nil _).symm, .nil, rfl⟩

theorem trans {env mid last : Environment F} (h : env.OnRecord mid) (h' : mid.OnRecord last) :
    env.OnRecord last := by
  obtain ⟨_, _, h⟩ := h
  obtain ⟨_, _, h'⟩ := h'
  exact ⟨_, _, h.trans h'⟩

end OnRecord

end Environment

/-- All that the first action does is on record. -/
def StaysOnRecord : ActionRel F F := fun _ Q x _ =>
  ∀ env : Environment F,
    (x env).Ends (fun a last => Q a ∧ env.OnRecord last) fun _ last => env.OnRecord last

namespace StaysOnRecord

theorem bind {A B : Type} {Q : A → Prop} {Q' : B → Prop} {x y : EvalM F A} {f g : A → EvalM F B}
    (h : StaysOnRecord Q x y) (hf : ∀ a, Q a → StaysOnRecord Q' (f a) (g a)) :
    StaysOnRecord Q' (x >>= f) (y >>= g) := by
  intro env
  have hends := h env
  rw [EvalM.bind_apply]
  cases hx : x env with
  | value a mid =>
    rw [hx] at hends
    obtain ⟨ha, hmid⟩ := hends
    exact (hf a ha mid).mono (fun _ _ h => ⟨h.1, hmid.trans h.2⟩) fun _ _ h => hmid.trans h
  | failure e last =>
    rw [hx] at hends
    exact hends
  | exhausted => trivial

theorem sequenced : Sequenced (StaysOnRecord (F := F)) where
  pure_rel hQ env := ⟨hQ, .refl env⟩
  bind_rel := bind
  fail_rel _ env := .refl env
  exhausted_rel _ := trivial

theorem noteEvaluate (expr : Cell) : StaysOnRecord (F := F) (fun _ => True)
    (EvalM.noteEvaluate expr) (EvalM.noteEvaluate expr) := by
  intro env
  refine ⟨trivial, [], [.evaluate expr.kind env.depth], ⟨_, env.grown_record _⟩, ?_,
    Event.Bracketed.nil.evaluate, rfl⟩
  exact Array.toList_push

theorem lookup (name : String) :
    StaysOnRecord (F := F) (fun _ => True) (EvalM.lookup name) (EvalM.lookup name) := by
  intro env
  unfold EvalM.lookup
  cases env.lookup? name with
  | some v => exact ⟨trivial, .refl env⟩
  | none => exact .refl env

theorem write (text : String) :
    StaysOnRecord (F := F) (fun _ => True) (EvalM.write text) (EvalM.write text) := by
  intro env
  obtain ⟨taken, bytes, room', hwrite⟩ := Sink.write_eq env.output.room text
  have hrecord : env.OnRecord (env.printed room' bytes) :=
    ⟨[], [], ⟨bytes, env.grown_printed room' bytes⟩, (List.append_nil _).symm, .nil, rfl⟩
  unfold EvalM.write
  rw [Environment.write_eq hwrite rfl]
  cases taken with
  | true => exact ⟨trivial, hrecord⟩
  | false => exact hrecord

/-- A definition is made where it is reported. -/
theorem define {name : String} (hname : Operator.isReserved name = false) (value : Cell) :
    StaysOnRecord (F := F) (fun _ => True) (EvalM.define name value)
      (EvalM.define name value) := by
  intro env
  unfold EvalM.define
  obtain ⟨globals, hinsert, hdef⟩ | ⟨-, hdef⟩ := env.define?_cases value hname
  · rw [hdef]
    refine ⟨trivial, [(name, value)], [.definedGlobal name value.kind],
      ⟨_, env.grown_define hname hinsert _⟩, ?_, Event.Bracketed.nil.definedGlobal, rfl⟩
    exact Array.toList_push
  · rw [hdef]
    exact .refl env

theorem inFrame {A : Type} {Q : A → Prop} {bindings : List (String × Cell)} {x y : EvalM F A}
    (h : StaysOnRecord Q x y) :
    StaysOnRecord Q (EvalM.inFrame bindings x) (EvalM.inFrame bindings y) := by
  intro env
  have hends := h (env.enter bindings)
  rw [Environment.inFrame_apply]
  cases hx : x (env.enter bindings) with
  | value a last =>
    rw [hx] at hends
    obtain ⟨ha, _, _, hlast⟩ := hends
    exact ⟨ha, _, _, hlast.leave⟩
  | failure e last =>
    rw [hx] at hends
    obtain ⟨_, _, hlast⟩ := hends
    exact ⟨_, _, hlast.leave⟩
  | exhausted => trivial

theorem closed : Closed (fun _ => True) (StaysOnRecord (F := F)) where
  toSequenced := sequenced
  note_rel := noteEvaluate
  lookup_rel _ := lookup _
  write_rel := write
  defineAs_rel hname h := sequenced.defineAs_rel trivial (fun _ _ env => ⟨trivial, .refl env⟩)
    (fun _ hname value _ => define hname value) hname h
  inFrame_rel _ := inFrame

end StaysOnRecord

/-! ## The whole run -/

/-- `events` is a faithful record of the way from `env` to `last`.  Every event is in its place, so
that pushes and pops are matched and depths are true, and the definitions that are reported are
`news`, which are exactly what is bound in addition, each name once. -/
structure Environment.FaithfullyRecorded (env last : Environment F) (events : List Event)
    (news : List (String × Cell)) : Prop where
  events_eq : last.events.toList = env.events.toList ++ events
  placed : ∀ before event after, events = before ++ event :: after →
    event.Placed env.depth before after
  definitions_eq : events.filterMap Event.definition? = news.map fun b => (b.1, b.2.kind)
  nodup : (news.map Prod.fst).Nodup
  mem_iff : ∀ name value, (name, value) ∈ news ↔
    Frame.find? last.globals name = some value ∧ Frame.find? env.globals name = none

theorem Environment.Noted.faithfullyRecorded [LawfulFrame F] {env last : Environment F}
    {news : List (String × Cell)} {events : List Event} (h : env.Noted last news events) :
    env.FaithfullyRecorded last events news := by
  obtain ⟨_, hgrown⟩ := h.grown
  refine ⟨h.events_eq, fun _ _ _ heq => h.bracketed.placed heq, h.definitions_eq,
    hgrown.globals.nodup, fun name value => ⟨fun hmem => ⟨?_, ?_⟩, ?_⟩⟩
  · exact hgrown.globals.find?_of_mem hmem
  · exact hgrown.globals.free (List.mem_map.2 ⟨(name, value), hmem, rfl⟩)
  · rintro ⟨hlast, hfree⟩
    obtain hold | ⟨-, hmem⟩ := hgrown.globals.find?_cases hlast
    · rw [hfree] at hold
      cases hold
    · exact hmem

theorem Environment.FaithfullyRecorded.plain {env : Environment F} {logged : Environment (Ledger F)}
    {events : List Event} {news : List (String × Cell)}
    (h : env.withLedgers.FaithfullyRecorded logged events news) :
    env.FaithfullyRecorded logged.plain events news where
  events_eq := h.events_eq
  placed before event after heq := by
    have hplaced := h.placed before event after heq
    rwa [Environment.withLedgers, Environment.mapFrames_depth] at hplaced
  definitions_eq := h.definitions_eq
  nodup := h.nodup
  mem_iff := h.mem_iff

theorem Environment.onRecord_of_evaluate {budget : Nat} {expr : Cell} {env last : Environment F}
    (h : (evaluate budget expr env).state? = some last) : env.OnRecord last := by
  have hends := StaysOnRecord.closed.evaluate_run .all budget
    (.inl trivial : Passing (fun _ => True) expr) env
  cases hrun : evaluate budget expr env with
  | value v last' =>
    rw [hrun] at hends h
    obtain rfl := Option.some.inj h
    exact hends.2
  | failure e last' =>
    rw [hrun] at hends h
    obtain rfl := Option.some.inj h
    exact hends
  | exhausted =>
    rw [hrun] at h
    cases h

/-- **The record of events is faithful.**  Whatever a run records, ending in a value or in an error,
tells of every frame that comes and goes, at which depth everything happens, and what is defined.
The order in which it reports definitions is the order in which they were made: the same run with
ledgers has them written down like this. -/
theorem events_record_stack_and_definitions [LawfulFrame F] {budget : Nat} {expr : Cell}
    {env last : Environment F} (h : (evaluate budget expr env).state? = some last) :
    ∃ events news, env.FaithfullyRecorded last events news ∧
      (evaluate budget expr env.withLedgers).mapState Environment.plain =
        evaluate budget expr env ∧
      ∃ logged, (evaluate budget expr env.withLedgers).state? = some logged ∧
        logged.made = news := by
  have hplain : (evaluate budget expr env.withLedgers).mapState Environment.plain =
      evaluate budget expr env :=
    (Environment.plain_simulation.closed.evaluate_run .all budget
      (.inl trivial : Passing (fun _ => True) expr) env env.withLedgers
      env.plain_withLedgers).mapState_eq
  -- the run with ledgers ends as this one does, and its definitions are written down
  obtain ⟨logged, hlogged, rfl⟩ : ∃ logged,
      (evaluate budget expr env.withLedgers).state? = some logged ∧ logged.plain = last := by
    rw [← hplain] at h
    cases hrun : evaluate budget expr env.withLedgers with
    | value v logged =>
      rw [hrun] at h
      exact ⟨logged, rfl, Option.some.inj h⟩
    | failure e logged =>
      rw [hrun] at h
      exact ⟨logged, rfl, Option.some.inj h⟩
    | exhausted =>
      rw [hrun] at h
      cases h
  obtain ⟨news, events, hnoted⟩ := Environment.onRecord_of_evaluate hlogged
  obtain ⟨_, hgrown⟩ := hnoted.grown
  refine ⟨events, news, hnoted.faithfullyRecorded.plain, hplain, logged, hlogged, ?_⟩
  exact Ledger.made_of_adds hgrown.globals

/-- A procedure defines a name and then fails, and its frame is popped all the same. -/
theorem events_record_stack_and_definitions_of_failed_call :
    let env : Environment OrderedFrame := Environment.fresh .unlimited
    let body : List Cell := [Operator.define.form [.symbol "y", .symbol "x"], .symbol "z"]
    let expr : Cell := .ofList [.procedure (.ofList [.symbol "x"]) body, .integer 1]
    ∃ last events news, evaluate 4 expr env = .failure (.unboundSymbol "z") last ∧
      env.FaithfullyRecorded last events news ∧ ("y", .integer 1) ∈ news ∧
      events = [.evaluate .pair 1, .evaluate .procedure 1, .evaluate .integer 1,
        .applyingProcedure 1 1, .pushedFrame 2, .evaluate .pair 2, .evaluate .symbol 2,
        .evaluate .symbol 2, .definedGlobal "y" .integer, .evaluate .symbol 2, .poppedFrame 1] := by
  intro env body expr
  obtain ⟨last, hrun, hy, hrecord⟩ : ∃ last,
      evaluate 4 expr env = .failure (.unboundSymbol "z") last ∧
        Frame.find? last.globals "y" = some (.integer 1) ∧
        last.events.toList = [.evaluate .pair 1, .evaluate .procedure 1, .evaluate .integer 1,
          .applyingProcedure 1 1, .pushedFrame 2, .evaluate .pair 2, .evaluate .symbol 2,
          .evaluate .symbol 2, .definedGlobal "y" .integer, .evaluate .symbol 2,
          .poppedFrame 1] := ⟨_, rfl, rfl, rfl⟩
  have hstate : (evaluate 4 expr env).state? = some last := by
    rw [hrun]
    rfl
  obtain ⟨events, news, hfaithful, -⟩ := events_record_stack_and_definitions hstate
  have hevents : last.events.toList = events := hfaithful.events_eq
  exact ⟨last, events, news, hrun, hfaithful, (hfaithful.mem_iff _ _).2 ⟨hy, rfl⟩,
    hevents.symm.trans hrecord⟩

end ConsLisp

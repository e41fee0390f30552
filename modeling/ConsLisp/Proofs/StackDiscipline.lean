import ConsLisp.Frame.Containers
import ConsLisp.Proofs.Watch

/-!
# Stack discipline

However an evaluation ends, it leaves the stack as it was, and it only adds to the global frame and
to the output.  The same holds at every moment on the way, and so a parameter keeps standing for its
argument as long as its frame is the innermost one.

Both facts are one closed relation, `KeepsStack base`, between a run and its watched copy: started
on a stack that extends `base`, they do the same and leave the stack alone.
-/

namespace ConsLisp

variable {F : Type} [Frame F]

/-- On a stack that extends `base`, the second action does what the first one does, and that is
growth of the environment. -/
def KeepsStack (base : List F) : ActionRel F F := fun _ Q x y =>
  ∀ env : Environment F, base <:+ env.locals → y env = x env ∧
    (x env).Ends (fun a env' => Q a ∧ env.Grows env') (fun _ env' => env.Grows env')

namespace KeepsStack

variable {base : List F}

theorem bind {A B : Type} {Q : A → Prop} {Q' : B → Prop} {x y : EvalM F A} {f g : A → EvalM F B}
    (h : KeepsStack base Q x y) (hf : ∀ a, Q a → KeepsStack base Q' (f a) (g a)) :
    KeepsStack base Q' (x >>= f) (y >>= g) := by
  intro env hbase
  obtain ⟨heq, hends⟩ := h env hbase
  rw [EvalM.bind_apply, EvalM.bind_apply, heq]
  cases hx : x env with
  | value a env₁ =>
    rw [hx] at hends
    obtain ⟨ha, hgrows⟩ := hends
    obtain ⟨heq', hends'⟩ := hf a ha env₁ (hgrows.locals_eq ▸ hbase)
    refine ⟨heq', ?_⟩
    dsimp only
    cases hfa : f a env₁ with
    | value b env₂ =>
      rw [hfa] at hends'
      exact ⟨hends'.1, hgrows.trans hends'.2⟩
    | failure e env₂ =>
      rw [hfa] at hends'
      exact hgrows.trans hends'
    | exhausted => trivial
  | failure e env₁ =>
    rw [hx] at hends
    exact ⟨rfl, hends⟩
  | exhausted => exact ⟨rfl, trivial⟩

theorem sequenced : Sequenced (KeepsStack base) where
  pure_rel hQ env _ := ⟨rfl, hQ, .refl env⟩
  bind_rel := bind
  fail_rel _ env _ := ⟨rfl, .refl env⟩
  exhausted_rel _ _ := ⟨rfl, trivial⟩

theorem lookup (name : String) :
    KeepsStack base (fun _ => True) (EvalM.lookup name) (EvalM.lookup name) := by
  intro env _
  refine ⟨rfl, ?_⟩
  unfold EvalM.lookup
  cases env.lookup? name with
  | some v => exact ⟨trivial, .refl env⟩
  | none => exact .refl env

theorem write (text : String) :
    KeepsStack base (fun _ => True) (EvalM.write text) (EvalM.write text) := by
  intro env _
  refine ⟨rfl, ?_⟩
  obtain ⟨taken, bytes, room', hwrite⟩ := Sink.write_eq env.output.room text
  have hgrows : env.Grows (env.printed room' bytes) := ⟨[], bytes, env.grown_printed room' bytes⟩
  unfold EvalM.write
  rw [Environment.write_eq hwrite rfl]
  cases taken with
  | true => exact ⟨trivial, hgrows⟩
  | false => exact hgrows

theorem define (name : String) (value : Cell) :
    KeepsStack base (fun _ => True) (EvalM.define name value) (EvalM.define name value) := by
  intro env _
  refine ⟨rfl, ?_⟩
  unfold EvalM.define
  cases hname : Operator.isReserved name with
  | true =>
    rw [env.define?_of_isReserved value hname]
    exact .refl env
  | false =>
    obtain ⟨globals, hinsert, hdef⟩ | ⟨-, hdef⟩ := env.define?_cases value hname
    · rw [hdef]
      exact ⟨trivial, _, _, env.grown_define hname hinsert _⟩
    · rw [hdef]
      exact .refl env

theorem inFrame {A : Type} {Q : A → Prop} {x y : EvalM F A} {bindings : List (String × Cell)}
    (h : KeepsStack base Q x y) :
    KeepsStack base Q (EvalM.inFrame bindings x) (EvalM.inFrame bindings y) := by
  intro env hbase
  -- the environment inside extends the base too, and growth inside is growth outside
  obtain ⟨heq, hends⟩ := h (env.enter bindings)
    (hbase.trans (List.suffix_cons (Frame.ofList bindings) env.locals))
  rw [Environment.inFrame_apply, Environment.inFrame_apply, heq]
  refine ⟨rfl, ?_⟩
  cases hx : x (env.enter bindings) with
  | value a last =>
    rw [hx] at hends
    obtain ⟨ha, _, _, hgrown⟩ := hends
    exact ⟨ha, _, _, hgrown.leave⟩
  | failure e last =>
    rw [hx] at hends
    obtain ⟨_, _, hgrown⟩ := hends
    exact ⟨_, _, hgrown.leave⟩
  | exhausted => trivial

theorem closed (base : List F) : Closed (fun _ => True) (KeepsStack base) where
  toSequenced := sequenced
  note_rel _ env _ := ⟨rfl, trivial, _, _, env.grown_record _⟩
  lookup_rel _ := lookup _
  write_rel := write
  defineAs_rel hname h := sequenced.defineAs_rel trivial
    (fun _ _ env _ => ⟨rfl, trivial, .refl env⟩) (fun name _ value _ => define name value) hname h
  inFrame_rel _ := inFrame

end KeepsStack

/-- A watch that accepts every stack that extends `base` sees nothing amiss in an action that starts
on such a stack. -/
theorem KeepsStack.watched {base : List F} {p : Environment F → Prop}
    (hp : ∀ env : Environment F, base <:+ env.locals → p env) {Q : Cell → Prop} {task : Task}
    {x y : EvalM F Cell} (h : KeepsStack base Q x y) :
    KeepsStack base Q x ((Watch.always p).during task y) := by
  intro env hbase
  obtain ⟨heq, hends⟩ := h env hbase
  have hlast (env' : Environment F) (hgrows : env.Grows env') : p env' :=
    hp env' (hgrows.locals_eq ▸ hbase)
  refine ⟨?_, hends⟩
  rw [Watch.during_apply (hp env hbase), heq]
  rw [heq]
  exact hends.mono (fun _ _ h => hlast _ h.2) fun _ _ => hlast _

/-- No run takes off a frame that was there when it began. -/
theorem watchedRun_locals (budget : Nat) (task : Task) (env : Environment F) :
    watchedRun (.always fun now => env.locals <:+ now.locals) budget task env =
      run budget task env :=
  ((KeepsStack.closed env.locals).run_watched .all
    (fun _ _ _ _ => KeepsStack.watched fun _ hbase => hbase) budget task task.in_all env
    List.suffix_rfl).1

/-! ## Parameters -/

/-- The argument that a parameter gets when a procedure is applied to values. -/
def Formals.Binds (values : List Cell) (parameter : String) (argument : Cell) : Formals → Prop
  | .positional names => (parameter, argument) ∈ names.zip values
  | .variadic name => parameter = name ∧ argument = .ofList values

theorem lookup_zip {names : List String} {values : List Cell} (hnodup : names.Nodup) {name : String}
    {value : Cell} (h : (name, value) ∈ names.zip values) :
    (names.zip values).lookup name = some value := by
  induction names generalizing values with
  | nil => simp at h
  | cons n names ih =>
    obtain ⟨hn, hnodup⟩ := List.nodup_cons.1 hnodup
    cases values with
    | nil => simp at h
    | cons v values =>
      rw [List.zip_cons_cons] at h ⊢
      rcases List.mem_cons.1 h with heq | h
      · obtain ⟨rfl, rfl⟩ := Prod.mk.inj heq
        exact List.lookup_cons_self
      · have hne : (name == n) = false := by
          refine beq_false_of_ne fun heq => hn ?_
          exact heq ▸ (List.of_mem_zip h).1
        rw [List.lookup_cons, hne]
        exact ih hnodup h

/-- The frame of a procedure gives each parameter its argument. -/
theorem Formals.find?_of_binds [LawfulFrame F] {cell : Cell} {formals : Formals}
    {values : List Cell} {bindings : List (String × Cell)}
    (hformals : Formals.ofCell cell = .ok formals)
    (hbindings : formals.bindings values = .ok bindings)
    {parameter : String} {argument : Cell} (h : formals.Binds values parameter argument) :
    Frame.find? (Frame.ofList bindings : F) parameter = some argument := by
  have hbindable := Formals.ofCell_meets cell
  rw [hformals] at hbindable
  rw [Frame.find?_ofList]
  unfold Formals.bindings at hbindings
  cases hstorable : values.forM (Cell.checkStorable .procedure) with
  | error e =>
    rw [hstorable] at hbindings
    cases hbindings
  | ok _ =>
    rw [hstorable] at hbindings
    cases formals with
    | positional names =>
      obtain rfl := Except.ok.inj hbindings
      exact lookup_zip hbindable.1 h
    | variadic name =>
      obtain rfl := Except.ok.inj hbindings
      obtain ⟨rfl, rfl⟩ := h
      exact List.lookup_cons_self

/-! ## Bodies -/

namespace Evaluator

variable (self : Evaluator F) {cell : Cell} {formals : Formals} {values : List Cell}
  {bindings : List (String × Cell)}

/-- What is left of an application to values when all its checks have passed. -/
theorem applyToValues_of_ok (hformals : Formals.ofCell cell = .ok formals)
    (hcount : formals.checkCount values.length = .ok ())
    (hbindings : formals.bindings values = .ok bindings) (body : List Cell) :
    self.applyToValues cell body values = EvalM.inFrame bindings (self.sequence body) := by
  rw [applyToValues, EvalM.check_of_ok hformals, EvalM.check_of_ok hcount,
    EvalM.check_of_ok hbindings]

/-- What is left of a call when its operands have yielded values, too. -/
theorem applyToOperands_of_ok {args : Cell} {exprs : List Cell} {before env : Environment F}
    (hformals : Formals.ofCell cell = .ok formals) (hexprs : args.operands .procedure = .ok exprs)
    (hcount : formals.checkCount exprs.length = .ok ())
    (hvalues : self.values exprs before = .value values env)
    (hbindings : formals.bindings values = .ok bindings) (body : List Cell) :
    self.applyToOperands cell body args before =
      EvalM.inFrame bindings (self.sequence body) env := by
  rw [applyToOperands, EvalM.check_of_ok hformals, EvalM.check_of_ok hexprs,
    EvalM.check_of_ok hcount, EvalM.bind_of_value hvalues, EvalM.check_of_ok hbindings]

end Evaluator

/-- The body of a procedure in its frame, under a watch that looks whether a parameter stands for its
argument whenever a task begins or ends with no further frame on the stack. -/
noncomputable def watchedBody (budget : Nat) (bindings : List (String × Cell)) (body : List Cell)
    (parameter : String) (argument : Cell) : EvalM F Cell :=
  fun env =>
    EvalM.inFrame bindings ((watchedRun (.always fun now => now.depth = env.depth + 1 →
      now.lookup? parameter = some argument) budget).sequence body) env

/-- The watch never stops the body. -/
theorem watchedBody_eq [LawfulFrame F] {cell : Cell} {formals : Formals} {values : List Cell}
    {bindings : List (String × Cell)} (hformals : Formals.ofCell cell = .ok formals)
    (hbindings : formals.bindings values = .ok bindings) {parameter : String} {argument : Cell}
    (hbinds : formals.Binds values parameter argument) (budget : Nat) (body : List Cell)
    (env : Environment F) :
    watchedBody budget bindings body parameter argument env =
      EvalM.inFrame bindings ((run budget).sequence body) env := by
  have hfind := Formals.find?_of_binds (F := F) hformals hbindings hbinds
  let base : List F := Frame.ofList bindings :: env.locals
  -- at the depth of the body the stack is the base itself, so its innermost frame decides
  have hwatch (now : Environment F) (hbase : base <:+ now.locals)
      (hdepth : now.depth = env.depth + 1) : now.lookup? parameter = some argument := by
    have hlocals : base = now.locals :=
      hbase.eq_of_length (by simpa [base, Environment.depth] using hdepth.symm)
    rw [Environment.lookup?, ← hlocals, List.findSome?_cons, hfind, Option.some_or]
  have hbody := (KeepsStack.closed base).sequence .all
    ((KeepsStack.closed base).run_watched .all (fun _ _ _ _ => KeepsStack.watched hwatch) budget)
    fun _ (_ : _ ∈ body) => trivial
  obtain ⟨heq, -⟩ := hbody (env.enter bindings) List.suffix_rfl
  rw [watchedBody, Environment.inFrame_apply, Environment.inFrame_apply, heq]

/-! ## The whole run -/

/-- What every run leaves in place: the frames above the global one, all definitions, and what was
printed.  A name defined on the way was free and is not reserved. -/
structure Environment.Preserved (env env' : Environment F) : Prop where
  locals_eq : env'.locals = env.locals
  depth_eq : env'.depth = env.depth
  kept : ∀ name value, Frame.find? env.globals name = some value →
    Frame.find? env'.globals name = some value
  added : ∀ name value, Frame.find? env'.globals name = some value →
    Frame.find? env.globals name = some value ∨
      (Frame.find? env.globals name = none ∧ Operator.isReserved name = false)
  appended : ∃ bytes, env'.output.written = env.output.written ++ bytes

theorem Environment.Grows.preserved [LawfulFrame F] {env env' : Environment F}
    (h : env.Grows env') : env.Preserved env' := by
  obtain ⟨news, bytes, h⟩ := h
  refine ⟨h.locals_eq, h.depth_eq, fun _ _ => h.globals.find?_of_some, fun name value hv => ?_,
    bytes, h.written_eq⟩
  exact (h.globals.find?_cases hv).imp_right fun ⟨hnone, hmem⟩ => ⟨hnone, h.bindable _ hmem⟩

theorem KeepsStack.preserved [LawfulFrame F] {A : Type} {Q : A → Prop} {x y : EvalM F A}
    (h : KeepsStack [] Q x y) (env : Environment F) :
    (x env).Ends (fun _ env' => env.Preserved env') (fun _ env' => env.Preserved env') := by
  have hends := (h env List.nil_suffix).2
  cases hx : x env with
  | value a env' =>
    rw [hx] at hends
    exact hends.2.preserved
  | failure e env' =>
    rw [hx] at hends
    exact Environment.Grows.preserved hends
  | exhausted => trivial

/-- **Stack discipline.**  However a run ends, the stack is as it was, every definition keeps its
value, and the output is only appended to.  While the body of a procedure runs, a parameter stands
for its argument whenever a task begins with no further frame on the stack: a watch for that never
stops the body, and such a watched body is what an application to values comes to, and what a call
comes to when its operands have yielded the values. -/
theorem run_preserves_stack [LawfulFrame F] :
    (∀ (budget : Nat) (expr : Cell) (env : Environment F),
      (evaluate budget expr env).Ends (fun _ env' => env.Preserved env')
        (fun _ env' => env.Preserved env')) ∧
    (∀ (budget : Nat) (op : Operator) (args : Cell) (env : Environment F),
      (dispatch budget op args env).Ends (fun _ env' => env.Preserved env')
        (fun _ env' => env.Preserved env')) ∧
    ∀ (budget : Nat) (cell : Cell) (formals : Formals) (values : List Cell)
      (bindings : List (String × Cell)) (parameter : String) (argument : Cell) (body : List Cell)
      (env : Environment F), Formals.ofCell cell = .ok formals →
      formals.bindings values = .ok bindings → formals.Binds values parameter argument →
      watchedBody budget bindings body parameter argument env =
        EvalM.inFrame bindings ((run budget).sequence body) env ∧
      (formals.checkCount values.length = .ok () →
        (run budget).applyTo (.procedure cell body) values env =
          watchedBody budget bindings body parameter argument env) ∧
      ∀ (args : Cell) (exprs : List Cell) (before : Environment F),
        args.operands .procedure = .ok exprs → formals.checkCount exprs.length = .ok () →
        (run budget).values exprs before = .value values env →
        (run budget).call (.procedure cell body) args before =
          watchedBody budget bindings body parameter argument env := by
  have hclosed := KeepsStack.closed ([] : List F)
  refine ⟨fun budget expr env => ?_, fun budget op args env => ?_, ?_⟩
  · exact (hclosed.evaluate_run .all budget (.inl trivial)).preserved env
  · exact (hclosed.dispatch_run .all budget trivial).preserved env
  · intro budget cell formals values bindings parameter argument body env hformals hbindings hbinds
    have hbody := watchedBody_eq hformals hbindings hbinds budget body env
    refine ⟨hbody, fun hcount => ?_, fun args exprs before hexprs hcount hvalues => ?_⟩
    · rw [hbody, ← (run budget).applyToValues_of_ok hformals hcount hbindings body]
      rfl
    · rw [hbody,
        ← (run budget).applyToOperands_of_ok hformals hexprs hcount hvalues hbindings body]
      rfl

/-- A body that defines its own parameter still reads the argument, and no watch stops it, neither
when the argument is handed over nor when it is an operand's value. -/
theorem run_preserves_stack_of_defined_parameter :
    let start : Environment OrderedFrame := Environment.fresh .unlimited
    let env := start.record (.evaluate .integer 1)
    let formals : Cell := .ofList [.symbol "x"]
    let body : List Cell :=
      [.ofList [.symbol "define", .symbol "x", .integer 5], .symbol "x"]
    let watched : EvalM OrderedFrame Cell :=
      watchedBody 4 [("x", .integer 1)] body "x" (.integer 1)
    (∃ last, watched env = .value (.integer 1) last ∧ last.isGloballyBound "x" = true) ∧
      (run 4).applyTo (.procedure formals body) [.integer 1] env = watched env ∧
      (run 4).call (.procedure formals body) (.ofList [.integer 1]) start = watched env := by
  intro start env formals body watched
  have hformals : Formals.ofCell formals = .ok (.positional ["x"]) := rfl
  have hbinds : Formals.Binds [.integer 1] "x" (.integer 1) (.positional ["x"]) :=
    List.mem_singleton_self _
  have hvalues : (run 4).values [.integer 1] start = .value [.integer 1] env := rfl
  obtain ⟨hwatched, happly, hcall⟩ :=
    run_preserves_stack.2.2 4 _ _ _ _ "x" (.integer 1) body env hformals rfl hbinds
  obtain ⟨last, hrun, hdefined⟩ : ∃ last,
      EvalM.inFrame [("x", .integer 1)] ((run 4).sequence body) env = .value (.integer 1) last ∧
        last.isGloballyBound "x" = true := ⟨_, rfl, rfl⟩
  exact ⟨⟨last, hwatched.trans hrun, hdefined⟩, happly rfl, hcall _ _ start rfl rfl hvalues⟩

end ConsLisp

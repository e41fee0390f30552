import ConsLisp.Frame.Containers
import ConsLisp.Proofs.Abort

/-!
# Applying procedures to values

When the arguments of a procedure have been evaluated there are two ways to go on.  If one of them is
an operator the call is over, and otherwise a frame is pushed that gives each formal its argument
(`Formals.Enters`) and the body is evaluated in it (`InTurn`).  A frame refuses a binding whose name
it has already, and nobody looks whether it did.  That nothing is lost all the same is due to the
check of the formals, which has found their names distinct (`Frame.insertAll_of_nodup`).

`Applies` says this of any computation that is such an application from the moment on at which the
values are there, and it holds of a call, whose operands have just yielded them, and of `apply`, which
finds them in a list.
-/

namespace ConsLisp

variable {F : Type} [Frame F]

/-! ## Arguments -/

namespace Formals

/-- The names that formals bind, one for each argument or one for all of them. -/
def boundNames : Formals → List String
  | positional names => names
  | variadic name => [name]

/-- Each formal with its argument.  A variadic formal gets the list of all arguments. -/
def arguments : Formals → List Cell → List (String × Cell)
  | positional names, values => names.zip values
  | variadic name, values => [(name, .ofList values)]

theorem binds_iff_mem_arguments {formals : Formals} {values : List Cell} {name : String}
    {value : Cell} : formals.Binds values name value ↔ (name, value) ∈ formals.arguments values := by
  cases formals with
  | positional names => exact Iff.rfl
  | variadic name => simp [Binds, arguments]

theorem map_fst_arguments {formals : Formals} {values : List Cell}
    (h : formals.Fits values.length) :
    (formals.arguments values).map Prod.fst = formals.boundNames := by
  cases formals with
  | positional names => exact List.map_fst_zip (Nat.le_of_eq h)
  | variadic name => rfl

theorem Bindable.nodup_boundNames {formals : Formals} (h : formals.Bindable) :
    formals.boundNames.Nodup := by
  cases formals with
  | positional names => exact h.1
  | variadic name => exact List.pairwise_singleton _ name

/-- Arguments are bound unless an operator is among them. -/
theorem bindings_of_storable (formals : Formals) {values : List Cell}
    (h : ∀ op, .operator op ∉ values) :
    formals.bindings values = .ok (formals.arguments values) := by
  have hchecked : values.forM (Cell.checkStorable .procedure) = .ok () := by
    induction values with
    | nil => rfl
    | cons value values ih =>
      have hvalue : value.kind ≠ .operator := by
        intro hkind
        cases value with
        | operator op => exact h op List.mem_cons_self
        | _ => cases hkind
      rw [List.forM_eq_forM, List.forM_cons, Cell.checkStorable_of_kind hvalue]
      exact ih fun op hmem => h op (List.mem_cons_of_mem value hmem)
  unfold bindings
  rw [hchecked]
  cases formals <;> rfl

theorem bindings_of_operator (formals : Formals) {values : List Cell} {op : Operator}
    (h : .operator op ∈ values) :
    formals.bindings values =
      .error (.typeMismatch .procedure .storableValue (.value .operator)) := by
  have hchecked : values.forM (Cell.checkStorable .procedure) =
      .error (.typeMismatch .procedure .storableValue (.value .operator)) := by
    induction values with
    | nil => cases h
    | cons value values ih =>
      rw [List.forM_eq_forM, List.forM_cons]
      by_cases hkind : value.kind = .operator
      · cases value with
        | operator op => rfl
        | _ => cases hkind
      · rw [Cell.checkStorable_of_kind hkind]
        rcases List.mem_cons.1 h with rfl | h
        · exact absurd rfl hkind
        · exact ih h
  unfold bindings
  rw [hchecked]
  rfl

/-- A frame that gives each formal its argument, and that has taken every binding it was given. -/
structure Filled (formals : Formals) (values : List Cell) (frame : F) : Prop where
  insertAll_eq : Frame.insertAll Frame.empty (formals.arguments values) =
    (List.replicate formals.boundNames.length true, frame)
  size_eq : Frame.size frame = formals.boundNames.length
  find?_eq_some_iff : ∀ name value,
    Frame.find? frame name = some value ↔ formals.Binds values name value

/-- The environment in which the body of a procedure begins when `values` are bound to `formals`:
there is one frame more, and that is on record. -/
structure Enters (formals : Formals) (values : List Cell) (env inner : Environment F) : Prop where
  locals : ∃ frame, formals.Filled values frame ∧ inner.locals = frame :: env.locals
  globals_eq : inner.globals = env.globals
  output_eq : inner.output = env.output
  events_eq : inner.events =
    (env.events.push (.applyingProcedure formals.boundNames.length env.depth)).push
      (.pushedFrame (env.depth + 1))

theorem filled_ofList [LawfulFrame F] {formals : Formals} (hformals : formals.Bindable)
    {values : List Cell} (hcount : formals.Fits values.length) :
    formals.Filled values (Frame.ofList (formals.arguments values) : F) := by
  have hnames := map_fst_arguments hcount
  have hnodup : ((formals.arguments values).map Prod.fst).Nodup :=
    hnames ▸ hformals.nodup_boundNames
  have hlength : (formals.arguments values).length = formals.boundNames.length := by
    rw [← hnames, List.length_map]
  have hfree (b : String × Cell) (_ : b ∈ formals.arguments values) :
      Frame.find? (Frame.empty : F) b.1 = none := LawfulFrame.find?_empty b.1
  obtain ⟨hadded, hadds⟩ := Frame.insertAll_of_nodup hnodup hfree
  refine ⟨Prod.ext (hlength ▸ hadded) rfl, ?_, fun name value => ?_⟩
  · rw [Frame.ofList, hadds.size_eq, Frame.size_empty, hlength, Nat.zero_add]
  · rw [binds_iff_mem_arguments]
    exact hadds.find?_eq_some_iff

theorem enters_enter [LawfulFrame F] {formals : Formals} (hformals : formals.Bindable)
    {values : List Cell} (hcount : formals.Fits values.length) (env : Environment F) :
    formals.Enters values env (env.enter (formals.arguments values)) := by
  have hfilled := filled_ofList (F := F) hformals hcount
  refine ⟨⟨_, hfilled, rfl⟩, rfl, rfl, ?_⟩
  rw [← hfilled.size_eq]
  rfl

/-- The description is complete. -/
theorem Enters.eq_enter {formals : Formals} {values : List Cell} {env inner : Environment F}
    (h : formals.Enters values env inner) : inner = env.enter (formals.arguments values) := by
  obtain ⟨⟨frame, hfilled, hlocals⟩, hglobals, houtput, hevents⟩ := h
  have hframe : Frame.ofList (formals.arguments values) = frame :=
    congrArg Prod.snd hfilled.insertAll_eq
  cases inner
  subst hlocals hglobals houtput hevents hframe
  rw [← hfilled.size_eq]
  rfl

end Formals

/-! ## Bodies -/

/-- How expressions end that are evaluated one after another, when `value` is what the last one before
them has yielded: with the last value, or where one of them fails or diverges. -/
inductive InTurn : List Cell → Cell → Environment F → Outcome (Environment F) Cell → Prop
  | done {value env} : InTurn [] value env (.value value env)
  | next {expr exprs before value env mid o} : Yields expr env value mid → InTurn exprs value mid o →
    InTurn (expr :: exprs) before env o
  | failed {expr exprs before env e last} : Fails expr env e last →
    InTurn (expr :: exprs) before env (.failure e last)
  | diverged {expr exprs before env} :
    Settles (fun budget => (run budget).operand expr env) .exhausted →
    InTurn (expr :: exprs) before env .exhausted

/-- Whatever the expressions are, there is one way in which they end. -/
theorem exists_inTurn (exprs : List Cell) (before : Cell) (env : Environment F) :
    ∃ o, InTurn exprs before env o := by
  induction exprs generalizing before env with
  | nil => exact ⟨_, .done⟩
  | cons expr exprs ih =>
    obtain ⟨first, hfirst⟩ := (steady_operand expr env).exists_settles
    cases first with
    | value value mid =>
      obtain ⟨o, hrest⟩ := ih value mid
      exact ⟨o, .next hfirst hrest⟩
    | failure e last => exact ⟨_, .failed hfirst⟩
    | exhausted => exact ⟨_, .diverged hfirst⟩

theorem InTurn.settles {exprs : List Cell} {before : Cell} {env : Environment F}
    {o : Outcome (Environment F) Cell} (h : InTurn exprs before env o) :
    Settles (fun budget => exprs.foldlM (fun _ expr => (run budget).operand expr) before env) o := by
  induction h with
  | done => exact ⟨0, fun _ _ => rfl⟩
  | next hfirst _ ih =>
    simp only [List.foldlM_cons]
    exact hfirst.bind ih
  | failed hfails =>
    simp only [List.foldlM_cons]
    exact hfails.bind_failure
  | diverged hdiverges =>
    simp only [List.foldlM_cons]
    exact hdiverges.bind_exhausted

theorem InTurn.unique {exprs : List Cell} {before : Cell} {env : Environment F}
    {o o' : Outcome (Environment F) Cell} (h : InTurn exprs before env o)
    (h' : InTurn exprs before env o') : o = o' :=
  h.settles.unique h'.settles

theorem Progress.locals_eq {agenda : Agenda} {env last : Environment F} {values : List Cell}
    (h : Progress agenda env values last) : last.locals = env.locals := by
  induction h with
  | done => rfl
  | step _ hyields _ ih => exact ih.trans (locals_of_settles hyields rfl)

theorem InTurn.locals_eq {exprs : List Cell} {before : Cell} {env last : Environment F}
    {o : Outcome (Environment F) Cell} (h : InTurn exprs before env o)
    (hlast : o.state? = some last) : last.locals = env.locals := by
  induction h with
  | done =>
    obtain rfl := Option.some.inj hlast
    rfl
  | next hfirst _ ih => exact (ih hlast).trans (locals_of_settles hfirst rfl)
  | failed hfails => exact locals_of_settles hfails hlast
  | diverged => cases hlast

/-! ## Applications -/

/-- From `env` on, where the values are there, the computation applies a procedure to them.  It binds
no operator, and so it fails if one of the values is one.  Otherwise the body is evaluated in a frame
of the arguments, and however it ends, so does the computation, with that frame taken off again. -/
structure Applies (formals : Formals) (values body : List Cell) (env : Environment F)
    (x : Nat → Outcome (Environment F) Cell) : Prop where
  rejects : ∀ op, .operator op ∈ values →
    Settles x (.failure (.typeMismatch .procedure .storableValue (.value .operator)) env)
  enters : (∀ op, .operator op ∉ values) → ∃ inner o, formals.Enters values env inner ∧
    InTurn body .nil inner o ∧ Settles x (o.mapState Environment.pop) ∧
    ∀ last, o.state? = some last → last.locals = inner.locals ∧ last.pop.locals = env.locals

/-- It is enough that the computation ends as the binding of the values and the body do. -/
theorem Applies.of_settles [LawfulFrame F] {formals : Formals} (hformals : formals.Bindable)
    {values : List Cell} (hcount : formals.Fits values.length) {body : List Cell}
    {env : Environment F} {x : Nat → Outcome (Environment F) Cell}
    (hx : ∀ o, Settles (fun budget => (liftM (formals.bindings values) >>= fun bindings =>
      EvalM.inFrame bindings ((run budget).sequence body) : EvalM F Cell) env) o → Settles x o) :
    Applies formals values body env x where
  rejects op hop :=
    hx _ ⟨0, fun _ _ => EvalM.check_of_error (formals.bindings_of_operator hop) _ env⟩
  enters hvalues := by
    have henters := Formals.enters_enter hformals hcount env
    obtain ⟨frame, -, hlocals⟩ := henters.locals
    obtain ⟨o, hbody⟩ := exists_inTurn body .nil (env.enter (formals.arguments values))
    refine ⟨_, o, henters, hbody, hx _ ?_, fun last hlast => ?_⟩
    · simp only [EvalM.check_of_ok (formals.bindings_of_storable hvalues)]
      exact hbody.settles.inFrame
    · have hlast := hbody.locals_eq hlast
      refine ⟨hlast, ?_⟩
      show last.locals.tail = env.locals
      rw [hlast, hlocals]
      rfl

theorem Applies.mono {formals : Formals} {values body : List Cell} {env : Environment F}
    {x y : Nat → Outcome (Environment F) Cell} (h : Applies formals values body env x)
    (hxy : ∀ o, Settles x o → Settles y o) : Applies formals values body env y where
  rejects op hop := hxy _ (h.rejects op hop)
  enters hvalues := by
    obtain ⟨inner, o, henters, hbody, ho, hlast⟩ := h.enters hvalues
    exact ⟨inner, o, henters, hbody, hxy _ ho, hlast⟩

/-- `apply` hands a procedure the values as they are. -/
theorem applies_applyTo [LawfulFrame F] {formals : Formals} (hformals : formals.Bindable)
    {values : List Cell} (hcount : formals.Fits values.length) (body : List Cell)
    (env : Environment F) :
    Applies formals values body env
      fun budget => (run budget).applyTo (.procedure formals.toCell body) values env := by
  refine .of_settles hformals hcount fun o ho => ?_
  simp only [Evaluator.applyTo, Evaluator.applyToValues_toCell _ hformals hcount]
  exact ho

/-- **Every argument is bound, once, to its own formal.**  When the operands of a procedure have
yielded values, one after another and with the stack of the caller, the call is an application to
these values, and so is what `apply` does with a procedure and a list of values. -/
theorem application_binds_every_argument [LawfulFrame F] (formals : Formals)
    (hformals : formals.Bindable) (body values : List Cell)
    (hcount : formals.Fits values.length) :
    (∀ (exprs : List Cell) (start mid : Environment F), values.length = exprs.length →
      Progress (inOrder exprs) start values mid →
      mid.locals = start.locals ∧ Applies formals values body mid
        fun budget => (run budget).call (.procedure formals.toCell body) (.ofList exprs) start) ∧
    (∀ mid : Environment F, Applies formals values body mid
      fun budget => (run budget).applyTo (.procedure formals.toCell body) values mid) ∧
    ∀ (calleeExpr listExpr : Cell) (start mid : Environment F),
      Progress (inOrder [calleeExpr, listExpr]) start
        [.procedure formals.toCell body, .ofList values] mid →
      mid.locals = start.locals ∧ Applies formals values body mid
        fun budget => dispatch budget .apply (.ofList [calleeExpr, listExpr]) start := by
  refine ⟨fun exprs start mid hlength hargs => ⟨hargs.locals_eq, ?_⟩,
    fun mid => applies_applyTo hformals hcount body mid,
    fun calleeExpr listExpr start mid hoperands => ⟨hoperands.locals_eq, ?_⟩⟩
  · refine .of_settles hformals hcount fun o ho => ?_
    simp only [Evaluator.call, Evaluator.applyToOperands_toCell _ hformals (hlength ▸ hcount)]
    exact (settles_values hargs hlength).bind ho
  · exact (applies_applyTo hformals hcount body mid).mono fun o ho =>
      .of_succ (settles_apply hoperands ho)

/-- Both arguments are bound when the body fails halfway, and the frame is gone after that.  An operator
is an argument that no procedure can have, and a single formal gets all arguments as a list. -/
theorem application_binds_every_argument_before_failure :
    let env : Environment OrderedFrame := Environment.fresh .unlimited
    let body : List Cell :=
      [Operator.print.form [.symbol "x"], Operator.car.form [.symbol "y"], .symbol "x"]
    let callee : Cell := .procedure (Formals.positional ["x", "y"]).toCell body
    let gather : Cell := .procedure (Formals.variadic "xs").toCell [.symbol "xs"]
    (∃ last, Settles (fun budget => (run budget).call callee
        (.ofList [.integer 7, .integer 5]) env) (.failure (.notAPair (.builtin .car) .integer) last) ∧
      last.locals = [] ∧ last.output.written = "7\n".toUTF8) ∧
    (∃ last, Settles (fun budget => (run budget).call callee
        (.ofList [.integer 7, .symbol Operator.car.name]) env)
        (.failure (.typeMismatch .procedure .storableValue (.value .operator)) last) ∧
      last.locals = []) ∧
    ∃ last, Settles (fun budget => (run budget).applyTo gather [.integer 7, .integer 5] env)
        (.value (.ofList [.integer 7, .integer 5]) last) ∧ last.locals = [] := by
  intro env body callee gather
  have hinteger (n : Int64) (env : Environment OrderedFrame) :
      Yields (.integer n) env (.integer n) (env.record (.evaluate .integer env.depth)) :=
    yields_of_standsForItself rfl env
  have hnames : (Formals.positional ["x", "y"]).Bindable := ⟨by decide, by decide⟩
  refine ⟨?_, ?_, ?_⟩
  · let mid : Environment OrderedFrame :=
      (env.record (.evaluate .integer 1)).record (.evaluate .integer 1)
    have hargs : Progress (inOrder [.integer 7, .integer 5]) env [.integer 7, .integer 5] mid :=
      .step rfl (hinteger 7 env) (.step rfl (hinteger 5 _) .done)
    obtain ⟨hcall, -, -⟩ := application_binds_every_argument (F := OrderedFrame) _ hnames body
      [.integer 7, .integer 5] rfl
    obtain ⟨hmid, happlies⟩ := hcall [.integer 7, .integer 5] env mid rfl hargs
    obtain ⟨inner, o, henters, hbody, hsettles, hlast⟩ := happlies.enters (by simp)
    obtain rfl := henters.eq_enter
    have hprint : Yields (Operator.print.form [.symbol "x"])
        (mid.enter [("x", .integer 7), ("y", .integer 5)]) .nil _ :=
      .of_eq (rfl : (run 3).operand _ _ = _)
    obtain rfl := hbody.unique
      (.next hprint (.failed (.of_eq (rfl : (run 3).operand _ _ = .failure _ _))))
    exact ⟨_, hsettles, (hlast _ rfl).2.trans hmid, rfl⟩
  · have hargs : Progress (inOrder [.integer 7, .symbol Operator.car.name]) env
        [.integer 7, .operator .car] _ :=
      .step rfl (hinteger 7 env) (.step rfl (yields_word .car _) .done)
    obtain ⟨hcall, -, -⟩ := application_binds_every_argument (F := OrderedFrame) _ hnames body
      [.integer 7, .operator .car] rfl
    obtain ⟨hmid, happlies⟩ := hcall [.integer 7, .symbol Operator.car.name] env _ rfl hargs
    exact ⟨_, happlies.rejects .car (by simp), hmid⟩
  · obtain ⟨-, happly, -⟩ := application_binds_every_argument (F := OrderedFrame)
      (.variadic "xs") rfl [.symbol "xs"] [.integer 7, .integer 5] trivial
    obtain ⟨inner, o, henters, hbody, hsettles, hlast⟩ := (happly env).enters (by simp)
    obtain rfl := henters.eq_enter
    let values : Cell := .ofList [.integer 7, .integer 5]
    have hxs : Yields (.symbol "xs") (env.enter [("xs", values)]) values _ :=
      .of_eq (rfl : (run 1).operand _ _ = _)
    obtain rfl := hbody.unique (.next hxs .done)
    exact ⟨_, hsettles, (hlast _ rfl).2⟩

end ConsLisp

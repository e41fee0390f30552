import ConsLisp.Frame.Containers
import ConsLisp.Proofs.Calling

/-!
# Malformed calls

A call is checked before anything of it is evaluated: the list of its operands, their number, and
the names that it binds.  What passes a check is said here without the check (`Operator.arity`,
`Formals.toCell` with `Formals.Bindable` and `Formals.Fits`, `clausesOf`), and each check is shown
to accept exactly that.  What is left of a call that passes all of its checks is then an equation
(`Evaluator.applyToOperands_toCell`, `Evaluator.letIn_clausesOf`), and a call that does not has no
effect but its error, which is justified (`EvalM.Rejects`).
-/

namespace ConsLisp

/-! ## Operands and their number -/

/-- How many operands an operator takes. -/
def Operator.arity : Operator → Arity
  | add | mul | lessThan => .atLeast 0
  | sub | div | letIn => .atLeast 1
  | lambda => .atLeast 2
  | ifElse => .between 2 3
  | cons | define | apply => .exactly 2
  | _ => .exactly 1

theorem Cell.operands_of_tail_ne_nil {form : Form} {args : Cell} (h : args.tail ≠ .nil) :
    args.operands form = .error (.notAPair form args.tail.kind) := by
  unfold operands
  split
  · next hnil => exact absurd hnil h
  · rfl

/-! ## Formals -/

namespace Formals

/-- How formals are written. -/
def toCell : Formals → Cell
  | positional names => .ofList (names.map .symbol)
  | variadic name => .symbol name

/-- Whether a number of arguments suits the formals. -/
def Fits : Formals → Nat → Prop
  | positional names, count => names.length = count
  | variadic _, _ => True

theorem map_symbol_injective : Function.Injective (List.map Cell.symbol) :=
  List.map_injective_iff.2 fun _ _ => Cell.symbol.inj

theorem toCell_injective : Function.Injective toCell := by
  intro formals formals' h
  cases formals with
  | positional names =>
    cases formals' with
    | positional names' =>
      have hitems := congrArg Cell.items h
      rw [toCell, toCell, Cell.items_ofList, Cell.items_ofList] at hitems
      rw [map_symbol_injective hitems]
    | variadic name => cases names <;> cases h
  | variadic name =>
    cases formals' with
    | positional names => cases names <;> cases h
    | variadic name' => rw [Cell.symbol.inj h]

/-- Distinct names that can be bound are read as they are. -/
theorem names_map_symbol {seen found : List String} (hnodup : found.Nodup)
    (hfound : ∀ name ∈ found, Operator.isReserved name = false ∧ name ∉ seen) :
    names seen (found.map .symbol) = .ok found := by
  induction found generalizing seen with
  | nil => rfl
  | cons name found ih =>
    obtain ⟨hname, hnodup⟩ := List.nodup_cons.1 hnodup
    obtain ⟨hbindable, hseen⟩ := hfound name List.mem_cons_self
    have hrest : names (name :: seen) (found.map .symbol) = .ok found := by
      refine ih hnodup fun n hn => ⟨(hfound n (List.mem_cons_of_mem name hn)).1, fun hmem => ?_⟩
      rcases List.mem_cons.1 hmem with rfl | hmem
      · exact hname hn
      · exact (hfound n (List.mem_cons_of_mem name hn)).2 hmem
    rw [List.map_cons, names, checkBindable_of_not_isReserved hbindable, hrest]
    show (if name ∈ seen then _ else _) = _
    rw [if_neg hseen]
    rfl

/-- Only symbols are read as names. -/
theorem names_meets_symbols (seen : List String) (list : List Cell) :
    Meets (fun found => list = found.map .symbol) (names seen list) := by
  induction list generalizing seen with
  | nil => exact rfl
  | cons formal list ih =>
    cases formal with
    | symbol name =>
      refine (checkBindable_meets name).bind fun _ hname => ?_
      split
      · exact hname
      · refine (ih (name :: seen)).bind fun found hfound => ?_
        show Cell.symbol name :: list = (name :: found).map .symbol
        rw [hfound, List.map_cons]
    | _ => trivial

theorem ofCell_meets_toCell (cell : Cell) : Meets (fun formals => cell = formals.toCell)
    (ofCell cell) := by
  cases cell with
  | nil => exact rfl
  | symbol name => exact (checkBindable_meets name).bind fun _ _ => rfl
  | pair car cdr =>
    refine (Cell.operands_meets_ofList _ _).bind fun list hcell => ?_
    refine (names_meets_symbols [] list).bind fun found hfound => ?_
    exact hcell.trans (congrArg Cell.ofList hfound)
  | _ => trivial

/-- Formals are accepted as they are written, if their names can be bound. -/
theorem ofCell_eq_ok_iff {cell : Cell} {formals : Formals} :
    ofCell cell = .ok formals ↔ cell = formals.toCell ∧ formals.Bindable := by
  constructor
  · intro h
    have hcell := ofCell_meets_toCell cell
    have hbindable := ofCell_meets cell
    rw [h] at hcell hbindable
    exact ⟨hcell, hbindable⟩
  · rintro ⟨rfl, h⟩
    cases formals with
    | positional names =>
      cases names with
      | nil => rfl
      | cons name names =>
        obtain ⟨hnodup, hbindable⟩ := h
        have hnames : Formals.names [] ((name :: names).map .symbol) = .ok (name :: names) :=
          names_map_symbol hnodup fun n hn => ⟨hbindable n hn, List.not_mem_nil⟩
        have hlist := Cell.operands_ofList (.builtin .lambda) ((name :: names).map .symbol)
        show (Cell.operands _ (.ofList ((name :: names).map .symbol)) >>= fun _ => _) = _
        rw [hlist]
        show (Formals.names [] ((name :: names).map .symbol) >>= fun _ => _) = _
        rw [hnames]
        rfl
    | variadic name =>
      show (checkBindable name >>= fun _ => _) = _
      rw [checkBindable_of_not_isReserved h]
      rfl

theorem checkCount_eq_ok_iff {formals : Formals} {count : Nat} :
    formals.checkCount count = .ok () ↔ formals.Fits count := by
  cases formals with
  | positional names => simp [checkCount, Fits]
  | variadic name => simp [checkCount, Fits]

end Formals

/-! ## Actions that begin with a check -/

namespace EvalM

variable {F A B : Type} {check : Except EvalError A}

theorem check_eq_value_iff {a : A} {env last : Environment F} :
    (liftM check : EvalM F A) env = .value a last ↔ check = .ok a ∧ env = last := by
  cases check with
  | ok b =>
    show Outcome.value b env = .value a last ↔ _
    simp
  | error e =>
    show Outcome.failure e env = .value a last ↔ _
    simp

/-- An action that fails with a justified error and does nothing else. -/
def Rejects (x : EvalM F A) (env : Environment F) : Prop :=
  ∃ e, e.Justified ∧ x env = .failure e env

/-- An action is rejected by its first check, or else by what comes after it. -/
theorem Rejects.of_check {Q : A → Prop} (hcheck : Meets Q check) {next : A → EvalM F B}
    {env : Environment F} (hnext : ∀ a, check = .ok a → Rejects (next a) env) :
    Rejects ((liftM check : EvalM F A) >>= next) env := by
  cases h : check with
  | ok a =>
    rw [check_of_ok rfl]
    exact hnext a h
  | error e =>
    rw [h] at hcheck
    exact ⟨e, hcheck, rfl⟩

end EvalM

namespace Evaluator

variable {F : Type} [Frame F] (self : Evaluator F)

/-! ## Operators -/

theorem arity_builtin (op : Operator) : (self.builtin op).arity = op.arity := by
  cases op <;> rfl

theorem dispatch_of_tail_ne_nil (op : Operator) {args : Cell} (h : args.tail ≠ .nil)
    (env : Environment F) :
    self.dispatch op args env = .failure (.notAPair (.builtin op) args.tail.kind) env :=
  EvalM.check_of_error (Cell.operands_of_tail_ne_nil h) _ env

theorem dispatch_of_arity {op : Operator} {operands : List Cell}
    (h : op.arity.accepts operands.length = false) (env : Environment F) :
    self.dispatch op (.ofList operands) env =
      .failure (.arityMismatch (.builtin op) op.arity operands.length) env := by
  have hrefused : (self.builtin op).run? operands = none := by
    rw [← Option.isNone_iff_eq_none, ← Option.isSome_eq_false_iff, Builtin.run?_isSome,
      arity_builtin, h]
  rw [dispatch, EvalM.check_of_ok (Cell.operands_ofList _ operands), hrefused, arity_builtin]
  rfl

/-- What is left of a call of an operator when it can take so many operands. -/
theorem dispatch_of_run? {op : Operator} {operands : List Cell} {action : EvalM F Cell}
    (h : (self.builtin op).run? operands = some action) :
    self.dispatch op (.ofList operands) = action := by
  rw [dispatch, EvalM.check_of_ok (Cell.operands_ofList _ operands), h]

/-! ## Procedures -/

/-- What is left of an application when all its checks have passed. -/
theorem applyToOperands_toCell {formals : Formals} (hformals : formals.Bindable)
    {exprs : List Cell} (hcount : formals.Fits exprs.length) (body : List Cell) :
    self.applyToOperands formals.toCell body (.ofList exprs) = (do
      let values ← self.values exprs
      let bindings ← formals.bindings values
      EvalM.inFrame bindings (self.sequence body)) := by
  rw [applyToOperands, EvalM.check_of_ok (Formals.ofCell_eq_ok_iff.2 ⟨rfl, hformals⟩),
    EvalM.check_of_ok (Cell.operands_ofList _ _),
    EvalM.check_of_ok (Formals.checkCount_eq_ok_iff.2 hcount)]

/-- The same without operands to evaluate. -/
theorem applyToValues_toCell {formals : Formals} (hformals : formals.Bindable)
    {values : List Cell} (hcount : formals.Fits values.length) (body : List Cell) :
    self.applyToValues formals.toCell body values = (do
      let bindings ← formals.bindings values
      EvalM.inFrame bindings (self.sequence body)) := by
  rw [applyToValues, EvalM.check_of_ok (Formals.ofCell_eq_ok_iff.2 ⟨rfl, hformals⟩),
    EvalM.check_of_ok (Formals.checkCount_eq_ok_iff.2 hcount)]

theorem applyToOperands_rejects {cell args : Cell}
    (h : ∀ (formals : Formals) (exprs : List Cell), cell = formals.toCell → formals.Bindable →
      args = .ofList exprs → ¬ formals.Fits exprs.length) (body : List Cell)
    (env : Environment F) : (self.applyToOperands cell body args).Rejects env := by
  refine .of_check (Formals.ofCell_meets cell) fun formals hformals => ?_
  refine .of_check (Cell.operands_meets_ofList _ args) fun exprs hexprs => ?_
  refine .of_check (formals.checkCount_meets exprs.length) fun _ hcount => ?_
  obtain ⟨hcell, hbindable⟩ := Formals.ofCell_eq_ok_iff.1 hformals
  exact absurd (Formals.checkCount_eq_ok_iff.1 hcount)
    (h formals exprs hcell hbindable (Cell.operands_eq_ok_iff.1 hexprs))

theorem applyToOperands_of_tail_ne_nil {formals : Formals} (hformals : formals.Bindable)
    {args : Cell} (h : args.tail ≠ .nil) (body : List Cell) (env : Environment F) :
    self.applyToOperands formals.toCell body args env =
      .failure (.notAPair .procedure args.tail.kind) env := by
  rw [applyToOperands, EvalM.check_of_ok (Formals.ofCell_eq_ok_iff.2 ⟨rfl, hformals⟩)]
  exact EvalM.check_of_error (Cell.operands_of_tail_ne_nil h) _ env

theorem applyToOperands_of_count {names : List String}
    (hnames : (Formals.positional names).Bindable) {exprs : List Cell}
    (h : names.length ≠ exprs.length) (body : List Cell) (env : Environment F) :
    self.applyToOperands (Formals.positional names).toCell body (.ofList exprs) env =
      .failure (.arityMismatch .procedure (.exactly names.length) exprs.length) env := by
  rw [applyToOperands, EvalM.check_of_ok (Formals.ofCell_eq_ok_iff.2 ⟨rfl, hnames⟩),
    EvalM.check_of_ok (Cell.operands_ofList _ _)]
  exact EvalM.check_of_error (if_neg h) _ env

/-- A procedure that gets its arguments as values needs the right number of them. -/
theorem applyToValues_rejects {cell : Cell} {values : List Cell}
    (h : ∀ formals : Formals, cell = formals.toCell → formals.Bindable →
      ¬ formals.Fits values.length) (body : List Cell) (env : Environment F) :
    (self.applyToValues cell body values).Rejects env := by
  refine .of_check (Formals.ofCell_meets cell) fun formals hformals => ?_
  refine .of_check (formals.checkCount_meets values.length) fun _ hcount => ?_
  obtain ⟨hcell, hbindable⟩ := Formals.ofCell_eq_ok_iff.1 hformals
  exact absurd (Formals.checkCount_eq_ok_iff.1 hcount) (h formals hcell hbindable)

end Evaluator

/-! ## `let` -/

/-- Clauses as they are written: lists of two, each of a name and the expression of its value. -/
def clausesOf (parts : List (String × Cell)) : Cell :=
  .ofList (parts.map fun part => .ofList [.symbol part.1, part.2])

theorem clausesOf_injective : Function.Injective clausesOf := by
  have hpart : Function.Injective fun part : String × Cell =>
      Cell.ofList [.symbol part.1, part.2] := by
    rintro ⟨name, expr⟩ ⟨name', expr'⟩ h
    simpa using h
  intro parts parts' h
  have hitems := congrArg Cell.items h
  rw [clausesOf, clausesOf, Cell.items_ofList, Cell.items_ofList] at hitems
  exact List.map_injective_iff.2 hpart hitems

/-- Lists of two that all begin with symbols are clauses. -/
theorem exists_clausesOf {parts : List (Cell × Cell)} {names : List String}
    (h : parts.map Prod.fst = names.map .symbol) :
    ∃ named : List (String × Cell), named.map Prod.fst = names ∧
      parts = named.map fun part => (.symbol part.1, part.2) := by
  induction parts generalizing names with
  | nil =>
    obtain rfl := List.map_eq_nil_iff.1 h.symm
    exact ⟨[], rfl, rfl⟩
  | cons part parts ih =>
    obtain ⟨word, expr⟩ := part
    cases names with
    | nil => cases h
    | cons name names =>
      obtain ⟨rfl, hrest⟩ := List.cons.inj h
      obtain ⟨named, rfl, rfl⟩ := ih hrest
      exact ⟨(name, expr) :: named, rfl, rfl⟩

namespace Evaluator

variable {F : Type} [Frame F] (self : Evaluator F)

/-- What is left of a `let` when all its checks have passed. -/
theorem letIn_clausesOf {parts : List (String × Cell)}
    (h : (Formals.positional (parts.map Prod.fst)).Bindable) (body : List Cell) :
    self.letIn (clausesOf parts) body = (do
      let values ← self.values (parts.map Prod.snd)
      let bindings ← (Formals.positional (parts.map Prod.fst)).bindings values
      EvalM.inFrame bindings (self.sequence body)) := by
  have hclauses : (parts.map fun part => Cell.ofList [.symbol part.1, part.2]).mapM clause =
      (.ok (parts.map fun part => (.symbol part.1, part.2)) :
        Except EvalError (List (Cell × Cell))) := by
    rw [← mapM_clause, List.map_map]
    rfl
  have hcount : (Formals.positional (parts.map Prod.fst)).Fits (parts.map Prod.snd).length := by
    simp [Formals.Fits]
  rw [letIn, clausesOf, EvalM.check_of_ok (Cell.operands_ofList _ _), EvalM.check_of_ok hclauses,
    ← applyToOperands_toCell self h hcount, Formals.toCell, List.map_map, List.map_map,
    List.map_map]
  rfl

theorem letIn_rejects {clauses : Cell}
    (h : ∀ parts : List (String × Cell), clauses = clausesOf parts →
      ¬ (Formals.positional (parts.map Prod.fst)).Bindable) (body : List Cell)
    (env : Environment F) : (self.letIn clauses body).Rejects env := by
  have hclauses (list : List Cell) : Meets _ (list.mapM clause) :=
    Meets.mapM_eq fun c _ => clause_meets c
  refine .of_check (Cell.operands_meets_ofList _ clauses) fun list hlist => ?_
  refine .of_check (hclauses list) fun parts hparts => ?_
  refine applyToOperands_rejects self (fun formals exprs hcell hbindable _ _ => ?_) body env
  cases formals with
  | variadic name => cases parts <;> cases hcell
  | positional names =>
    have hnames : parts.map Prod.fst = names.map .symbol := by
      simpa [Formals.toCell] using congrArg Cell.items hcell
    obtain ⟨named, rfl, rfl⟩ := exists_clausesOf hnames
    refine h named ?_ hbindable
    have hlist' := hclauses list
    rw [hparts] at hlist'
    rw [Cell.operands_eq_ok_iff.1 hlist, show list = _ from hlist', List.map_map]
    rfl

end Evaluator

/-! ## All malformed calls -/

variable {F : Type} [Frame F]

/-- **A malformed call has no effect.**  An operator whose operands do not form a list, or are too
few or too many, fails with an error that says so, and so does a procedure.  A `let` fails whose
clauses are anything but lists of two that begin with distinct words which are not reserved, and a
procedure fails that has anything but such words, or one such word, as formals.  In every case the
environment is left as it was, with its output and its record of events. -/
theorem malformed_calls_have_no_effect (budget : Nat) (env : Environment F) :
    (∀ (op : Operator) (args : Cell), args.tail ≠ .nil →
      dispatch (budget + 1) op args env =
        .failure (.notAPair (.builtin op) args.tail.kind) env) ∧
    (∀ (op : Operator) (operands : List Cell), op.arity.accepts operands.length = false →
      dispatch (budget + 1) op (.ofList operands) env =
        .failure (.arityMismatch (.builtin op) op.arity operands.length) env) ∧
    (∀ (clauses : Cell) (body : List Cell),
      (∀ parts : List (String × Cell), clauses = clausesOf parts →
        ¬ (Formals.positional (parts.map Prod.fst)).Bindable) →
      (dispatch (budget + 1) .letIn (.ofList (clauses :: body))).Rejects env) ∧
    (∀ (cell : Cell) (body : List Cell) (args : Cell),
      (∀ (formals : Formals) (exprs : List Cell), cell = formals.toCell → formals.Bindable →
        args = .ofList exprs → ¬ formals.Fits exprs.length) →
      ((run budget).call (.procedure cell body) args).Rejects env) ∧
    (∀ (formals : Formals) (body : List Cell) (args : Cell), formals.Bindable →
      args.tail ≠ .nil →
      (run budget).call (.procedure formals.toCell body) args env =
        .failure (.notAPair .procedure args.tail.kind) env) ∧
    (∀ (names : List String) (body exprs : List Cell), (Formals.positional names).Bindable →
      names.length ≠ exprs.length →
      (run budget).call (.procedure (Formals.positional names).toCell body) (.ofList exprs) env =
        .failure (.arityMismatch .procedure (.exactly names.length) exprs.length) env) ∧
    ∀ (cell : Cell) (body values : List Cell),
      (∀ formals : Formals, cell = formals.toCell → formals.Bindable →
        ¬ formals.Fits values.length) →
      ((run budget).applyTo (.procedure cell body) values).Rejects env := by
  let self : Evaluator F := run budget
  refine ⟨?_, ?_, ?_, ?_, ?_, ?_, ?_⟩
  · intro op args h
    exact self.dispatch_of_tail_ne_nil op h env
  · intro op operands h
    exact self.dispatch_of_arity h env
  · intro clauses body h
    have hletIn : dispatch (budget + 1) .letIn (.ofList (clauses :: body)) =
        self.letIn clauses body := self.dispatch_of_run? rfl
    rw [hletIn]
    exact self.letIn_rejects h body env
  · intro cell body args h
    exact self.applyToOperands_rejects h body env
  · intro formals body args hformals h
    exact self.applyToOperands_of_tail_ne_nil hformals h body env
  · intro names body exprs hnames h
    exact self.applyToOperands_of_count hnames h body env
  · intro cell body values h
    exact self.applyToValues_rejects h body env

/-- Every operand here would print something, and it is the last clause, the last formal or the end
of the list that is wrong. -/
theorem malformed_calls_have_no_effect_despite_prints :
    let env : Environment OrderedFrame := Environment.fresh .unlimited
    let print : Cell := Operator.print.form [.integer 1]
    let clauses : Cell := clausesOf [("x", print), ("y", print), ("x", print)]
    let twice : Cell := .procedure (.ofList [.symbol "x", .symbol "y"]) [print]
    dispatch 5 .car (.chain [print, print] (.integer 2)) env =
        .failure (.notAPair (.builtin .car) .integer) env ∧
      dispatch 5 .ifElse (.ofList [print]) env =
        .failure (.arityMismatch (.builtin .ifElse) (.between 2 3) 1) env ∧
      (dispatch 5 .letIn (.ofList [clauses, print])).Rejects env ∧
      ((run 4).call (.procedure (.ofList [.symbol "x", .symbol "x"]) [print])
        (.ofList [print, print])).Rejects env ∧
      (run 4).call twice (.chain [print] (.integer 2)) env =
        .failure (.notAPair .procedure .integer) env ∧
      (run 4).call twice (.ofList [print]) env =
        .failure (.arityMismatch .procedure (.exactly 2) 1) env ∧
      ((run 4).applyTo twice [print]).Rejects env := by
  intro env print clauses twice
  have hxy : (Formals.positional ["x", "y"]).Bindable := ⟨by decide, by decide⟩
  obtain ⟨htail, harity, hlet, hcall, hchain, hcount, hvalues⟩ :=
    malformed_calls_have_no_effect 4 env
  refine ⟨htail .car _ (fun h => nomatch h), harity .ifElse _ rfl, hlet clauses [print] ?_,
    hcall _ [print] _ ?_, hchain (.positional ["x", "y"]) [print] _ hxy (fun h => nomatch h),
    hcount ["x", "y"] [print] [print] hxy (by decide), hvalues _ [print] [print] ?_⟩
  · intro parts hparts hbindable
    obtain rfl := clausesOf_injective hparts
    exact absurd hbindable.1 (by decide)
  · intro formals exprs hformals hbindable
    obtain rfl : .positional ["x", "x"] = formals := Formals.toCell_injective hformals
    exact absurd hbindable.1 (by decide)
  · intro formals hformals _ hfits
    obtain rfl : .positional ["x", "y"] = formals := Formals.toCell_injective hformals
    simp [Formals.Fits] at hfits

end ConsLisp

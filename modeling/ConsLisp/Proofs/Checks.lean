import ConsLisp.Eval.Run

/-!
# What checks establish

A form checks its operands before it relies on them, and each check is a pure function to
`Except EvalError`.  `Meets Q check` says both halves of what a check is worth: its result
satisfies `Q`, and if it fails, the error it reports is justified (`EvalError.Justified`).  There
is one lemma for each check of the library.

The lemmas are relative to a class `P` of cells that is closed under taking cells apart and putting
them together (`Hereditary`).  What an evaluation yields is in the class or an operator
(`Passing`), and `Cell.checkStorable` is where operators are sorted out.
-/

namespace ConsLisp

/-! ## Classes of cells -/

/-- A class of cells that holds every atom other than an operator or a procedure, and a pair exactly
if it holds both halves of it. -/
structure DataClass (P : Cell → Prop) : Prop where
  nil : P .nil
  integer : ∀ n, P (.integer n)
  double : ∀ x, P (.double x)
  symbol : ∀ name, P (.symbol name)
  pair_iff : ∀ {car cdr}, P (.pair car cdr) ↔ P car ∧ P cdr

/-- A class of data that also holds a procedure exactly if it holds all parts of it. -/
structure Hereditary (P : Cell → Prop) : Prop extends DataClass P where
  procedure_iff : ∀ {formals body}, P (.procedure formals body) ↔ P formals ∧ ∀ c ∈ body, P c

/-- A value in transit: a member of the class, or an operator, which is never stored. -/
def Passing (P : Cell → Prop) (c : Cell) : Prop :=
  P c ∨ ∃ op, c = .operator op

/-- The class of all cells. -/
theorem Hereditary.all : Hereditary fun _ => True where
  nil := trivial
  integer _ := trivial
  double _ := trivial
  symbol _ := trivial
  pair_iff := by simp
  procedure_iff := by simp

namespace DataClass

variable {P : Cell → Prop} (hP : DataClass P)

include hP

theorem ofBool (b : Bool) : P (.ofBool b) := by
  unfold Cell.ofBool
  split <;> exact hP.integer _

theorem number (a : Number) : P a.toCell := by
  cases a with
  | integer n => exact hP.integer n
  | double x => exact hP.double x

theorem items {c : Cell} (h : P c) : ∀ x ∈ c.items, P x := by
  induction c with
  | pair car cdr _ ih =>
    obtain ⟨hcar, hcdr⟩ := hP.pair_iff.1 h
    intro x hx
    rcases List.mem_cons.1 hx with rfl | hx
    · exact hcar
    · exact ih hcdr x hx
  | _ => simp [Cell.items]

theorem ofList {xs : List Cell} (h : ∀ x ∈ xs, P x) : P (.ofList xs) := by
  induction xs with
  | nil => exact hP.nil
  | cons x xs ih =>
    rw [Cell.ofList_cons]
    exact hP.pair_iff.2 ⟨h x List.mem_cons_self, ih fun y hy => h y (List.mem_cons_of_mem x hy)⟩

theorem quoted {v : Cell} (h : P v) : P (Evaluator.quoted v) := by
  unfold Evaluator.quoted
  split
  · exact hP.ofList (by simp [h, hP.symbol])
  · exact hP.ofList (by simp [h, hP.symbol])
  · exact h

end DataClass

/-! ## Justified errors -/

/-- The errors that a check reports, when they tell the truth about what was checked.  An unbound
symbol and a refused output are not found by checks but by the environment. -/
def EvalError.Justified : EvalError → Prop
  | unboundSymbol _ => False
  | output _ => False
  | reservedName name => Operator.isReserved name = true
  | duplicateDefinition name => Operator.isReserved name = false
  | arityMismatch _ expected found => expected.accepts found = false
  | notAPair _ found => found ≠ .nil ∧ found ≠ .pair
  | typeMismatch _ .number found => found ≠ .value .integer ∧ found ≠ .value .double
  | typeMismatch _ .storableValue found => found = .value .operator
  | _ => True

/-- A check whose result satisfies `Q`, and which fails only with a justified error. -/
def Meets {A : Type} (Q : A → Prop) : Except EvalError A → Prop
  | .ok a => Q a
  | .error e => e.Justified

namespace Meets

variable {A B : Type} {Q : A → Prop} {Q' : B → Prop}

theorem mono {Q₁ : A → Prop} {check : Except EvalError A} (h : Meets Q check)
    (hQ : ∀ a, Q a → Q₁ a) : Meets Q₁ check := by
  cases check with
  | ok a => exact hQ a h
  | error e => exact h

theorem bind {check : Except EvalError A} {next : A → Except EvalError B} (h : Meets Q check)
    (hnext : ∀ a, Q a → Meets Q' (next a)) : Meets Q' (check >>= next) := by
  cases check with
  | ok a => exact hnext a h
  | error e => exact h

/-- A check of each member that finds where it comes from. -/
theorem mapM_eq {C : Type} {f : C → Except EvalError A} {g : A → C} {xs : List C}
    (h : ∀ x ∈ xs, Meets (fun y => x = g y) (f x)) :
    Meets (fun ys => xs = ys.map g) (xs.mapM f) := by
  induction xs with
  | nil => exact rfl
  | cons x xs ih =>
    rw [List.mapM_cons]
    refine (h x List.mem_cons_self).bind fun y hy => ?_
    refine (ih fun z hz => h z (List.mem_cons_of_mem x hz)).bind fun ys hys => ?_
    show x :: xs = g y :: ys.map g
    rw [hy, hys]

theorem forM {f : A → Except EvalError Unit} {xs : List A}
    (h : ∀ x ∈ xs, Meets (fun _ => Q x) (f x)) : Meets (fun _ => ∀ x ∈ xs, Q x) (xs.forM f) := by
  induction xs with
  | nil => exact fun x hx => absurd hx List.not_mem_nil
  | cons x xs ih =>
    rw [List.forM_eq_forM, List.forM_cons]
    refine (h x List.mem_cons_self).bind fun _ hx => ?_
    refine (ih fun y hy => h y (List.mem_cons_of_mem x hy)).mono fun _ hxs => ?_
    intro y hy
    rcases List.mem_cons.1 hy with rfl | hy
    · exact hx
    · exact hxs y hy

end Meets

/-! ## Names and formals -/

theorem checkBindable_meets (name : String) :
    Meets (fun _ => Operator.isReserved name = false) (checkBindable name) := by
  unfold checkBindable
  split
  · next h => exact h
  · next h => exact Bool.eq_false_iff.2 h

/-- What the formals of a procedure have passed: no name is reserved and none repeats. -/
def Formals.Bindable : Formals → Prop
  | .positional names => names.Nodup ∧ ∀ name ∈ names, Operator.isReserved name = false
  | .variadic name => Operator.isReserved name = false

theorem Formals.names_meets (seen : List String) (formals : List Cell) :
    Meets (fun names => names.Nodup ∧
      ∀ name ∈ names, Operator.isReserved name = false ∧ name ∉ seen)
      (Formals.names seen formals) := by
  induction formals generalizing seen with
  | nil => simp [Formals.names, Meets]
  | cons formal rest ih =>
    cases formal with
    | symbol name =>
      refine (checkBindable_meets name).bind fun _ hname => ?_
      split
      · exact hname
      · next hseen =>
        refine (ih (name :: seen)).bind fun names ⟨hnodup, hnames⟩ => ?_
        refine ⟨List.nodup_cons.2 ⟨fun hmem => ?_, hnodup⟩, fun n hn => ?_⟩
        · exact (hnames name hmem).2 List.mem_cons_self
        · rcases List.mem_cons.1 hn with rfl | hn
          · exact ⟨hname, hseen⟩
          · exact ⟨(hnames n hn).1, fun hmem => (hnames n hn).2 (List.mem_cons_of_mem _ hmem)⟩
    | _ => trivial

theorem Cell.operands_meets_ofList (form : Form) (args : Cell) :
    Meets (fun xs => args = ofList xs) (args.operands form) := by
  have htail := isPair_tail args
  cases h : args.operands form with
  | ok xs => exact operands_eq_ok_iff.1 h
  | error e =>
    unfold operands at h
    split at h
    · cases h
    · next other hnil =>
      obtain rfl := Except.error.inj h
      refine ⟨fun h => hnil (Cell.kind_eq_nil_iff.1 h), fun h => ?_⟩
      rw [Cell.kind_eq_pair_iff.1 h] at htail
      exact Bool.noConfusion htail

theorem Cell.operands_meets {P : Cell → Prop} (hP : DataClass P) {form : Form} {args : Cell}
    (h : Passing P args) : Meets (fun xs => ∀ x ∈ xs, P x) (args.operands form) := by
  refine (operands_meets_ofList form args).mono fun xs hargs x hx => ?_
  subst hargs
  rcases h with h | ⟨op, hop⟩
  · exact hP.items h x (by rwa [items_ofList])
  · cases xs with
    | nil => cases hop
    | cons y ys => cases hop

theorem Formals.ofCell_meets (formals : Cell) :
    Meets Formals.Bindable (Formals.ofCell formals) := by
  cases formals with
  | nil => exact ⟨List.nodup_nil, by simp⟩
  | symbol name => exact (checkBindable_meets name).bind fun _ hname => hname
  | pair car cdr =>
    refine (Cell.operands_meets_ofList _ _).bind fun list _ => ?_
    refine (Formals.names_meets [] list).bind fun names ⟨hnodup, hnames⟩ => ?_
    exact ⟨hnodup, fun name hname => (hnames name hname).1⟩
  | _ => trivial

theorem Formals.checkCount_meets (formals : Formals) (count : Nat) :
    Meets (fun _ => ∀ names, formals = .positional names → names.length = count)
      (formals.checkCount count) := by
  cases formals with
  | positional names =>
    by_cases h : names.length = count
    · rw [checkCount, if_pos h]
      rintro names' heq
      rwa [← Formals.positional.inj heq]
    · rw [checkCount, if_neg h]
      exact beq_false_of_ne (Ne.symm h)
  | variadic name => exact fun _ heq => nomatch heq

/-! ## Values -/

section Values

variable {P : Cell → Prop}

theorem Cell.checkStorable_meets {form : Form} {value : Cell} (h : Passing P value) :
    Meets (fun _ => P value) (value.checkStorable form) := by
  rcases h with h | ⟨op, rfl⟩
  · unfold checkStorable
    split
    · rfl
    · exact h
  · rfl

theorem Cell.checkStorable_of_kind {form : Form} {value : Cell} (h : value.kind ≠ .operator) :
    value.checkStorable form = .ok () := by
  cases value with
  | operator op => exact absurd rfl h
  | _ => rfl

/-- Whatever the formals, a frame gets values of the class only. -/
theorem Formals.bindings_meets (hP : DataClass P) (formals : Formals) {values : List Cell}
    (h : ∀ v ∈ values, Passing P v) :
    Meets (fun bindings => ∀ b ∈ bindings, P b.2) (formals.bindings values) := by
  refine (Meets.forM fun v hv => Cell.checkStorable_meets (h v hv)).bind fun _ hvalues => ?_
  cases formals with
  | positional names => exact fun b hb => hvalues b.2 (List.of_mem_zip hb).2
  | variadic name =>
    intro b hb
    rw [List.mem_singleton.1 hb]
    exact hP.ofList hvalues

namespace Evaluator

theorem asNumber_meets (op : Operator) (value : Cell) :
    Meets (fun _ => True) (asNumber op value) := by
  cases value <;> simp [asNumber, Number.ofCell?, Meets, EvalError.Justified, Cell.kind]

theorem truth_meets (value : Cell) : Meets (fun _ => True) (truth value) := by
  cases value <;> trivial

theorem halves_meets (hP : DataClass P) {op : Operator} {value : Cell} (h : Passing P value) :
    Meets (fun parts => P parts.1 ∧ P parts.2) (halves op value) := by
  rcases h with h | ⟨op, rfl⟩
  · cases value with
    | pair car cdr => exact hP.pair_iff.1 h
    | nil => trivial
    | _ => simp [halves, Meets, EvalError.Justified, Cell.kind]
  · simp [halves, Meets, EvalError.Justified, Cell.kind]

theorem definedName_meets (target : Cell) :
    Meets (fun name => Operator.isReserved name = false) (definedName target) := by
  cases target with
  | symbol name => exact (checkBindable_meets name).bind fun _ hname => hname
  | _ => trivial

theorem clause_meets (c : Cell) :
    Meets (fun parts => c = .ofList [parts.1, parts.2]) (clause c) := by
  refine (Cell.operands_meets_ofList _ _).bind fun parts hparts => ?_
  split
  · exact hparts
  · next hlength =>
    rcases parts with _ | ⟨a, _ | ⟨b, _ | ⟨c, parts⟩⟩⟩
    · rfl
    · rfl
    · exact absurd rfl (hlength a b)
    · simp [Meets, EvalError.Justified, Arity.accepts]

end Evaluator

theorem Number.div_meets (a b : Number) : Meets (fun _ => True) (a.div b) := by
  unfold Number.div
  split <;> trivial

theorem Number.reciprocal_meets (a : Number) : Meets (fun _ => True) a.reciprocal := by
  unfold Number.reciprocal
  split <;> trivial

end Values

end ConsLisp

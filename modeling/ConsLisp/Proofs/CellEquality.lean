import ConsLisp.Cell.Equality
import ConsLisp.Cell.Spine
import ConsLisp.Proofs.DoubleEquality

/-!
# What equality of cells says

Equality of cells is the identity of cells, but for the doubles in them: the two zeros are equal,
and a NaN equals nothing.  So a cell is compared by what is left of it when no zero has a sign
(`Cell.unsigned`), and only if there is no NaN in it (`Cell.beq_iff`).  From this it follows that
equality is symmetric and transitive, and which cells are equal to themselves.

Along their spines two cells are compared item by item and then by their tails
(`Cell.beq_iff_spines`), which is what tells lists of different lengths apart.
-/

namespace ConsLisp

namespace Cell

/-! ## The doubles in a cell -/

mutual

/-- All doubles in a cell: in halves of pairs, in formals and in bodies. -/
def doubles : Cell → List Double
  | double x => [x]
  | pair car cdr => car.doubles ++ cdr.doubles
  | procedure formals body => formals.doubles ++ allDoubles body
  | _ => []

/-- All doubles in any cell of a list. -/
def allDoubles : List Cell → List Double
  | [] => []
  | c :: cs => c.doubles ++ allDoubles cs

end

mutual

/-- The cell with `f x` in the place of every double `x`. -/
def mapDoubles (f : Double → Double) : Cell → Cell
  | double x => double (f x)
  | pair car cdr => pair (car.mapDoubles f) (cdr.mapDoubles f)
  | procedure formals body => procedure (formals.mapDoubles f) (mapAllDoubles f body)
  | c => c

/-- The list of cells with `f x` in the place of every double `x` of each. -/
def mapAllDoubles (f : Double → Double) : List Cell → List Cell
  | [] => []
  | c :: cs => c.mapDoubles f :: mapAllDoubles f cs

end

theorem mem_allDoubles_iff {x : Double} {cs : List Cell} :
    x ∈ allDoubles cs ↔ ∃ c ∈ cs, x ∈ c.doubles := by
  induction cs with
  | nil => simp [allDoubles]
  | cons c cs ih => simp [allDoubles, ih]

theorem mapAllDoubles_eq_map (f : Double → Double) (cs : List Cell) :
    mapAllDoubles f cs = cs.map (mapDoubles f) := by
  induction cs with
  | nil => rfl
  | cons c cs ih => rw [mapAllDoubles, ih, List.map_cons]

theorem kind_mapDoubles (f : Double → Double) (c : Cell) : (c.mapDoubles f).kind = c.kind := by
  cases c <;> rfl

theorem mapDoubles_eq_self {f : Double → Double} {c : Cell} (h : ∀ x ∈ c.doubles, f x = x) :
    c.mapDoubles f = c := by
  induction c with
  | double x => exact congrArg double (h x (List.mem_singleton_self x))
  | pair car cdr ihcar ihcdr =>
    rw [mapDoubles, ihcar fun x hx => h x (List.mem_append_left _ hx),
      ihcdr fun x hx => h x (List.mem_append_right _ hx)]
  | procedure formals body ihformals ihbody =>
    have hbody : body.map (mapDoubles f) = body := by
      refine (List.map_congr_left fun c hc => ?_).trans (List.map_id body)
      exact ihbody c hc fun x hx => h x (List.mem_append_right _ (mem_allDoubles_iff.2 ⟨c, hc, hx⟩))
    rw [mapDoubles, ihformals fun x hx => h x (List.mem_append_left _ hx), mapAllDoubles_eq_map,
      hbody]
  | _ => rfl

/-- There is no NaN in a cell. -/
def NaNFree (c : Cell) : Prop :=
  ∀ x ∈ c.doubles, x.isNaN = false

/-- There is no zero of either sign among the doubles in a cell. -/
def ZeroFree (c : Cell) : Prop :=
  ∀ x ∈ c.doubles, x ≠ 0 ∧ x ≠ -0

/-- A cell without the signs of the zeros in it. -/
def unsigned (c : Cell) : Cell :=
  c.mapDoubles Double.unsigned

instance (c : Cell) : Decidable c.NaNFree :=
  inferInstanceAs (Decidable (∀ x ∈ c.doubles, x.isNaN = false))

instance (c : Cell) : Decidable c.ZeroFree :=
  inferInstanceAs (Decidable (∀ x ∈ c.doubles, x ≠ 0 ∧ x ≠ -0))

theorem naNFree_pair_iff {car cdr : Cell} :
    (pair car cdr).NaNFree ↔ car.NaNFree ∧ cdr.NaNFree :=
  List.forall_mem_append

theorem naNFree_procedure_iff {formals : Cell} {body : List Cell} :
    (procedure formals body).NaNFree ↔ formals.NaNFree ∧ ∀ c ∈ body, c.NaNFree := by
  refine List.forall_mem_append.trans (and_congr_right' ?_)
  simp only [mem_allDoubles_iff, NaNFree]
  exact ⟨fun h c hc x hx => h x ⟨c, hc, hx⟩, fun h x ⟨c, hc, hx⟩ => h c hc x hx⟩

theorem ZeroFree.unsigned_eq {c : Cell} (h : c.ZeroFree) : c.unsigned = c :=
  mapDoubles_eq_self fun x hx => if_neg (h x hx).2

/-! ## Equality -/

theorem beq_of_kind_ne {a b : Cell} (h : a.kind ≠ b.kind) : (a == b) = false := by
  cases a <;> cases b <;> first | rfl | exact absurd rfl h

/-- Cells of different kinds are not equal, and differ in more than their zeros. -/
theorem beq_iff_of_kind_ne {a b : Cell} (h : a.kind ≠ b.kind) :
    (a == b) = true ↔ (a.NaNFree ∧ b.NaNFree) ∧ a.unsigned = b.unsigned := by
  rw [beq_of_kind_ne h]
  refine iff_of_false Bool.false_ne_true fun ⟨_, heq⟩ => h ?_
  rw [← kind_mapDoubles Double.unsigned a, ← kind_mapDoubles Double.unsigned b]
  exact congrArg kind heq

/-- Cells without doubles are told apart by whatever they differ in. -/
theorem alike_iff_of_doubles_eq_nil {a b : Cell} (ha : a.doubles = []) (hb : b.doubles = []) :
    (a.NaNFree ∧ b.NaNFree) ∧ a.unsigned = b.unsigned ↔ a = b := by
  have hfree {c : Cell} (h : c.doubles = []) : c.NaNFree ∧ c.unsigned = c := by
    have hnone (x : Double) (hx : x ∈ c.doubles) : False := by
      rw [h] at hx
      exact List.not_mem_nil hx
    exact ⟨fun x hx => (hnone x hx).elim, mapDoubles_eq_self fun x hx => (hnone x hx).elim⟩
  rw [(hfree ha).2, (hfree hb).2]
  exact and_iff_right ⟨(hfree ha).1, (hfree hb).1⟩

theorem beqAll_iff {cs cs' : List Cell}
    (h : ∀ c ∈ cs, ∀ c', (c == c') = true ↔ (c.NaNFree ∧ c'.NaNFree) ∧ c.unsigned = c'.unsigned) :
    beqAll cs cs' = true ↔ ((∀ c ∈ cs, c.NaNFree) ∧ ∀ c ∈ cs', c.NaNFree) ∧
      cs.map unsigned = cs'.map unsigned := by
  induction cs generalizing cs' with
  | nil => cases cs' <;> simp [beqAll]
  | cons c cs ih =>
    cases cs' with
    | nil => simp [beqAll]
    | cons c' cs' =>
      have hfirst := h c List.mem_cons_self c'
      have hrest : beqAll cs cs' = true ↔ _ := ih fun c hc => h c (List.mem_cons_of_mem _ hc)
      show ((c == c') && beqAll cs cs') = true ↔ _
      rw [Bool.and_eq_true, hfirst, hrest]
      simp only [List.forall_mem_cons, List.map_cons, List.cons.injEq]
      tauto

/-- Two cells are equal if there is no NaN in them and they differ in the signs of zeros only. -/
theorem beq_iff {a b : Cell} :
    (a == b) = true ↔ (a.NaNFree ∧ b.NaNFree) ∧ a.unsigned = b.unsigned := by
  induction a generalizing b with
  | nil =>
    cases b with
    | nil => exact iff_of_true rfl ((alike_iff_of_doubles_eq_nil rfl rfl).2 rfl)
    | _ => exact beq_iff_of_kind_ne nofun
  | integer m =>
    cases b with
    | integer n =>
      rw [alike_iff_of_doubles_eq_nil rfl rfl, integer.injEq]
      exact (beq_iff_eq : (m == n) = true ↔ m = n)
    | _ => exact beq_iff_of_kind_ne nofun
  | double x =>
    cases b with
    | double y =>
      show (x == y) = true ↔ _
      rw [Double.beq_iff]
      simp [NaNFree, doubles, unsigned, mapDoubles]
    | _ => exact beq_iff_of_kind_ne nofun
  | symbol s =>
    cases b with
    | symbol t =>
      rw [alike_iff_of_doubles_eq_nil rfl rfl, symbol.injEq]
      exact (beq_iff_eq : (s == t) = true ↔ s = t)
    | _ => exact beq_iff_of_kind_ne nofun
  | operator op =>
    cases b with
    | operator op' =>
      rw [alike_iff_of_doubles_eq_nil rfl rfl, operator.injEq]
      exact (beq_iff_eq : (op == op') = true ↔ op = op')
    | _ => exact beq_iff_of_kind_ne nofun
  | pair car cdr ihcar ihcdr =>
    cases b with
    | pair car' cdr' =>
      show ((car == car') && (cdr == cdr')) = true ↔ _
      rw [Bool.and_eq_true, ihcar, ihcdr, naNFree_pair_iff, naNFree_pair_iff]
      simp only [unsigned, mapDoubles, pair.injEq]
      tauto
    | _ => exact beq_iff_of_kind_ne nofun
  | procedure formals body ihformals ihbody =>
    cases b with
    | procedure formals' body' =>
      show ((formals == formals') && beqAll body body') = true ↔ _
      rw [Bool.and_eq_true, ihformals, beqAll_iff fun c hc c' => ihbody c hc]
      simp only [naNFree_procedure_iff, unsigned, mapDoubles, mapAllDoubles_eq_map, procedure.injEq]
      tauto
    | _ => exact beq_iff_of_kind_ne nofun

/-! ## Along the spine -/

/-- Two spines are walked in step: the items are compared one by one, and at the end the tails. -/
theorem beq_iff_spines {a b : Cell} :
    (a == b) = true ↔
      List.Forall₂ (fun c c' => (c == c') = true) a.items b.items ∧ (a.tail == b.tail) = true := by
  induction a generalizing b with
  | pair car cdr _ ih =>
    cases b with
    | pair car' cdr' =>
      show ((car == car') && (cdr == cdr')) = true ↔ _
      rw [Bool.and_eq_true, ih, items, items, List.forall₂_cons, and_assoc]
      rfl
    | _ =>
      refine iff_of_false Bool.false_ne_true fun h => ?_
      exact List.cons_ne_nil _ _ (List.forall₂_nil_right_iff.1 h.1)
  | _ =>
    cases b with
    | pair car' cdr' =>
      refine iff_of_false Bool.false_ne_true fun h => ?_
      exact List.cons_ne_nil _ _ (List.forall₂_nil_left_iff.1 h.1)
    | _ => exact (and_iff_right .nil).symm

/-- What is equal to a proper list is a proper list of the same length. -/
theorem exists_ofList_of_beq {xs : List Cell} {b : Cell} (h : (ofList xs == b) = true) :
    ∃ ys, b = ofList ys ∧ ys.length = xs.length := by
  obtain ⟨hitems, htail⟩ := beq_iff_spines.1 h
  rw [items_ofList] at hitems
  rw [tail_ofList] at htail
  have hnil : b.tail = nil := by
    by_contra hne
    rw [beq_of_kind_ne fun hkind => hne (kind_eq_nil_iff.1 hkind.symm)] at htail
    cases htail
  refine ⟨b.items, ?_, hitems.length_eq.symm⟩
  rw [ofList, ← hnil, chain_items_tail]

/-- **Equality is identity up to the signs of zeros, and it fails on NaN.**  So it is symmetric and
transitive, a cell is equal to itself unless there is a NaN in it, and between cells without NaNs
and zeros it is identity.  Integers are never equal to doubles, and a proper list is equal to proper
lists of its length only. -/
theorem equality_is_identity_up_to_zeros :
    (∀ a b : Cell, (a == b) = true ↔ (a.NaNFree ∧ b.NaNFree) ∧ a.unsigned = b.unsigned) ∧
    (∀ a b : Cell, (a == b) = (b == a)) ∧
    (∀ a b c : Cell, (a == b) = true → (b == c) = true → (a == c) = true) ∧
    (∀ c : Cell, (c == c) = true ↔ c.NaNFree) ∧
    (∀ n x, (integer n == double x) = false) ∧
    (∀ xs b, (ofList xs == b) = true → ∃ ys, b = ofList ys ∧ ys.length = xs.length) ∧
    ∀ a b : Cell, a.ZeroFree → b.ZeroFree → (a == b) = true → a = b := by
  refine ⟨fun a b => beq_iff, fun a b => ?_, fun a b c hab hbc => ?_, fun c => ?_,
    fun n x => rfl, fun xs b => exists_ofList_of_beq, fun a b ha hb h => ?_⟩
  · rw [Bool.eq_iff_iff, beq_iff, beq_iff, and_comm (a := a.NaNFree), eq_comm]
  · obtain ⟨⟨ha, -⟩, heq⟩ := beq_iff.1 hab
    obtain ⟨⟨-, hc⟩, heq'⟩ := beq_iff.1 hbc
    exact beq_iff.2 ⟨⟨ha, hc⟩, heq.trans heq'⟩
  · rw [beq_iff, and_self, and_iff_left rfl]
  · have heq := (beq_iff.1 h).2
    rwa [ha.unsigned_eq, hb.unsigned_eq] at heq

/-- The two zeros and a NaN in the body of a procedure, and two lists without any of them. -/
theorem equality_is_identity_up_to_zeros_in_bodies :
    let returning (x : Double) : Cell := procedure (symbol "x") [double x]
    let list (n : Int64) : Cell := ofList [integer 1, double (Double.ofInt64 n)]
    ((returning (-0) == returning 0) = true ∧ (returning 0 == returning (-0)) = true ∧
        (returning (-0) == returning (-0)) = true) ∧
      ¬ (returning (0 / 0) == returning (0 / 0)) = true ∧
      (list 2 == list 2) = true ∧ (∃ ys, list 2 = ofList ys ∧ ys.length = 2) ∧
      ¬ (list 2 == list 3) = true := by
  intro returning list
  obtain ⟨hiff, hsymm, htrans, hself, -, hlists, hidentity⟩ := equality_is_identity_up_to_zeros
  have hfree (x : Double) (hx : x.isNaN = false) : (returning x).NaNFree := by
    intro y hy
    rwa [List.mem_singleton.1 hy]
  have hzeros : (returning (-0) == returning 0) = true :=
    (hiff _ _).2 ⟨⟨hfree _ (by decide), hfree _ (by decide)⟩,
      congrArg returning (by decide : Double.unsigned (-0) = Double.unsigned 0)⟩
  have hzeros' : (returning 0 == returning (-0)) = true := (hsymm _ _).trans hzeros
  have hlist : (list 2 == list 2) = true := (hself _).2 (by decide)
  refine ⟨⟨hzeros, hzeros', htrans _ _ _ hzeros hzeros'⟩, fun hnan => ?_, hlist,
    hlists _ _ hlist, fun h => ?_⟩
  · have hnone := (hself _).1 hnan (0 / 0) (List.mem_singleton_self _)
    exact absurd hnone (by decide)
  · have heq : list 2 = list 3 := hidentity _ _ (by decide) (by decide) h
    have hdoubles := congrArg doubles heq
    exact absurd hdoubles (by decide)

end Cell

end ConsLisp

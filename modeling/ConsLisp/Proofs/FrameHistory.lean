import ConsLisp.Frame.Containers
import ConsLisp.Frame.Script
import ConsLisp.Proofs.Growth
import Mathlib.Data.List.DropRight
import Mathlib.Data.Set.Card

/-!
# Frames and their histories

What a frame answers depends on everything that was done to it before.  `Frame.held` reads off a
history what a name must be bound to: the value of the first insertion that was accepted since the
name was last erased.  One operation changes what can be found just as it changes this value
(`Frame.find?_apply`, `Frame.held_append_singleton`), so they agree after every script
(`Frame.find?_after`).  All other answers of a frame follow from what can be found in it, which is
the content of `Frame.IsMapOf`.
-/

namespace ConsLisp

namespace Frame

/-! ## Histories -/

namespace Operation

def erases (name : String) : Operation → Bool
  | .erase n => n == name
  | _ => false

/-- The value that an operation has bound a name to, judging by its reply. -/
def accepted? (name : String) : Operation → Reply → Option Cell
  | .insert n value, .flag true => if name == n then some value else none
  | _, _ => none

end Operation

/-- The value of the first insertion of a name that was accepted since the name was last erased. -/
def held (history : List (Operation × Reply)) (name : String) : Option Cell :=
  (history.rtakeWhile fun entry => !entry.1.erases name).findSome? fun entry =>
    entry.1.accepted? name entry.2

theorem held_append_singleton (history : List (Operation × Reply)) (operation : Operation)
    (reply : Reply) (name : String) :
    held (history ++ [(operation, reply)]) name =
      if operation.erases name then none
      else (held history name).or (operation.accepted? name reply) := by
  unfold held
  cases h : operation.erases name with
  | true =>
    rw [List.rtakeWhile_concat_neg _ _ _ (by simp [h])]
    rfl
  | false =>
    rw [List.rtakeWhile_concat_pos _ _ _ (by simp [h]), List.findSome?_append,
      List.findSome?_singleton]
    rfl

section

variable {F : Type} [Frame F]

/-- The frame that a script leaves. -/
def after (f : F) (script : List Operation) : F :=
  script.foldl (fun f operation => (operation.apply f).2) f

theorem after_append_singleton (f : F) (script : List Operation) (operation : Operation) :
    after f (script ++ [operation]) = (operation.apply (after f script)).2 := by
  rw [after, List.foldl_append]
  rfl

variable (F) in
/-- The operations of a script on an empty frame, each with its reply. -/
def history (script : List Operation) : List (Operation × Reply) :=
  script.zip (replies (empty : F) script)

theorem length_replies (f : F) (script : List Operation) :
    (replies f script).length = script.length := by
  induction script generalizing f with
  | nil => rfl
  | cons operation script ih => exact congrArg Nat.succ (ih _)

theorem replies_append_singleton (f : F) (script : List Operation) (operation : Operation) :
    replies f (script ++ [operation]) =
      replies f script ++ [(operation.apply (after f script)).1] := by
  induction script generalizing f with
  | nil => rfl
  | cons first script ih => exact congrArg (List.cons _) (ih _)

theorem history_append_singleton (script : List Operation) (operation : Operation) :
    history F (script ++ [operation]) =
      history F script ++ [(operation, (operation.apply (after (empty : F) script)).1)] := by
  rw [history, replies_append_singleton, List.zip_append (length_replies _ _).symm]
  rfl

end

/-! ## What can be found -/

section

variable {F : Type} [Frame F] [LawfulFrame F]

theorem insertNew_of_free {f : F} {name : String} (h : find? f name = none) (value : Cell) :
    ∃ g, insertNew f name value = (true, g) ∧ insert? f name value = some g := by
  obtain ⟨g, hg⟩ := exists_insert? value h
  exact ⟨g, by rw [insertNew, hg], hg⟩

theorem insertNew_of_bound {f : F} {name : String} (h : find? f name ≠ none) (value : Cell) :
    insertNew f name value = (false, f) := by
  rw [insertNew, (LawfulFrame.insert?_eq_none_iff f name value).2 (Option.isSome_iff_ne_none.2 h)]

/-- One operation changes what can be found by what it erases or adds. -/
theorem find?_apply (f : F) (operation : Operation) (name : String) :
    find? (operation.apply f).2 name =
      if operation.erases name then none
      else (find? f name).or (operation.accepted? name (operation.apply f).1) := by
  cases operation with
  | insert n value =>
    by_cases h : find? f n = none
    · obtain ⟨g, hnew, hinsert⟩ := insertNew_of_free h value
      simp only [Operation.apply, hnew]
      exact find?_insert? hinsert name
    · simp only [Operation.apply, insertNew_of_bound h]
      exact Option.or_none.symm
  | erase n =>
    show find? (erase f n) name = if n == name then none else (find? f name).or none
    rw [LawfulFrame.find?_erase, Option.or_none]
    simp only [beq_iff_eq]
  | _ => exact Option.or_none.symm

theorem find?_after (script : List Operation) (name : String) :
    find? (after (empty : F) script) name = held (history F script) name := by
  induction script using List.reverseRecOn with
  | nil => exact LawfulFrame.find?_empty name
  | append_singleton script operation ih =>
    rw [after_append_singleton, find?_apply, ih, history_append_singleton, held_append_singleton]

end

/-! ## Answers -/

variable {F : Type} [Frame F]

/-- A frame answers every operation as the finite map `m` would. -/
structure IsMapOf (f : F) (m : String → Option Cell) : Prop where
  insert_reply : ∀ name value,
    ((Operation.insert name value).apply f).1 = .flag (m name).isNone
  /-- An insertion that is refused changes nothing. -/
  insert_refused : ∀ name value, m name ≠ none →
    ((Operation.insert name value).apply f).2 = f
  find_reply : ∀ name, ((Operation.find name).apply f).1 = .found (m name)
  erase_reply : ∀ name,
    ((Operation.erase name).apply f).1 = .count (if m name = none then 0 else 1)
  /-- Of all names only the one is removed. -/
  find?_erase : ∀ name n,
    find? ((Operation.erase name).apply f).2 n = if name = n then none else m n
  size_reply : ∃ count : Nat, (Operation.size.apply f).1 = .count count ∧
    {name | m name ≠ none}.encard = count
  isEmpty_reply : ∃ b, (Operation.isEmpty.apply f).1 = .flag b ∧ (b = true ↔ size f = 0)
  /-- The bindings are shown in ascending order of their names. -/
  bindings_reply : ∃ all, (Operation.bindings.apply f).1 = .bindings all ∧
    (all.map Prod.fst).Pairwise (· < ·) ∧ ∀ name value, (name, value) ∈ all ↔ m name = some value
  mem_toList_iff : ∀ name value, (name, value) ∈ toList f ↔ m name = some value
  nodup_names : ((toList f).map Prod.fst).Nodup

/-- There are as many bindings as names that are bound. -/
theorem encard_names [LawfulFrame F] (f : F) :
    {name | find? f name ≠ none}.encard = size f := by
  have hnames :
      {name | find? f name ≠ none} = (((toList f).map Prod.fst).toFinset : Set String) := by
    ext name
    rw [List.coe_toFinset]
    show find? f name ≠ none ↔ name ∈ (toList f).map Prod.fst
    rw [← Option.isSome_iff_ne_none, Option.isSome_iff_exists, List.mem_map]
    constructor
    · rintro ⟨value, hvalue⟩
      exact ⟨(name, value), (LawfulFrame.mem_toList_iff f name value).2 hvalue, rfl⟩
    · rintro ⟨⟨n, value⟩, hmem, rfl⟩
      exact ⟨value, (LawfulFrame.mem_toList_iff f n value).1 hmem⟩
  rw [hnames, Set.encard_coe_eq_coe_finsetCard,
    List.toFinset_card_of_nodup (LawfulFrame.nodup_names f), List.length_map,
    LawfulFrame.size_eq_length]

theorem isMapOf_find? [LawfulFrame F] (f : F) : IsMapOf f (find? f) where
  insert_reply name value := by
    by_cases h : find? f name = none
    · obtain ⟨g, hnew, -⟩ := insertNew_of_free h value
      simp only [Operation.apply, hnew, h, Option.isNone_none]
    · simp only [Operation.apply, insertNew_of_bound h]
      rw [Option.isNone_eq_false_iff.2 (Option.isSome_iff_ne_none.2 h)]
  insert_refused name value h := by
    simp only [Operation.apply, insertNew_of_bound h]
  find_reply _ := rfl
  erase_reply name := by
    show Reply.count (if (find? f name).isSome then 1 else 0) = _
    cases find? f name <;> rfl
  find?_erase := LawfulFrame.find?_erase f
  size_reply := ⟨size f, rfl, encard_names f⟩
  isEmpty_reply := ⟨isEmpty f, rfl, beq_iff_eq⟩
  bindings_reply :=
    ⟨sorted f, rfl, map_fst_sorted f ▸ pairwise_lt_names f, fun _ _ => mem_sorted_iff⟩
  mem_toList_iff := LawfulFrame.mem_toList_iff f
  nodup_names := LawfulFrame.nodup_names f

theorem isMapOf_after [LawfulFrame F] (script : List Operation) :
    IsMapOf (after (empty : F) script) (held (history F script)) := by
  rw [← funext (find?_after script)]
  exact isMapOf_find? _

/-- A search tree lists its bindings by name. -/
theorem pairwise_lt_toList (f : OrderedFrame) :
    ((toList f).map Prod.fst).Pairwise (· < ·) := by
  have hordered : (toList f).Pairwise fun a b => compare a.1 b.1 = .lt :=
    Std.TreeMap.ordered_keys_toList
  rw [List.pairwise_map]
  exact hordered.imp compareOfLessAndEq_eq_lt.1

/-- **Both containers are finite maps that insert only absent names.**  After every script a frame
answers for the names that were inserted and not erased again, each with the value that it got
first, and a search tree lists them in ascending order. -/
theorem containers_are_finite_maps (script : List Operation) :
    IsMapOf (after (empty : HashFrame) script) (held (history HashFrame script)) ∧
      IsMapOf (after (empty : OrderedFrame) script) (held (history OrderedFrame script)) ∧
      ((toList (after (empty : OrderedFrame) script)).map Prod.fst).Pairwise (· < ·) :=
  ⟨isMapOf_after script, isMapOf_after script, pairwise_lt_toList _⟩

end Frame

end ConsLisp

import ConsLisp.Cell.Basic

/-!
# Frames

A frame is one level of scope: a finite map from names to cells that never overwrites.  `Frame`
lists what the rest of the library may ask of a container, and `LawfulFrame` says what the
answers mean, all of it in terms of `find?`.  Nothing is promised about the order in which a
container lists its bindings, so whoever shows them has to sort them (`Frame.sorted`).
-/

namespace ConsLisp

/-- A container that can hold the bindings of one scope. -/
class Frame (F : Type) where
  empty : F
  find? : F → String → Option Cell
  /-- The frame with one more binding, or `none` if the name is taken. -/
  insert? : F → String → Cell → Option F
  erase : F → String → F
  size : F → Nat
  /-- All bindings, in an order of the container's choice. -/
  toList : F → List (String × Cell)

/-- The laws of a finite map that inserts only absent names. -/
class LawfulFrame (F : Type) [Frame F] : Prop where
  find?_empty : ∀ name, Frame.find? (Frame.empty : F) name = none
  /-- An insertion is refused exactly when the name is bound. -/
  insert?_eq_none_iff : ∀ (f : F) name value,
    Frame.insert? f name value = none ↔ (Frame.find? f name).isSome
  find?_of_insert? : ∀ (f g : F) name value, Frame.insert? f name value = some g →
    ∀ n, Frame.find? g n = if name = n then some value else Frame.find? f n
  find?_erase : ∀ (f : F) name n,
    Frame.find? (Frame.erase f name) n = if name = n then none else Frame.find? f n
  /-- The list holds exactly the bindings that can be found. -/
  mem_toList_iff : ∀ (f : F) name value,
    (name, value) ∈ Frame.toList f ↔ Frame.find? f name = some value
  /-- The list names nothing twice. -/
  nodup_names : ∀ f : F, ((Frame.toList f).map Prod.fst).Nodup
  size_eq_length : ∀ f : F, Frame.size f = (Frame.toList f).length

namespace Frame

variable {F : Type} [Frame F]

def contains (f : F) (name : String) : Bool :=
  (find? f name).isSome

def isEmpty (f : F) : Bool :=
  size f == 0

/-- Adds a binding unless the name is taken, and says whether it was added. -/
def insertNew (f : F) (name : String) (value : Cell) : Bool × F :=
  match insert? f name value with
  | some g => (true, g)
  | none => (false, f)

/-- Adds bindings from left to right, so that of two for one name the first one stays.  For each
it is reported whether it was added. -/
def insertAll (f : F) : List (String × Cell) → List Bool × F
  | [] => ([], f)
  | (name, value) :: bindings =>
    let (added, f) := insertNew f name value
    let (rest, f) := insertAll f bindings
    (added :: rest, f)

/-- The frame that holds the given bindings. -/
def ofList (bindings : List (String × Cell)) : F :=
  (insertAll empty bindings).2

/-- Removes a name, and says how many bindings that removed. -/
def remove (f : F) (name : String) : Nat × F :=
  (if contains f name then 1 else 0, erase f name)

def names (f : F) : List String :=
  ((toList f).map Prod.fst).mergeSort

def sorted (f : F) : List (String × Cell) :=
  (toList f).mergeSort fun a b => decide (a.1 ≤ b.1)

theorem map_fst_sorted (f : F) : (sorted f).map Prod.fst = names f :=
  List.map_mergeSort fun _ _ _ _ => rfl

theorem pairwise_le_names (f : F) : (names f).Pairwise (· ≤ ·) := by
  have hsorted : (names f).Pairwise fun a b => decide (a ≤ b) = true := by
    refine List.pairwise_mergeSort (fun a b c hab hbc => ?_) (fun a b => ?_) _
    · exact decide_eq_true (String.le_trans (of_decide_eq_true hab) (of_decide_eq_true hbc))
    · simpa using String.le_total a b
  exact hsorted.imp of_decide_eq_true

section Lawful

variable [LawfulFrame F]

/-- The names of a frame ascend strictly, since no name is bound twice. -/
theorem pairwise_lt_names (f : F) : (names f).Pairwise (· < ·) := by
  have hnodup : (names f).Nodup :=
    (List.mergeSort_perm _ _).nodup_iff.2 (LawfulFrame.nodup_names f)
  refine ((pairwise_le_names f).and hnodup).imp fun {a b} h => ?_
  obtain ⟨hle, hne⟩ := h
  exact Decidable.byContradiction fun hlt => hne (String.le_antisymm hle hlt)

theorem mem_sorted_iff {f : F} {name : String} {value : Cell} :
    (name, value) ∈ sorted f ↔ find? f name = some value := by
  rw [sorted, (List.mergeSort_perm _ _).mem_iff, LawfulFrame.mem_toList_iff]

theorem mem_names_iff {f : F} {name : String} : name ∈ names f ↔ contains f name = true := by
  rw [← map_fst_sorted, contains, Option.isSome_iff_exists, List.mem_map]
  constructor
  · rintro ⟨⟨n, value⟩, hmem, rfl⟩
    exact ⟨value, mem_sorted_iff.1 hmem⟩
  · rintro ⟨value, hvalue⟩
    exact ⟨(name, value), mem_sorted_iff.2 hvalue, rfl⟩

end Lawful

end Frame

end ConsLisp

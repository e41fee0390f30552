import ConsLisp.Eval.Operands
import Mathlib.Data.List.Induction

/-!
# Iterating along a spine

An iteration along the spine of a cell takes the first half of a pair and goes on with the second,
until it has come to something that is not a pair.  At every moment of it nothing is lost: what has
been taken, put back in front of what is left, is the cell that the iteration started from
(`Cell.iterates_iff`).  So `items` and `tail` are what an iteration ends with, and a list, a copy or
the operands of a call, each of which is made by an iteration and a chain, are what they should be.
-/

namespace ConsLisp

namespace Cell

/-- What an iteration takes from a cell, and what is left then.  It is over at a cell that is not a
pair. -/
def next? : Cell → Option (Cell × Cell)
  | pair car cdr => some (car, cdr)
  | _ => none

/-- An iteration from `c` may have taken these items, in order, when the last cell is left. -/
inductive Iterates (c : Cell) : List Cell → Cell → Prop
  | start : Iterates c [] c
  | step {taken item left rest} : Iterates c taken left → left.next? = some (item, rest) →
    Iterates c (taken ++ [item]) rest

theorem next?_eq_some_iff {c item rest : Cell} :
    c.next? = some (item, rest) ↔ c = pair item rest := by
  cases c <;> simp [next?]

theorem next?_eq_none_iff {c : Cell} : c.next? = none ↔ c.isPair = false := by
  cases c <;> simp [next?, isPair]

theorem chain_append_singleton (items : List Cell) (item tail : Cell) :
    chain (items ++ [item]) tail = chain items (pair item tail) := by
  rw [chain, List.foldr_append]
  rfl

/-- A step moves an item from what is left to what has been taken, and that is all it does. -/
theorem iterates_iff {c left : Cell} {taken : List Cell} :
    Iterates c taken left ↔ chain taken left = c := by
  constructor
  · intro h
    induction h with
    | start => rfl
    | step _ hnext ih =>
      obtain rfl := next?_eq_some_iff.1 hnext
      rw [chain_append_singleton, ih]
  · rintro rfl
    induction taken using List.reverseRecOn generalizing left with
    | nil => exact .start
    | append_singleton taken item ih =>
      rw [chain_append_singleton]
      exact ih.step rfl

/-- An iteration is over exactly when the items have been taken and the tail is left. -/
theorem iterates_and_over_iff {c left : Cell} {taken : List Cell} :
    Iterates c taken left ∧ left.next? = none ↔ taken = c.items ∧ left = c.tail := by
  rw [iterates_iff, next?_eq_none_iff]
  constructor
  · rintro ⟨rfl, hleft⟩
    rw [items_chain, tail_chain, items_of_not_isPair hleft, tail_of_not_isPair hleft,
      List.append_nil]
    exact ⟨rfl, rfl⟩
  · rintro ⟨rfl, rfl⟩
    exact ⟨chain_items_tail c, isPair_tail c⟩

/-- A chain is put together from its end: each item goes in front of what is there already. -/
theorem chain_eq_foldl (items : List Cell) (tail : Cell) :
    chain items tail = items.reverse.foldl (fun cdr car => pair car cdr) tail := by
  rw [List.foldl_reverse]
  rfl

theorem operands_eq_error_iff {form : Form} {c : Cell} :
    operands form c = .error (.notAPair form c.tail.kind) ↔ ∀ xs, c ≠ ofList xs := by
  constructor
  · rintro h xs rfl
    rw [operands_ofList] at h
    cases h
  · intro h
    have htail : c.tail ≠ nil := fun htail => h c.items (by rw [ofList, ← htail, chain_items_tail])
    unfold operands
    split
    · next hnil => exact absurd hnil htail
    · rfl

theorem map_copy_eq {cells : List Cell} (h : ∀ c ∈ cells, c.copy = c) :
    (cells.attach.map fun c => c.val.copy) = cells := by
  rw [List.attach_map_val, List.map_congr_left h, List.map_id']

/-- Copies of the items in front of a copy of the tail make the cell again, and so do the copies of
a procedure's formals and body.  Atoms are copied as they are, so a copy is the same cell even where
a NaN in it keeps the cell from being equal to itself. -/
theorem copy_eq (c : Cell) : c.copy = c := by
  induction c using copy.induct with
  | case1 car cdr hitems htail =>
    rw [copy, map_copy_eq fun x hx => hitems ⟨x, hx⟩, htail, chain_items_tail]
  | case2 formals body hformals hbody =>
    rw [copy, hformals, map_copy_eq fun x hx => hbody ⟨x, hx⟩]
  | case3 c hpair hprocedure => rw [copy.eq_3 c hpair hprocedure]

/-- **A cell and its spine determine each other.**  An iteration ends at a tail that is not a pair,
and the items in front of the tail are the cell; a list is iterated to its end at nil, and yields
what it was made of; the operands of a form are those of which the cell is the list, and for any
other cell the error names the form and the kind of the tail; and a copy is the cell itself. -/
theorem cell_and_spine_determine_each_other :
    (∀ c : Cell, c.tail.isPair = false ∧ chain c.items c.tail = c ∧
      ∀ taken left, Iterates c taken left ∧ left.next? = none ↔ taken = c.items ∧ left = c.tail) ∧
    (∀ items tail, chain items tail = items.reverse.foldl (fun cdr car => pair car cdr) tail) ∧
    (∀ xs : List Cell, (ofList xs).items = xs ∧ (ofList xs).tail = nil) ∧
    (∀ (form : Form) (c : Cell), (∀ xs, operands form c = .ok xs ↔ c = ofList xs) ∧
      (operands form c = .error (.notAPair form c.tail.kind) ↔ ∀ xs, c ≠ ofList xs)) ∧
    ∀ c : Cell, c.copy = c := by
  refine ⟨fun c => ?_, chain_eq_foldl, fun xs => ?_, fun form c => ?_, copy_eq⟩
  · exact ⟨isPair_tail c, chain_items_tail c, fun _ _ => iterates_and_over_iff⟩
  · exact ⟨items_ofList xs, tail_ofList xs⟩
  · exact ⟨fun _ => operands_eq_ok_iff, operands_eq_error_iff⟩

end Cell

end ConsLisp

import ConsLisp.Cell.Basic

/-!
# The spine of a cell

Following the second halves of pairs from a cell passes a list of `items` and stops at a `tail`
that is not a pair.  `chain` is the way back: it puts items in front of a tail.  The two views
determine each other (`chain_items_tail`, `items_chain`, `tail_chain`), so a form that takes a
list of operands may work on `List Cell` and lose nothing.
-/

namespace ConsLisp

namespace Cell

/-- The first halves along the spine of a cell. -/
def items : Cell → List Cell
  | pair car cdr => car :: cdr.items
  | _ => []

/-- What the spine of a cell ends in: nil for a proper list. -/
def tail : Cell → Cell
  | pair _ cdr => cdr.tail
  | c => c

/-- Pairs that hold `items` in order and end in `tail`. -/
def chain (items : List Cell) (tail : Cell) : Cell :=
  items.foldr pair tail

def ofList (items : List Cell) : Cell :=
  chain items nil

@[simp] theorem chain_nil (tail : Cell) : chain [] tail = tail := rfl

@[simp] theorem chain_cons (c : Cell) (items : List Cell) (tail : Cell) :
    chain (c :: items) tail = pair c (chain items tail) := rfl

@[simp] theorem ofList_nil : ofList [] = nil := rfl

@[simp] theorem ofList_cons (c : Cell) (items : List Cell) :
    ofList (c :: items) = pair c (ofList items) := rfl

/-! ## Taking apart and putting together -/

theorem isPair_tail (c : Cell) : c.tail.isPair = false := by
  induction c <;> simp_all [tail, isPair]

/-- Nothing of a cell is lost between its items and its tail. -/
theorem chain_items_tail (c : Cell) : chain c.items c.tail = c := by
  induction c <;> simp_all [items, tail]

theorem items_of_not_isPair {c : Cell} (h : c.isPair = false) : c.items = [] := by
  cases c <;> simp_all [items, isPair]

theorem tail_of_not_isPair {c : Cell} (h : c.isPair = false) : c.tail = c := by
  cases c <;> simp_all [tail, isPair]

@[simp] theorem items_chain (xs : List Cell) (c : Cell) : (chain xs c).items = xs ++ c.items := by
  induction xs <;> simp_all [items]

@[simp] theorem tail_chain (xs : List Cell) (c : Cell) : (chain xs c).tail = c.tail := by
  induction xs <;> simp_all [tail]

@[simp] theorem items_ofList (xs : List Cell) : (ofList xs).items = xs := by
  simp [ofList, items]

@[simp] theorem tail_ofList (xs : List Cell) : (ofList xs).tail = nil := by
  simp [ofList, tail]

/-! ## Copies -/

theorem sizeOf_lt_of_mem_items {c x : Cell} (h : x ∈ c.items) : sizeOf x < sizeOf c := by
  induction c with
  | pair car cdr _ ih =>
    simp only [items, List.mem_cons] at h
    rcases h with rfl | h
    · simp only [pair.sizeOf_spec]
      omega
    · have := ih h
      simp only [pair.sizeOf_spec]
      omega
  | _ => simp [items] at h

theorem sizeOf_tail_lt (car cdr : Cell) : sizeOf (pair car cdr).tail < sizeOf (pair car cdr) := by
  have le (c : Cell) : sizeOf c.tail ≤ sizeOf c := by
    induction c with
    | pair car cdr _ ih =>
      simp only [tail, pair.sizeOf_spec]
      omega
    | _ => simp [tail]
  have := le cdr
  simp only [tail, pair.sizeOf_spec]
  omega

/-- A copy that shares nothing with the cell: each item of the spine is copied, and the chain is
built again from its tail forwards.  As a value it is the cell itself. -/
def copy : Cell → Cell
  | pair car cdr =>
    chain ((pair car cdr).items.attach.map fun x => x.val.copy) (pair car cdr).tail.copy
  | procedure formals body => procedure formals.copy (body.attach.map fun x => x.val.copy)
  | c => c
termination_by c => sizeOf c
decreasing_by
  · exact sizeOf_lt_of_mem_items x.property
  · exact sizeOf_tail_lt car cdr
  · simp only [procedure.sizeOf_spec]
    omega
  · have := List.sizeOf_lt_of_mem x.property
    simp only [procedure.sizeOf_spec]
    omega

end Cell

end ConsLisp

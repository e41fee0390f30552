import ConsLisp.Cell.Text
import Std.Data.String.ToInt

/-!
# Reading a cell's text back

The text of a cell leaves out what it was made of: a chain of pairs is written flat, and symbols and
integers stand in it as bare words.  For cells in which no symbol could be mistaken for anything
else (`Cell.Legible`) nothing is lost by that.  A reader (`Cell.ofText`) gets them back from their
text, so no two of them have the same text.

The reader goes from the end of the text to its start.  In that direction a list is met as it is
built: first its tail, then its items, the last one first, and each is put in front of what was read
of the list before.  So the reader keeps what it has read of every list that is still open
(`Reader.rests`).  The text of a cell is one more item of the innermost list, and the text that
follows a list's first item opens a list and leaves there what comes after that item; the two facts
(`Cell.ReadsBack`) carry each other from the parts of a cell to the whole.
-/

namespace ConsLisp

/-! ## Words -/

/-- A space or a parenthesis, which ends a word. -/
def IsDelimiter (char : Char) : Prop :=
  char = ' ' ∨ char = '(' ∨ char = ')'

instance (char : Char) : Decidable (IsDelimiter char) :=
  inferInstanceAs (Decidable (_ ∨ _))

/-- A text that stands for one atom when it is found in a list. -/
structure IsWord (text : String) : Prop where
  ne_empty : text ≠ ""
  ne_dot : text ≠ "."
  not_delimiter : ∀ char ∈ text.toList, ¬ IsDelimiter char

/-- A name that is a word, and not the decimal text of an integer. -/
structure PlainName (name : String) : Prop extends IsWord name where
  ne_number : ∀ n : Int64, name ≠ toString n.toInt

instance (text : String) : Decidable (IsWord text) :=
  have : Decidable (∀ char ∈ text.toList, ¬ IsDelimiter char) := List.decidableBAll _ _
  decidable_of_iff (text ≠ "" ∧ text ≠ "." ∧ ∀ char ∈ text.toList, ¬ IsDelimiter char)
    ⟨fun ⟨hempty, hdot, hchars⟩ => ⟨hempty, hdot, hchars⟩, fun ⟨hempty, hdot, hchars⟩ =>
      ⟨hempty, hdot, hchars⟩⟩

theorem isDigit_or_eq_of_mem_toString {i : Int} {char : Char} (h : char ∈ (toString i).toList) :
    char.isDigit = true ∨ char = '-' := by
  have hdigits {n : Nat} (h : char ∈ n.repr.toList) : char.isDigit = true := by
    rw [Nat.toList_repr] at h
    exact Nat.isDigit_of_mem_toDigits (by decide) (by decide) h
  rw [Int.toString_eq_repr] at h
  cases i with
  | ofNat n => exact .inl (hdigits h)
  | negSucc n =>
    rw [Int.repr, String.toList_append, List.mem_append] at h
    exact h.symm.imp hdigits List.mem_singleton.1

theorem isWord_toString (i : Int) : IsWord (toString i) where
  ne_empty h := by
    rw [Int.toString_eq_repr] at h
    cases i with
    | ofNat n => exact Nat.repr_ne_empty h
    | negSucc n => exact absurd (String.append_eq_empty_iff.1 h).1 (by decide)
  ne_dot h := by
    have hdot : '.' ∈ (toString i).toList := by rw [h]; decide
    exact absurd (isDigit_or_eq_of_mem_toString hdot) (by decide)
  not_delimiter char hchar := by
    rintro (rfl | rfl | rfl) <;>
      exact absurd (isDigit_or_eq_of_mem_toString hchar) (by decide)

/-- A name is plain if it has a character that no decimal text has. -/
theorem plainName_of_mem {name : String} (hname : IsWord name) (char : Char)
    (hmem : char ∈ name.toList) (hchar : ¬ (char.isDigit = true ∨ char = '-')) :
    PlainName name where
  toIsWord := hname
  ne_number n h := hchar (isDigit_or_eq_of_mem_toString (by rwa [← h]))

/-- A name is plain if it is another way to write an integer than its decimal text. -/
theorem plainName_of_toInt? {name : String} {i : Int} (hname : IsWord name)
    (hi : name.toInt? = some i) (hne : name ≠ toString i) : PlainName name where
  toIsWord := hname
  ne_number n h := by
    rw [h, Int.toString_eq_repr, Int.toInt?_repr, Option.some_inj] at hi
    exact hne (by rw [h, hi])

/-- The integer of which a word is the decimal text.  There are other ways to write an integer, such
as with leading zeros, and those are not taken for one. -/
def number? (word : String) : Option Int64 :=
  (word.toInt?.map Int64.ofInt).filter fun n => word = toString n.toInt

theorem number?_eq_some_iff {word : String} {n : Int64} :
    number? word = some n ↔ word = toString n.toInt := by
  rw [number?, Option.filter_eq_some_iff, decide_eq_true_iff]
  refine ⟨And.right, fun h => ⟨?_, h⟩⟩
  rw [h, Int.toString_eq_repr, Int.toInt?_repr, Option.map_some, Int64.ofInt_toInt]

theorem PlainName.number?_eq_none {name : String} (h : PlainName name) : number? name = none := by
  simp only [Option.eq_none_iff_forall_ne_some, ne_eq, number?_eq_some_iff]
  exact h.ne_number

namespace Cell

/-- The atom that a word is the text of. -/
def ofWord (word : String) : Cell :=
  match number? word with
  | some n => integer n
  | none => symbol word

/-- Nothing in a cell is written like something else: there are only lists, integers and symbols in
it, and the symbols have plain names. -/
inductive Legible : Cell → Prop
  | nil : Legible nil
  | integer (n : Int64) : Legible (integer n)
  | symbol {name : String} (hname : PlainName name) : Legible (symbol name)
  | pair {car cdr : Cell} (hcar : Legible car) (hcdr : Legible cdr) : Legible (pair car cdr)

end Cell

/-! ## The reader -/

/-- A reader on its way from the end of a text to its start: the word it is in, if any, and what it
has read of the lists that are open where it is, the innermost first. -/
structure Reader where
  word : List Char
  rests : List Cell

namespace Reader

/-- The lists once the word has come to its start.  The word is a new first item, but for a dot,
which makes a tail of the one item after it. -/
def settle (r : Reader) : Option (List Cell) :=
  if r.word = [] then some r.rests
  else if r.word = ['.'] then
    match r.rests with
    | .pair tail .nil :: rests => some (tail :: rests)
    | _ => none
  else
    match r.rests with
    | rest :: rests => some (.pair (.ofWord (String.ofList r.word)) rest :: rests)
    | [] => none

/-- Read one more character.  Coming from the right, a list begins with its closing parenthesis, and
is an item of the list around it when the opening one is reached. -/
def step (char : Char) (r : Reader) : Option Reader :=
  if char = ' ' then do
    return ⟨[], ← r.settle⟩
  else if char = ')' then do
    return ⟨[], .nil :: (← r.settle)⟩
  else if char = '(' then do
    match ← r.settle with
    | item :: rest :: rests => some ⟨[], .pair item rest :: rests⟩
    | _ => none
  else some { r with word := char :: r.word }

/-- Read a text from its end to its start. -/
def scan (text : String) (r : Reader) : Option Reader :=
  text.toList.foldrM step r

end Reader

/-- The cell that a text is read as.  The text stands where the items of a list would. -/
def Cell.ofText (text : String) : Option Cell :=
  match (Reader.scan text ⟨[], [.nil]⟩).bind Reader.settle with
  | some [.pair c .nil] => some c
  | _ => none

namespace Reader

theorem scan_append (s t : String) (r : Reader) : scan (s ++ t) r = (scan t r).bind (scan s) := by
  rw [scan, String.toList_append, List.foldrM_append]
  rfl

theorem scan_space {r : Reader} {rests : List Cell} (h : r.settle = some rests) :
    scan " " r = some ⟨[], rests⟩ := by
  simp [scan, step, h]

theorem scan_close {r : Reader} {rests : List Cell} (h : r.settle = some rests) :
    scan ")" r = some ⟨[], .nil :: rests⟩ := by
  simp [scan, step, h]

theorem scan_open {r : Reader} {item rest : Cell} {rests : List Cell}
    (h : r.settle = some (item :: rest :: rests)) :
    scan "(" r = some ⟨[], .pair item rest :: rests⟩ := by
  simp [scan, step, h]

theorem scan_dot {r : Reader} {tail : Cell} {rests : List Cell}
    (h : r.settle = some (.pair tail .nil :: rests)) :
    scan " . " r = some ⟨[], tail :: rests⟩ := by
  have hsplit : " . " = " " ++ ("." ++ " ") := rfl
  rw [hsplit, scan_append, scan_append, scan_space h]
  rfl

theorem foldrM_step {word : List Char} (h : ∀ char ∈ word, ¬ IsDelimiter char)
    (rests : List Cell) : word.foldrM step ⟨[], rests⟩ = some ⟨word, rests⟩ := by
  induction word with
  | nil => rfl
  | cons char word ih =>
    obtain ⟨hchar, hword⟩ := List.forall_mem_cons.1 h
    simp only [IsDelimiter, not_or] at hchar
    rw [List.foldrM_cons, ih hword]
    simp [step, hchar]

/-- A word becomes an item of the innermost list. -/
theorem scan_word {text : String} (h : IsWord text) (rest : Cell) (rests : List Cell) :
    (scan text ⟨[], rest :: rests⟩).bind settle = some (.pair (.ofWord text) rest :: rests) := by
  have hempty : text.toList ≠ [] := mt String.toList_eq_nil_iff.1 h.ne_empty
  have hdot : text.toList ≠ ['.'] := fun hdot => h.ne_dot (String.toList_inj.1 hdot)
  rw [scan, foldrM_step h.not_delimiter, Option.bind_some, settle, if_neg hempty, if_neg hdot,
    String.ofList_toList]

end Reader

/-! ## Reading the text of a cell -/

namespace Cell

open Reader

theorem ofWord_toString (n : Int64) : ofWord (toString n.toInt) = integer n := by
  rw [ofWord, number?_eq_some_iff.2 rfl]

theorem ofWord_name {name : String} (h : PlainName name) : ofWord name = symbol name := by
  rw [ofWord, h.number?_eq_none]

/-- What becomes of a cell that is read: its text is an item of the innermost list, and as the rest
of a list it is left as a list of its own. -/
structure ReadsBack (c : Cell) : Prop where
  text : ∀ rest rests, (scan c.text ⟨[], rest :: rests⟩).bind settle = some (pair c rest :: rests)
  restText : ∀ rests, scan c.restText ⟨[], rests⟩ = some ⟨[], c :: rests⟩

theorem readsBack_nil : ReadsBack nil where
  text rest rests := by
    have hsplit : nil.text = "(" ++ ")" := rfl
    rw [hsplit, scan_append, scan_close rfl, Option.bind_some, scan_open rfl]
    rfl
  restText rests := scan_close rfl

/-- An atom is read back if its text is a word that is read as that atom. -/
theorem readsBack_of_word {c : Cell} {word : String} (hword : IsWord word) (hc : ofWord word = c)
    (htext : c.text = word) (hrest : c.restText = " . " ++ word ++ ")") : ReadsBack c where
  text rest rests := by
    rw [htext, scan_word hword, hc]
  restText rests := by
    -- The word is read as the one item of a list, of which the dot leaves the item.
    obtain ⟨r, hscan, hsettle⟩ := Option.bind_eq_some_iff.1 (scan_word hword nil rests)
    rw [hrest, scan_append, scan_close rfl, Option.bind_some, scan_append, hscan, Option.bind_some]
    rw [hc] at hsettle
    exact scan_dot hsettle

/-- The items of a list are read from the last to the first, each after what follows it. -/
theorem ReadsBack.pair {car cdr : Cell} (hcar : ReadsBack car) (hcdr : ReadsBack cdr) :
    ReadsBack (pair car cdr) where
  text rest rests := by
    obtain ⟨r, hscan, hsettle⟩ := Option.bind_eq_some_iff.1 (hcar.text cdr (rest :: rests))
    rw [Cell.text, scan_append, hcdr.restText, Option.bind_some, scan_append, hscan,
      Option.bind_some, scan_open hsettle]
    rfl
  restText rests := by
    obtain ⟨r, hscan, hsettle⟩ := Option.bind_eq_some_iff.1 (hcar.text cdr rests)
    rw [Cell.restText, scan_append, hcdr.restText, Option.bind_some, scan_append, hscan,
      Option.bind_some, scan_space hsettle]

theorem Legible.readsBack {c : Cell} (h : c.Legible) : ReadsBack c := by
  induction h with
  | nil => exact readsBack_nil
  | integer n => exact readsBack_of_word (isWord_toString _) (ofWord_toString n) rfl rfl
  | symbol hname => exact readsBack_of_word hname.toIsWord (ofWord_name hname) rfl rfl
  | pair hcar hcdr ihcar ihcdr => exact ihcar.pair ihcdr

theorem Legible.ofText_text {c : Cell} (h : c.Legible) : ofText c.text = some c := by
  rw [ofText, h.readsBack.text .nil []]

/-- **A printed list can be read back.**  There is a reader that returns every legible cell from its
text, and so two legible cells of the same text are the same cell. -/
theorem printed_lists_can_be_read_back :
    (∀ c : Cell, c.Legible → ofText c.text = some c) ∧
    ∀ a b : Cell, a.Legible → b.Legible → a.text = b.text → a = b := by
  refine ⟨fun c hc => hc.ofText_text, fun a b ha hb h => Option.some_inj.1 ?_⟩
  calc
    some a = ofText a.text := ha.ofText_text.symm
    _ = ofText b.text := by rw [h]
    _ = some b := hb.ofText_text

/-- Names such as `-0` and `007`, which are not how an integer is written, lists in the place of an
item and of a tail, and a last item that is told apart from a tail. -/
theorem printed_lists_can_be_read_back_with_dots :
    ofText "((() . -0) (-5 () . 007) (()) . 7)" =
      some (pair (pair nil (symbol "-0"))
        (pair (pair (integer (-5)) (pair nil (symbol "007"))) (pair (pair nil nil) (integer 7)))) ∧
    (pair (symbol "a") (symbol "b")).text ≠ (pair (symbol "a") (pair (symbol "b") nil)).text := by
  have hdigits {digits : String} (hne : digits ≠ "") (h : digits.toList.all Char.isDigit = true) :=
    String.toNat?_eq_some_ofDigitChars (String.isNat_of_isDigit hne (List.all_eq_true.1 h))
  constructor
  · have hminus : "-0".toInt? = some 0 := by
      rw [show "-0" = "-" ++ "0" from rfl, String.toInt?_minus_append,
        hdigits (by decide) (by decide)]
      rfl
    have hleading : "007".toInt? = some 7 :=
      String.toInt?_eq_some_of_toNat?_eq_some (hdigits (by decide) (by decide))
    have hzero : PlainName "-0" := plainName_of_toInt? (by decide) hminus (by decide)
    have hseven : PlainName "007" := plainName_of_toInt? (by decide) hleading (by decide)
    exact printed_lists_can_be_read_back.1 _
      (.pair (.pair .nil (.symbol hzero))
        (.pair (.pair (.integer (-5)) (.pair .nil (.symbol hseven)))
          (.pair (.pair .nil .nil) (.integer 7))))
  · intro h
    have ha : PlainName "a" := plainName_of_mem (by decide) 'a' (by decide) (by decide)
    have hb : PlainName "b" := plainName_of_mem (by decide) 'b' (by decide) (by decide)
    cases printed_lists_can_be_read_back.2 _ _ (.pair (.symbol ha) (.symbol hb))
      (.pair (.symbol ha) (.pair (.symbol hb) .nil)) h

end Cell

end ConsLisp

import ConsLisp.Frame.Basic
import Std.Data.HashMap
import Std.Data.TreeMap

/-!
# Containers for frames

Two containers can hold a scope: a hash table, which lists its bindings in an arbitrary order,
and a search tree, which lists them by name.  Both are lawful frames, and by the laws alone no
result of the evaluator depends on which of them is chosen.
-/

namespace ConsLisp

abbrev HashFrame := Std.HashMap String Cell

/-- A frame kept in a search tree ordered by name. -/
abbrev OrderedFrame := Std.TreeMap String Cell

instance : Frame HashFrame where
  empty := ∅
  find? f name := f[name]?
  insert? f name value := if f.contains name then none else some (f.insert name value)
  erase f name := Std.HashMap.erase f name
  size f := Std.HashMap.size f
  toList f := Std.HashMap.toList f

instance : Frame OrderedFrame where
  empty := ∅
  find? f name := f[name]?
  insert? f name value := if f.contains name then none else some (f.insert name value)
  erase f name := Std.TreeMap.erase f name
  size f := Std.TreeMap.size f
  toList f := Std.TreeMap.toList f

instance : LawfulFrame HashFrame where
  find?_empty _ := Std.HashMap.getElem?_empty
  insert?_eq_none_iff f name value := by
    simp [Frame.insert?, Frame.find?]
  find?_of_insert? f g name value h n := by
    simp only [Frame.insert?, Option.ite_none_left_eq_some, Option.some.injEq] at h
    simp [Frame.find?, ← h.2, Std.HashMap.getElem?_insert]
  find?_erase f name n := by
    simp [Frame.find?, Frame.erase, Std.HashMap.getElem?_erase]
  mem_toList_iff f name value := Std.HashMap.mem_toList_iff_getElem?_eq_some
  nodup_names f := by
    simpa only [Frame.toList, Std.HashMap.map_fst_toList_eq_keys] using Std.HashMap.nodup_keys
  size_eq_length f := Std.HashMap.length_toList.symm

instance : LawfulFrame OrderedFrame where
  find?_empty _ := Std.TreeMap.getElem?_emptyc
  insert?_eq_none_iff f name value := by
    simp [Frame.insert?, Frame.find?]
  find?_of_insert? f g name value h n := by
    simp only [Frame.insert?, Option.ite_none_left_eq_some, Option.some.injEq] at h
    simp [Frame.find?, ← h.2, Std.TreeMap.getElem?_insert]
  find?_erase f name n := by
    simp [Frame.find?, Frame.erase, Std.TreeMap.getElem?_erase]
  mem_toList_iff f name value := Std.TreeMap.mem_toList_iff_getElem?_eq_some
  nodup_names f := by
    simpa only [Frame.toList, Std.TreeMap.map_fst_toList_eq_keys] using Std.TreeMap.nodup_keys
  size_eq_length f := Std.TreeMap.length_toList.symm

end ConsLisp

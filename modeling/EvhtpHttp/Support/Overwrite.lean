import Mathlib.Data.List.Basic

/-!
# Sequences of assignments

A list of pairs of a key and a value, read as assignments made one after the
other: what the last assignment to a key left, and all the values a key was
given.
-/

namespace EvhtpHttp.Support

variable {κ ν : Type*} [DecidableEq κ]

/-- The values that a sequence of assignments gives to a key, in order. -/
def values (key : κ) (l : List (κ × ν)) : List ν :=
  l.filterMap fun a => if a.1 = key then some a.2 else none

/-- The value of the last assignment to a key, if there is one. -/
def lastValue (key : κ) (l : List (κ × ν)) : Option ν :=
  (values key l).getLast?

@[simp] theorem values_nil (key : κ) : values key ([] : List (κ × ν)) = [] := rfl

@[simp] theorem lastValue_nil (key : κ) : lastValue key ([] : List (κ × ν)) = none := rfl

theorem values_append (key : κ) (l l' : List (κ × ν)) :
    values key (l ++ l') = values key l ++ values key l' :=
  List.filterMap_append

/-- One more assignment adds its value to those of its own key. -/
@[simp] theorem values_concat (key k : κ) (v : ν) (l : List (κ × ν)) :
    values key (l ++ [(k, v)]) = if k = key then values key l ++ [v] else values key l := by
  by_cases hk : k = key
  · simp [values, hk]
  · simp [values, hk]

/-- One more assignment overwrites its own key and no other. -/
@[simp] theorem lastValue_concat (key k : κ) (v : ν) (l : List (κ × ν)) :
    lastValue key (l ++ [(k, v)]) = if k = key then some v else lastValue key l := by
  by_cases hk : k = key
  · simp [lastValue, hk]
  · simp [lastValue, hk]

theorem values_cons (key k : κ) (v : ν) (l : List (κ × ν)) :
    values key ((k, v) :: l) = (if k = key then [v] else []) ++ values key l := by
  by_cases hk : k = key
  · simp [values, hk]
  · simp [values, hk]

/-- An earlier assignment is overwritten by the later ones. -/
theorem lastValue_cons (key k : κ) (v : ν) (l : List (κ × ν)) :
    lastValue key ((k, v) :: l) = (lastValue key l).or (if k = key then some v else none) := by
  rw [lastValue, values_cons, List.getLast?_append]
  by_cases hk : k = key
  · rw [if_pos hk, if_pos hk]
    rfl
  · rw [if_neg hk, if_neg hk]
    rfl

/-- The later of two sequences decides where it assigns at all. -/
theorem lastValue_append (key : κ) (l l' : List (κ × ν)) :
    lastValue key (l ++ l') = (lastValue key l').or (lastValue key l) := by
  rw [lastValue, values_append, List.getLast?_append]
  rfl

theorem values_map_const {α : Type*} (key k : κ) (f : α → ν) (l : List α) :
    values key (l.map fun a => (k, f a)) = if k = key then l.map f else [] := by
  by_cases hk : k = key
  · simp [values, hk]
  · simp [values, hk]

theorem values_eq_nil {key : κ} {l : List (κ × ν)} (h : key ∉ l.map Prod.fst) :
    values key l = [] := by
  refine List.filterMap_eq_nil_iff.mpr fun a ha => if_neg ?_
  rintro rfl
  exact h (List.mem_map_of_mem ha)

/-- Where every key is assigned once, each has the value it was given. -/
theorem lastValue_of_mem {key : κ} {v : ν} {l : List (κ × ν)}
    (hnodup : (l.map Prod.fst).Nodup) (h : (key, v) ∈ l) : lastValue key l = some v := by
  obtain ⟨before, after, rfl⟩ := List.append_of_mem h
  have hafter : key ∉ after.map Prod.fst := by
    rw [List.map_append, List.map_cons, List.nodup_append] at hnodup
    exact (List.nodup_cons.mp hnodup.2.1).1
  rw [lastValue, values_append, values_cons, values_eq_nil hafter, if_pos rfl,
    List.append_nil, List.getLast?_concat]

end EvhtpHttp.Support

import Mathlib.Data.List.TakeWhile

/-!
# Scanning a list

What `takeWhile` and `dropWhile` make of a list, said without them: the longest
part at its beginning with elements of one kind, and the rest.
-/

namespace EvhtpHttp.Support

variable {α : Type*}

/-- `scanned` is the longest part at the beginning of `l` with elements of the
kind `p`, and `rest` is what follows it. -/
structure Scan (p : α → Bool) (l scanned rest : List α) : Prop where
  append : l = scanned ++ rest
  inside : ∀ a ∈ scanned, p a = true
  stop : ∀ a, rest.head? = some a → p a = false

variable {p : α → Bool} {l scanned rest : List α}

theorem scan_takeWhile (p : α → Bool) (l : List α) :
    Scan p l (l.takeWhile p) (l.dropWhile p) where
  append := List.takeWhile_append_dropWhile.symm
  inside _ := List.mem_takeWhile_imp
  stop a ha := by
    have hstop := List.head?_dropWhile_not p l
    rw [ha] at hstop
    exact hstop

/-- There is only one way to scan a list. -/
theorem scan_iff : Scan p l scanned rest ↔ scanned = l.takeWhile p ∧ rest = l.dropWhile p := by
  constructor
  · intro h
    have hrest : rest.takeWhile p = [] ∧ rest.dropWhile p = rest := by
      cases hhead : rest with
      | nil => simp
      | cons a tail =>
          have ha : p a = false := h.stop a (by rw [hhead, List.head?_cons])
          simp [ha]
    rw [h.append, List.takeWhile_append_of_pos h.inside, List.dropWhile_append_of_pos h.inside,
      hrest.1, hrest.2, List.append_nil]
    exact ⟨rfl, rfl⟩
  · rintro ⟨rfl, rfl⟩
    exact scan_takeWhile p l

theorem scan_all (h : ∀ a ∈ l, p a = true) : Scan p l l [] where
  append := (List.append_nil l).symm
  inside := h
  stop _ ha := absurd ha (by simp)

end EvhtpHttp.Support

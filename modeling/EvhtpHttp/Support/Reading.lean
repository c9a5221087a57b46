import Mathlib.Algebra.BigOperators.Group.List.Basic
import Mathlib.Algebra.Order.BigOperators.Group.List
import Mathlib.Algebra.Order.Group.Defs
import Mathlib.Tactic.Abel

/-!
# Reading a list that grows

A reader adds up the entries of a list one after the other while their owners
may replace any of them by a larger value.  The sum at its end belongs to no
single moment, but it lies between the sums at its beginning and at its end, so
one reader's results never decrease.  The second part is about the differences
of successive results.
-/

namespace EvhtpHttp.Support

/-! ## Sums -/

section Reading

variable {α : Type*} [AddCommMonoid α] [Preorder α] {prev acc x : α} {i : ℕ} {l l' : List α}

/-- The reader has come to entry `i` with the sum `acc`: the entries read have
at least this sum, and with the entries to come it will not be below the
reader's previous result `prev`. -/
structure ReadsUp (prev acc : α) (i : ℕ) (l : List α) : Prop where
  le_read : acc ≤ (l.take i).sum
  le_rest : prev ≤ acc + (l.drop i).sum

theorem readsUp_zero (h : prev ≤ l.sum) : ReadsUp prev 0 0 l := by
  constructor
  · simp
  · simpa using h

theorem ReadsUp.mono [AddLeftMono α] [AddRightMono α] (h : ReadsUp prev acc i l)
    (hle : List.Forall₂ (· ≤ ·) l l') : ReadsUp prev acc i l' := by
  have htake : (l.take i).sum ≤ (l'.take i).sum := (List.forall₂_take i hle).sum_le_sum
  have hdrop : (l.drop i).sum ≤ (l'.drop i).sum := (List.forall₂_drop i hle).sum_le_sum
  exact ⟨h.le_read.trans htake, h.le_rest.trans (add_le_add_right hdrop acc)⟩

theorem ReadsUp.next [AddRightMono α] (h : ReadsUp prev acc i l) (hx : l[i]? = some x) :
    ReadsUp prev (acc + x) (i + 1) l := by
  obtain ⟨hlt, rfl⟩ := List.getElem?_eq_some_iff.mp hx
  constructor
  · rw [List.sum_take_succ l i hlt]
    exact add_le_add_left h.le_read _
  · have hrest := h.le_rest
    rw [List.drop_eq_getElem_cons hlt, List.sum_cons, ← add_assoc] at hrest
    exact hrest

/-- A finished result is not below the previous one, nor above the sum. -/
theorem ReadsUp.finish (h : ReadsUp prev acc i l) (hend : l[i]? = none) :
    prev ≤ acc ∧ acc ≤ l.sum := by
  have hlength : l.length ≤ i := List.getElem?_eq_none_iff.mp hend
  obtain ⟨hread, hrest⟩ := h
  rw [List.take_of_length_le hlength] at hread
  rw [List.drop_eq_nil_of_le hlength, List.sum_nil, add_zero] at hrest
  exact ⟨hrest, hread⟩

/-- While it reads, the previous result is not above the sum. -/
theorem ReadsUp.le_sum [AddRightMono α] (h : ReadsUp prev acc i l) : prev ≤ l.sum := by
  rw [← List.sum_take_add_sum_drop l i]
  exact h.le_rest.trans (add_le_add_left h.le_read _)

end Reading

/-- A list with one entry replaced by a larger one. -/
theorem forall₂_set_of_le {α : Type*} [Preorder α] {l : List α} {i : ℕ} {x : α}
    (hx : ∀ y, l[i]? = some y → y ≤ x) :
    List.Forall₂ (· ≤ ·) l (l.set i x) := by
  induction l generalizing i with
  | nil => exact List.Forall₂.nil
  | cons y l ih =>
      cases i with
      | zero => exact List.Forall₂.cons (hx y rfl) (List.forall₂_refl l)
      | succ i => exact List.Forall₂.cons (le_refl y) (ih hx)

/-! ## Differences -/

section Differences

variable {α : Type*} [AddCommGroup α]

/-- What each entry of a list adds to the one before it, the first one to
`prev`. -/
def differences (prev : α) : List α → List α
  | [] => []
  | x :: l => (x - prev) :: differences x l

theorem differences_concat (prev x : α) (l : List α) :
    differences prev (l ++ [x]) = differences prev l ++ [x - l.getLastD prev] := by
  induction l generalizing prev with
  | nil => rfl
  | cons y l ih =>
      rw [List.cons_append, differences, ih, List.getLastD_cons]
      rfl

theorem sum_differences (prev : α) (l : List α) :
    (differences prev l).sum = l.getLastD prev - prev := by
  induction l generalizing prev with
  | nil => simp [differences]
  | cons y l ih =>
      rw [differences, List.sum_cons, ih, List.getLastD_cons]
      abel

end Differences

end EvhtpHttp.Support

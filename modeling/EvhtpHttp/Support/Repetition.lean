import Mathlib.Data.List.Basic
import Mathlib.Data.List.Range

/-!
# Repetitions of a list

The first entries of the infinite repetition of a list.  Whole copies of the
list followed by an initial part of it are such a repetition, and an entry that
every window of the list contains is in every window of the repetition too, the
ones across a seam included, when the list ends with it.
-/

namespace EvhtpHttp.Support

variable {α : Type*} [Inhabited α]

/-- The first `n` entries of the infinite repetition of `l`. -/
def repetition (l : List α) (n : ℕ) : List α :=
  (List.range n).map fun i => l.getD (i % l.length) default

@[simp] theorem length_repetition (l : List α) (n : ℕ) : (repetition l n).length = n := by
  simp [repetition]

theorem getElem?_repetition {l : List α} (hl : l ≠ []) {i n : ℕ} (hi : i < n) :
    (repetition l n)[i]? = l[i % l.length]? := by
  have hmod : i % l.length < l.length := Nat.mod_lt _ (List.length_pos_iff.mpr hl)
  simp [repetition, hi, hmod]

/-- Whole copies of the list, and an initial part of it. -/
theorem repetition_add {l : List α} {k m : ℕ} (hm : m ≤ l.length) :
    repetition l (l.length * k + m) = repetition l (l.length * k) ++ l.take m := by
  have hrest : ((List.range m).map fun i => l.getD ((l.length * k + i) % l.length) default) =
      l.take m := by
    apply List.ext_getElem
    · simp [hm]
    · intro i hi hi'
      have hlt : i < l.length := by
        rw [List.length_map, List.length_range] at hi
        omega
      simp [Nat.mod_eq_of_lt hlt, hlt]
  unfold repetition
  rw [List.range_add, List.map_append, List.map_map, ← hrest]
  rfl

/-- Initial parts of the list, each of which is the whole list as long as more
follows, add up to its repetition. -/
theorem flatten_initial_parts (l : List α) (n k : ℕ) :
    ((List.range k).map fun i => l.take (n - l.length * i)).flatten =
      repetition l (min n (l.length * k)) := by
  induction k with
  | zero => simp [repetition]
  | succ k ih =>
      rw [List.range_succ, List.map_append, List.flatten_append, ih]
      simp only [List.map_cons, List.map_nil, List.flatten_cons, List.flatten_nil,
        List.append_nil]
      by_cases hmore : n ≤ l.length * k
      · have hnext : n ≤ l.length * (k + 1) := by
          rw [Nat.mul_succ]
          omega
        rw [min_eq_left hmore, min_eq_left hnext, Nat.sub_eq_zero_of_le hmore, List.take_zero,
          List.append_nil]
      · have hpart : min n (l.length * (k + 1)) =
            l.length * k + min (n - l.length * k) l.length := by
          rw [Nat.mul_succ]
          omega
        rw [hpart, repetition_add (min_le_right _ _), min_eq_right (not_le.mp hmore).le,
          ← List.take_eq_take_min]

/-- An entry of every window of `k` entries of the list is in every such window
of the repetition, when it is the last entry of the list. -/
theorem mem_of_window {l : List α} {x : α} {k : ℕ}
    (hwindow : ∀ i, i + k ≤ l.length → ∃ j < k, l[i + j]? = some x)
    (hlast : l[l.length - 1]? = some x) {n : ℕ} {pre w post : List α}
    (hsplit : repetition l n = pre ++ w ++ post) (hw : w.length = k) : x ∈ w := by
  have hl : l ≠ [] := by
    rintro rfl
    simp at hlast
  have hpos : 0 < l.length := List.length_pos_iff.mpr hl
  have hlength : n = pre.length + k + post.length := by
    have hlengths := congrArg List.length hsplit
    simpa [hw, Nat.add_assoc] using hlengths
  have hmem : ∀ j < k, l[(pre.length + j) % l.length]? = some x → x ∈ w := by
    intro j hj hx
    rw [← getElem?_repetition hl (by omega : pre.length + j < n), hsplit,
      List.getElem?_append_left (by simp; omega),
      List.getElem?_append_right (Nat.le_add_right _ _), Nat.add_sub_cancel_left] at hx
    exact List.mem_of_getElem? hx
  have hmod : pre.length % l.length < l.length := Nat.mod_lt _ hpos
  by_cases hinside : pre.length % l.length + k ≤ l.length
  · obtain ⟨j, hj, hx⟩ := hwindow _ hinside
    apply hmem j hj
    rw [Nat.add_mod, Nat.mod_eq_of_lt (by omega : j < l.length), Nat.mod_eq_of_lt (by omega)]
    exact hx
  · have hseam : (pre.length + (l.length - 1 - pre.length % l.length)) % l.length =
        l.length - 1 := by
      rw [Nat.add_mod, Nat.mod_eq_of_lt (by omega : l.length - 1 - _ < l.length),
        Nat.mod_eq_of_lt (by omega)]
      omega
    apply hmem (l.length - 1 - pre.length % l.length) (by omega)
    rw [hseam]
    exact hlast

end EvhtpHttp.Support

import Mathlib.Data.List.Nodup
import Mathlib.Data.List.Basic
import Mathlib.Algebra.BigOperators.Group.List.Basic
import Mathlib.Algebra.Order.Ring.Int

/-!
# Lists of keyed records

Records that are found, written back and removed by a key which is unique in
the list.  When a lookup succeeds the list splits around the record that was
found, and every operation by the same key acts at that place only.
-/

namespace EvhtpHttp.Support

variable {α κ : Type*} (key : α → κ)

/-- In a list with unique keys no other record has the key of the middle one. -/
theorem key_ne_of_nodup {pre post : List α} {c : α}
    (h : ((pre ++ c :: post).map key).Nodup) :
    (∀ x ∈ pre, key x ≠ key c) ∧ (∀ x ∈ post, key x ≠ key c) := by
  simp only [List.map_append, List.map_cons, List.nodup_append,
    List.nodup_cons] at h
  obtain ⟨-, ⟨hpost, -⟩, hpre⟩ := h
  constructor
  · intro x hx
    exact hpre (key x) (List.mem_map_of_mem hx) (key c) (by simp)
  · intro x hx heq
    exact hpost (heq ▸ List.mem_map_of_mem hx)

section Lookup

variable [DecidableEq κ]

/-- A list splits around the record that a lookup finds. -/
theorem exists_split_of_find? {l : List α} {k : κ} {c : α}
    (h : l.find? (fun x => key x = k) = some c) :
    ∃ pre post, l = pre ++ c :: post ∧ key c = k := by
  obtain ⟨hc, pre, post, hl, -⟩ := List.find?_eq_some_iff_append.mp h
  exact ⟨pre, post, hl, by simpa using hc⟩

theorem find?_split {pre post : List α} {c : α}
    (h : ((pre ++ c :: post).map key).Nodup) :
    (pre ++ c :: post).find? (fun x => key x = key c) = some c := by
  obtain ⟨hpre, -⟩ := key_ne_of_nodup key h
  rw [List.find?_append, List.find?_eq_none.mpr (fun x hx => by simpa using hpre x hx)]
  simp

theorem map_eq_self_of_key_ne {l : List α} {k : κ} {f : α → α}
    (h : ∀ x ∈ l, key x ≠ k) :
    l.map (fun x => if key x = k then f x else x) = l := by
  have hid : ∀ x ∈ l, (if key x = k then f x else x) = x := by
    intro x hx
    rw [if_neg (h x hx)]
  exact (List.map_congr_left hid).trans (List.map_id' l)

/-- Writing a record back by its key replaces the one record with that key. -/
theorem map_replace_split {pre post : List α} {c c' : α} (hkey : key c' = key c)
    (hpre : ∀ x ∈ pre, key x ≠ key c) (hpost : ∀ x ∈ post, key x ≠ key c) :
    (pre ++ c :: post).map (fun x => if key x = key c' then c' else x) =
      pre ++ c' :: post := by
  rw [List.map_append, List.map_cons, hkey,
    map_eq_self_of_key_ne key (f := fun _ => c') hpre,
    map_eq_self_of_key_ne key (f := fun _ => c') hpost, if_pos rfl]

theorem filter_ne_split {pre post : List α} {c : α}
    (hpre : ∀ x ∈ pre, key x ≠ key c) (hpost : ∀ x ∈ post, key x ≠ key c) :
    (pre ++ c :: post).filter (fun x => key x ≠ key c) = pre ++ post := by
  have hkeep : ∀ l : List α, (∀ x ∈ l, key x ≠ key c) →
      l.filter (fun x => key x ≠ key c) = l := by
    intro l hl
    exact List.filter_eq_self.mpr fun x hx => by simpa using hl x hx
  rw [List.filter_append, List.filter_cons_of_neg (by simp), hkeep pre hpre,
    hkeep post hpost]

end Lookup

/-- Different places, each among the first `n` places of some record, are no
more than these places of all records together. -/
theorem length_le_sum_of_places {l : List α} {places : List (κ × ℤ)} {n : α → ℤ}
    (hnodup : places.Nodup) (hn : ∀ x ∈ l, 0 ≤ n x)
    (hplaces : ∀ p ∈ places, ∃ x ∈ l, key x = p.1 ∧ 1 ≤ p.2 ∧ p.2 ≤ n x) :
    (places.length : ℤ) ≤ (l.map n).sum := by
  let room : α → List (κ × ℤ) := fun x =>
    (List.range (n x).toNat).map fun i : ℕ => (key x, (i : ℤ) + 1)
  have hsubset : places ⊆ l.flatMap room := by
    rintro ⟨k, i⟩ hp
    obtain ⟨x, hx, hkey, hlow, hhigh⟩ := hplaces _ hp
    simp only at hkey hlow hhigh
    refine List.mem_flatMap.mpr ⟨x, hx, List.mem_map.mpr ⟨(i - 1).toNat, ?_, ?_⟩⟩
    · rw [List.mem_range]
      omega
    · rw [Prod.mk.injEq]
      exact ⟨hkey, by omega⟩
  have hroom : ((l.flatMap room).length : ℤ) = (l.map n).sum := by
    clear hsubset hplaces
    induction l with
    | nil => rfl
    | cons x l ih =>
        have hx := hn x List.mem_cons_self
        have hrest := ih fun y hy => hn y (List.mem_cons_of_mem x hy)
        have hlength : (room x).length = (n x).toNat := by simp [room]
        rw [List.flatMap_cons, List.length_append, hlength, List.map_cons, List.sum_cons]
        push_cast
        omega
  have hle := (List.subperm_of_subset hnodup hsubset).length_le
  omega

end EvhtpHttp.Support

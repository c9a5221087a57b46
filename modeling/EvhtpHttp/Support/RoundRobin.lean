import Mathlib.Data.Int.CardIntervalMod

/-!
# Reading a ring in turn

A list with a read cursor that goes round it.  The cursor lies inside the list by
construction, so that a read always finds an entry, and any two positions are read
equally often up to one.
-/

namespace EvhtpHttp.Support

/-- Entries to be read in turn, with the cursor on one of them. -/
structure RoundRobin (α : Type*) where
  entries : List α
  cur : ℕ
  cur_lt : cur < entries.length

namespace RoundRobin

variable {α : Type*} (r : RoundRobin α)

theorem length_pos : 0 < r.entries.length :=
  (Nat.zero_le r.cur).trans_lt r.cur_lt

/-- The entry under the cursor. -/
def head : α :=
  r.entries.get ⟨r.cur, r.cur_lt⟩

/-- The cursor moves to the next entry, and from the last one to the first. -/
def next : RoundRobin α where
  entries := r.entries
  cur := (r.cur + 1) % r.entries.length
  cur_lt := Nat.mod_lt _ r.length_pos

@[simp] theorem next_entries : r.next.entries = r.entries :=
  rfl

@[simp] theorem next_cur : r.next.cur = (r.cur + 1) % r.entries.length :=
  rfl

@[simp] theorem iterate_next_entries (k : ℕ) : (next^[k] r).entries = r.entries := by
  induction k with
  | zero => rfl
  | succ k ih => rw [Function.iterate_succ_apply', next_entries, ih]

theorem iterate_next_cur (k : ℕ) :
    (next^[k] r).cur = (r.cur + k) % r.entries.length := by
  induction k with
  | zero => exact (Nat.mod_eq_of_lt r.cur_lt).symm
  | succ k ih =>
      rw [Function.iterate_succ_apply', next_cur, ih, iterate_next_entries, Nat.mod_add_mod,
        Nat.add_assoc]

/-- The first `k` reads, as positions and entries. -/
def reads (k : ℕ) : List (ℕ × α) :=
  (List.range k).map fun j => ((next^[j] r).cur, (next^[j] r).head)

@[simp] theorem length_reads (k : ℕ) : (r.reads k).length = k := by
  simp [reads]

theorem reads_zero : r.reads 0 = [] :=
  rfl

theorem reads_succ (k : ℕ) : r.reads (k + 1) = (r.cur, r.head) :: r.next.reads k := by
  simp only [reads, List.range_succ_eq_map, List.map_cons, List.map_map, Function.iterate_zero,
    id_eq]
  rfl

theorem reads_add (k l : ℕ) : r.reads (k + l) = r.reads k ++ (next^[k] r).reads l := by
  induction k generalizing r with
  | zero => rw [Nat.zero_add, reads_zero, List.nil_append, Function.iterate_zero, id_eq]
  | succ k ih =>
      rw [Nat.succ_add, reads_succ, reads_succ, ih, List.cons_append,
        Function.iterate_succ_apply]

/-- The read number `j` is of the position `j` places on, counted round the ring. -/
theorem getElem?_reads {j k : ℕ} (hj : j < k) :
    (r.reads k)[j]? = (r.entries[(r.cur + j) % r.entries.length]?).map fun x =>
      ((r.cur + j) % r.entries.length, x) := by
  have hlt : (r.cur + j) % r.entries.length < r.entries.length := Nat.mod_lt _ r.length_pos
  rw [reads, List.getElem?_map, List.getElem?_range hj, Option.map_some,
    List.getElem?_eq_getElem hlt, Option.map_some]
  simp only [head, List.get_eq_getElem, iterate_next_entries, iterate_next_cur]

theorem take_reads (m k : ℕ) : (r.reads k).take m = r.reads (min m k) := by
  rw [reads, reads, ← List.map_take, List.take_range]

/-! ## How often a position is read -/

theorem countP_range (p : ℕ → Prop) [DecidablePred p] (k : ℕ) :
    (List.range k).countP (fun j => p j) = Nat.count p k := by
  induction k with
  | zero => rfl
  | succ k ih =>
      rw [List.range_succ, List.countP_append, ih, Nat.count_succ, List.countP_singleton]
      simp

/-- The reads of a position are the numbers of one residue class. -/
theorem count_reads {i : ℕ} (hi : i < r.entries.length) (k : ℕ) :
    ((r.reads k).map Prod.fst).count i =
      Nat.count (· ≡ i + (r.entries.length - r.cur) [MOD r.entries.length]) k := by
  have hcur := r.cur_lt
  have hclass : ∀ j, (r.cur + j) % r.entries.length = i ↔
      j ≡ i + (r.entries.length - r.cur) [MOD r.entries.length] := by
    intro j
    have hround : r.cur + (i + (r.entries.length - r.cur)) = i + r.entries.length := by omega
    calc (r.cur + j) % r.entries.length = i
        ↔ r.cur + j ≡ r.cur + (i + (r.entries.length - r.cur)) [MOD r.entries.length] := by
          rw [hround, Nat.ModEq, Nat.add_mod_right, Nat.mod_eq_of_lt hi]
      _ ↔ j ≡ i + (r.entries.length - r.cur) [MOD r.entries.length] :=
          ⟨Nat.ModEq.add_left_cancel' r.cur, Nat.ModEq.add_left r.cur⟩
  rw [← countP_range, reads, List.map_map, List.count, List.countP_map]
  apply List.countP_congr
  intro j _
  simp [iterate_next_cur, hclass]

/-- After `k` reads every position was read `k / n` times or once more. -/
theorem count_reads_bounds {i : ℕ} (hi : i < r.entries.length) (k : ℕ) :
    k / r.entries.length ≤ ((r.reads k).map Prod.fst).count i ∧
      ((r.reads k).map Prod.fst).count i ≤ k / r.entries.length + 1 := by
  rw [r.count_reads hi, Nat.count_modEq_card _ r.length_pos]
  split
  · exact ⟨Nat.le_succ _, le_refl _⟩
  · exact ⟨le_refl _, Nat.le_succ _⟩

theorem count_reads_balanced {i i' : ℕ} (hi : i < r.entries.length)
    (hi' : i' < r.entries.length) (k : ℕ) :
    ((r.reads k).map Prod.fst).count i ≤ ((r.reads k).map Prod.fst).count i' + 1 :=
  (r.count_reads_bounds hi k).2.trans (Nat.add_le_add_right (r.count_reads_bounds hi' k).1 1)

end RoundRobin

end EvhtpHttp.Support

import EvhtpHttp.Support.Transition
import Mathlib.Algebra.Order.BigOperators.Group.List
import Mathlib.Algebra.Order.Ring.Int

/-!
# Quantities along a run

A quantity to which every step contributes is summed along a run.  A potential
that grows at each step by at most the step's contribution grows along a run by
at most the sum.
-/

namespace EvhtpHttp.Support

theorem sum_map_ite {ε : Type*} (p : ε → Bool) (c : ℤ) (es : List ε) :
    (es.map fun e => if p e then c else 0).sum = es.countP p * c := by
  induction es with
  | nil => simp
  | cons e es ih =>
      rw [List.map_cons, List.sum_cons, ih, List.countP_cons]
      cases p e
      · simp
      · simp only [if_true]
        push_cast
        rw [Int.add_mul, Int.one_mul, Int.add_comm]

namespace System

variable {σ ε : Type*} (T : System σ ε)

/-- The sum of the contributions `w` of the steps of the run `es` out of `s`. -/
def sumFrom (w : ε → σ → ℤ) : List ε → σ → ℤ
  | [], _ => 0
  | e :: es, s =>
      w e s + match T.step e s with
        | some s' => sumFrom w es s'
        | none => 0

variable {T}

theorem sumFrom_cons {w : ε → σ → ℤ} {e : ε} {es : List ε} {s s' : σ}
    (h : T.step e s = some s') : T.sumFrom w (e :: es) s = w e s + T.sumFrom w es s' := by
  simp [sumFrom, h]

theorem sumFrom_concat {w : ε → σ → ℤ} {es : List ε} {e : ε} {s s' : σ}
    (h : T.runFrom es s = some s') :
    T.sumFrom w (es ++ [e]) s = T.sumFrom w es s + w e s' := by
  induction es generalizing s with
  | nil =>
      obtain rfl : s = s' := Option.some.inj h
      cases hstep : T.step e s with
      | none => simp [sumFrom, hstep]
      | some t => simp [sumFrom, hstep]
  | cons d es ih =>
      obtain ⟨t, ht, hrest⟩ := Option.bind_eq_some_iff.mp h
      rw [List.cons_append, sumFrom_cons ht, sumFrom_cons ht, ih hrest]
      omega

theorem sumFrom_linear (a b : ℤ) (v w : ε → σ → ℤ) (es : List ε) (s : σ) :
    T.sumFrom (fun e s => a * v e s + b * w e s) es s =
      a * T.sumFrom v es s + b * T.sumFrom w es s := by
  induction es generalizing s with
  | nil => simp [sumFrom]
  | cons e es ih =>
      cases h : T.step e s with
      | none => simp [sumFrom, h]
      | some s' =>
          rw [sumFrom_cons h, sumFrom_cons h, sumFrom_cons h, ih s']
          rw [Int.mul_add, Int.mul_add]
          omega

theorem sumFrom_mul (a : ℤ) (w : ε → σ → ℤ) (es : List ε) (s : σ) :
    T.sumFrom (fun e s => a * w e s) es s = a * T.sumFrom w es s := by
  have hlinear := sumFrom_linear (T := T) a 0 w w es s
  simpa using hlinear

theorem sumFrom_event {w : ε → ℤ} {es : List ε} {s s' : σ}
    (h : T.runFrom es s = some s') :
    T.sumFrom (fun e _ => w e) es s = (es.map w).sum := by
  induction es generalizing s with
  | nil => rfl
  | cons e es ih =>
      obtain ⟨t, ht, hrest⟩ := Option.bind_eq_some_iff.mp h
      rw [sumFrom_cons ht, ih hrest, List.map_cons, List.sum_cons]

/-- A potential that grows at each step out of a good state by at most the
step's contribution grows along a run by at most the sum. -/
theorem potential_le {P : σ → Prop} {V : σ → ℤ} {w : ε → σ → ℤ}
    (hstep : ∀ s e s', P s → T.step e s = some s' → P s' ∧ V s' ≤ V s + w e s)
    {es : List ε} {s s' : σ} (hs : P s) (h : T.runFrom es s = some s') :
    P s' ∧ V s' ≤ V s + T.sumFrom w es s := by
  induction es generalizing s with
  | nil =>
      cases h
      exact ⟨hs, by simp [sumFrom]⟩
  | cons e es ih =>
      obtain ⟨t, ht, hrest⟩ := Option.bind_eq_some_iff.mp h
      obtain ⟨hPt, hVt⟩ := hstep s e t hs ht
      obtain ⟨hPs', hVs'⟩ := ih hPt hrest
      refine ⟨hPs', ?_⟩
      rw [sumFrom_cons ht]
      omega

/-- A quantity that every step out of a good state changes by the step's
contribution. -/
theorem potential_eq {P : σ → Prop} {V : σ → ℤ} {w : ε → σ → ℤ}
    (hstep : ∀ s e s', P s → T.step e s = some s' → P s' ∧ V s' = V s + w e s)
    {es : List ε} {s s' : σ} (hs : P s) (h : T.runFrom es s = some s') :
    V s' = V s + T.sumFrom w es s := by
  have hupper := (potential_le (w := w)
    (fun s e s' hs h => ⟨(hstep s e s' hs h).1, (hstep s e s' hs h).2.le⟩) hs h).2
  have hlower := (potential_le (V := fun s => -V s) (w := fun e s => -1 * w e s)
    (fun s e s' hs h => ⟨(hstep s e s' hs h).1, by have hV := (hstep s e s' hs h).2; omega⟩)
    hs h).2
  rw [sumFrom_mul] at hlower
  omega

/-- A level that every step raises by its gain `g`, but not above the target `b`,
and lowers by at most its cost `c`: after a run it is what the gains make of it,
less the costs.  The steps have to do so only where they lead to a state `Q`, which
is reached from such states only. -/
theorem refill_le {P Q : σ → Prop} {x : σ → ℤ} {g c : ε → ℤ} {b : ℤ}
    (hgain : ∀ e, 0 ≤ g e) (hcost : ∀ e, 0 ≤ c e)
    {es : List ε} (hstep : ∀ s, ∀ e ∈ es, ∀ s', P s → T.step e s = some s' →
      P s' ∧ (Q s' → Q s ∧ min b (x s + g e) ≤ x s' + c e))
    {s s' : σ} (hs : P s) (h : T.runFrom es s = some s') (hs' : Q s') :
    Q s ∧ min b (x s + (es.map g).sum) ≤ x s' + (es.map c).sum := by
  induction es generalizing s with
  | nil =>
      obtain rfl : s = s' := Option.some.inj h
      exact ⟨hs', by simp⟩
  | cons e es ih =>
      obtain ⟨t, ht, hrest⟩ := Option.bind_eq_some_iff.mp h
      obtain ⟨hPt, hback⟩ := hstep s e (List.mem_cons_self ..) t hs ht
      obtain ⟨hQt, hlevel⟩ := ih (fun s d hd => hstep s d (List.mem_cons_of_mem _ hd)) hPt hrest
      obtain ⟨hQs, hfirst⟩ := hback hQt
      refine ⟨hQs, ?_⟩
      have hgains : 0 ≤ (es.map g).sum := List.sum_nonneg (by simpa using fun d _ => hgain d)
      have hcosts := hcost e
      rw [List.map_cons, List.sum_cons, List.map_cons, List.sum_cons]
      omega

end System

end EvhtpHttp.Support

import Mathlib.Data.Option.Basic

/-!
# Computations that come to their end

A computation in `Option` dies where its result is `none`.  `Total x Q` says that
`x` does not, and that its result meets `Q`; the rules follow the structure of the
computation.
-/

namespace EvhtpHttp.Support

universe u

variable {α β : Type u}

/-- The computation comes to its end with a result that meets `Q`. -/
def Total (x : Option α) (Q : α → Prop) : Prop :=
  ∃ a, x = some a ∧ Q a

namespace Total

variable {x : Option α} {Q Q' : α → Prop} {R : β → Prop}

theorem pure {a : α} (h : Q a) : Total (some a) Q :=
  ⟨a, rfl, h⟩

theorem mono (h : Total x Q) (hQ : ∀ a, Q a → Q' a) : Total x Q' := by
  obtain ⟨a, ha, hQa⟩ := h
  exact ⟨a, ha, hQ a hQa⟩

theorem bind {f : α → Option β} (h : Total x Q) (hf : ∀ a, Q a → Total (f a) R) :
    Total (x >>= f) R := by
  obtain ⟨a, rfl, hQa⟩ := h
  exact hf a hQa

theorem ite {c : Prop} [Decidable c] {y : Option α} (h : c → Total x Q) (h' : ¬ c → Total y Q) :
    Total (if c then x else y) Q := by
  by_cases hc : c
  · rw [if_pos hc]
    exact h hc
  · rw [if_neg hc]
    exact h' hc

/-- A result that is known is the one that meets the condition. -/
theorem elim (h : Total x Q) {a : α} (ha : x = some a) : Q a := by
  obtain ⟨b, hb, hQb⟩ := h
  obtain rfl := Option.some.inj (ha.symm.trans hb)
  exact hQb

end Total

end EvhtpHttp.Support

import Mathlib.Data.Int.Basic
import Mathlib.Tactic.NormNum

/-!
# Fixed-width integers

Arithmetic on C integers is computed over `ℤ` or `ℕ` and brought back into the
range of the type.  A value of type `int` is an integer between `-2^31` and
`2^31 - 1`; overflow is taken as two's complement wrap-around.
-/

namespace EvhtpHttp.Support

/-- The value of an `int` expression whose exact value is `x`. -/
def int32 (x : ℤ) : ℤ :=
  Int.bmod x (2 ^ 32)

/-- The largest `int`. -/
def intMax : ℤ := 2 ^ 31 - 1

/-- `x` is representable in an `int`. -/
def IsInt32 (x : ℤ) : Prop :=
  -(2 ^ 31) ≤ x ∧ x ≤ intMax

instance (x : ℤ) : Decidable (IsInt32 x) :=
  inferInstanceAs (Decidable (_ ∧ _))

theorem isInt32_iff {x : ℤ} : IsInt32 x ↔ -2147483648 ≤ x ∧ x ≤ 2147483647 :=
  Iff.rfl

theorem int32_of_isInt32 {x : ℤ} (h : IsInt32 x) : int32 x = x := by
  obtain ⟨hlo, hhi⟩ := h
  simp only [intMax] at hhi
  exact Int.bmod_eq_of_le_mul_two (by omega) (by omega)

theorem isInt32_int32 (x : ℤ) : IsInt32 (int32 x) := by
  have hlo := Int.le_bmod (x := x) (m := 2 ^ 32) (by norm_num)
  have hhi := Int.bmod_lt (x := x) (m := 2 ^ 32) (by norm_num)
  simp only [IsInt32, intMax, int32]
  constructor <;> omega

/-! ## Truncated division -/

/-- A share of one `n`-th is at least `k > 0` when the whole is at least `k * n`. -/
theorem le_tdiv_iff {k a n : ℤ} (hn : 0 < n) (hk : 0 < k) : k ≤ a.tdiv n ↔ k * n ≤ a := by
  rcases Int.le_total 0 a with ha | ha
  · rw [Int.tdiv_eq_ediv_of_nonneg ha]
    exact Int.le_ediv_iff_mul_le hn
  · have hshare : 0 ≤ (-a).tdiv n := Int.tdiv_nonneg (by omega) hn.le
    rw [Int.neg_tdiv] at hshare
    have hmul : 0 < k * n := Int.mul_pos hk hn
    omega

/-- A share of one `n`-th is negative when the whole is at most `-n`. -/
theorem tdiv_neg_iff {a n : ℤ} (hn : 0 < n) : a.tdiv n < 0 ↔ a ≤ -n := by
  have hflip := le_tdiv_iff (k := 1) (a := -a) hn (by decide)
  rw [Int.neg_tdiv] at hflip
  omega

theorem tdiv_bounds {a n k : ℤ} (hn : 0 < n) (hk : 0 ≤ k) (hlo : -((k + 1) * n) < a)
    (hhi : a < (k + 1) * n) : -k ≤ a.tdiv n ∧ a.tdiv n ≤ k := by
  have hpos : 0 < k + 1 := by omega
  have hupper := le_tdiv_iff (a := a) hn hpos
  have hlower := le_tdiv_iff (a := -a) hn hpos
  rw [Int.neg_tdiv] at hlower
  constructor
  · by_contra hnot
    have hle := hlower.mp (by omega)
    omega
  · by_contra hnot
    have hle := hupper.mp (by omega)
    omega

/-- The value of a `uint64_t` expression whose exact value is `x`. -/
def uint64 (x : ℕ) : ℕ :=
  x % 2 ^ 64

/-- The difference of two `uint64_t` values. -/
def uint64Sub (a b : ℕ) : ℕ :=
  uint64 (a + (2 ^ 64 - b % 2 ^ 64))

/-- The value of a 64-bit signed expression whose exact value is `x`. -/
def int64 (x : ℤ) : ℤ :=
  Int.bmod x (2 ^ 64)

/-- A signed value converted to an unsigned 64-bit type. -/
def uint64OfInt (x : ℤ) : ℕ :=
  (x % 2 ^ 64).toNat

theorem uint64OfInt_int64 {x : ℕ} (h : x < 2 ^ 64) : uint64OfInt (int64 x) = x := by
  have hmod : int64 x % (2 ^ 64 : ℕ) = x % (2 ^ 64 : ℕ) := Int.bmod_emod
  unfold uint64OfInt
  omega

theorem uint64Sub_of_le {a b : ℕ} (hle : b ≤ a) (ha : a < 2 ^ 64) : uint64Sub a b = a - b := by
  unfold uint64Sub uint64
  omega

end EvhtpHttp.Support

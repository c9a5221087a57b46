import EvhtpHttp.Support.Decimal
import EvhtpHttp.Support.MachineInt

/-!
# The number at the beginning of a text

White space, an optional sign and as many digits as there are: what the conversions
of the C library read.  They do not say where they stopped, so a text without digits
has a number at its beginning too, with no digits at all.
-/

namespace EvhtpHttp.Support

/-! ## Finding it -/

/-- `isspace` in the C locale. -/
def isSpace (c : Char) : Bool :=
  c = ' ' || (9 ≤ c.toNat && c.toNat ≤ 13)

/-- The optional sign of a number: whether it is a minus, and what follows. -/
def numberSign : List Char → Bool × List Char
  | '-' :: rest => (true, rest)
  | '+' :: rest => (false, rest)
  | s => (false, s)

/-! ## What is found -/

/-- An optional sign: whether it is a minus, the string and what follows the sign. -/
inductive Signed : Bool → List Char → List Char → Prop
  | minus (rest : List Char) : Signed true ('-' :: rest) rest
  | plus (rest : List Char) : Signed false ('+' :: rest) rest
  | none {s : List Char} (hminus : s.head? ≠ some '-') (hplus : s.head? ≠ some '+') :
      Signed false s s

/-- The number at the beginning of a string: after white space and an optional
sign the longest sequence of digits, which may be empty. -/
def Numeral (s : List Char) (negative : Bool) (digits : List Char) : Prop :=
  ∃ space signed unsigned rest, Scan isSpace s space signed ∧
    Signed negative signed unsigned ∧ Scan Char.isDigit unsigned digits rest

theorem signed_iff {negative : Bool} {s rest : List Char} :
    Signed negative s rest ↔ numberSign s = (negative, rest) := by
  constructor
  · intro h
    cases h with
    | minus => rfl
    | plus => rfl
    | none hminus hplus =>
        unfold numberSign
        split
        · exact absurd rfl hminus
        · exact absurd rfl hplus
        · rfl
  · intro h
    unfold numberSign at h
    split at h
    · obtain ⟨rfl, rfl⟩ := Prod.mk.inj h
      exact Signed.minus _
    · obtain ⟨rfl, rfl⟩ := Prod.mk.inj h
      exact Signed.plus _
    · rename_i hminus hplus
      obtain ⟨rfl, rfl⟩ := Prod.mk.inj h
      refine Signed.none ?_ ?_
      · intro hhead
        obtain ⟨tail, htail⟩ := List.head?_eq_some_iff.mp hhead
        exact hminus tail htail
      · intro hhead
        obtain ⟨tail, htail⟩ := List.head?_eq_some_iff.mp hhead
        exact hplus tail htail

/-- Every string has exactly one number at its beginning. -/
theorem numeral_iff {s : List Char} {negative : Bool} {digits : List Char} :
    Numeral s negative digits ↔ negative = (numberSign (s.dropWhile isSpace)).1 ∧
      digits = (numberSign (s.dropWhile isSpace)).2.takeWhile Char.isDigit := by
  constructor
  · rintro ⟨space, signed, unsigned, rest, hspace, hsign, hdigits⟩
    obtain ⟨-, rfl⟩ := scan_iff.mp hspace
    obtain ⟨hdigits, -⟩ := scan_iff.mp hdigits
    rw [signed_iff.mp hsign]
    exact ⟨rfl, hdigits⟩
  · rintro ⟨rfl, rfl⟩
    exact ⟨_, _, _, _, scan_takeWhile _ _, signed_iff.mpr rfl, scan_takeWhile _ _⟩

theorem not_isSpace_of_isDigit {c : Char} (h : c.isDigit = true) :
    isSpace c = false ∧ c ≠ '-' ∧ c ≠ '+' := by
  have hbounds : 48 ≤ c.toNat ∧ c.toNat ≤ 57 := by
    simpa [Char.isDigit, UInt32.le_iff_toNat_le] using h
  have hne : ∀ d : Char, d.toNat < 48 → c ≠ d := by
    rintro d hd rfl
    omega
  refine ⟨?_, hne _ (by decide), hne _ (by decide)⟩
  have hblank : c ≠ ' ' := hne _ (by decide)
  simp only [isSpace, hblank, decide_false, Bool.false_or, Bool.and_eq_false_iff,
    decide_eq_false_iff_not]
  omega

theorem numeral_of_digits {s : List Char} (hdigits : ∀ c ∈ s, c.isDigit = true) :
    Numeral s false s := by
  have hfirst : ∀ c, s.head? = some c → c.isDigit = true := fun c hc =>
    hdigits c (List.mem_of_mem_head? hc)
  refine ⟨[], s, s, [], ?_, Signed.none ?_ ?_, scan_all hdigits⟩
  · exact ⟨rfl, by simp, fun c hc => (not_isSpace_of_isDigit (hfirst c hc)).1⟩
  · exact fun hhead => (not_isSpace_of_isDigit (hfirst _ hhead)).2.1 rfl
  · exact fun hhead => (not_isSpace_of_isDigit (hfirst _ hhead)).2.2 rfl

/-- A written number is a number with a sign. -/
theorem numeral_signedDecimal (x : ℤ) :
    Numeral (signedDecimal x) (decide (x < 0)) (decimal x.natAbs) := by
  have hdigits : ∀ c ∈ decimal x.natAbs, c.isDigit = true := fun _ => isDigit_of_mem_decimal
  by_cases hx : x < 0
  · have hwritten : signedDecimal x = '-' :: decimal x.natAbs := by
      rw [signedDecimal, signOf, if_pos hx]
      rfl
    rw [hwritten, decide_eq_true hx]
    refine ⟨[], _, _, [], ⟨rfl, by simp, ?_⟩, Signed.minus _, scan_all hdigits⟩
    intro c hc
    rw [List.head?_cons] at hc
    rw [← Option.some.inj hc]
    decide
  · have hwritten : signedDecimal x = decimal x.natAbs := by
      rw [signedDecimal, signOf, if_neg hx]
      rfl
    rw [hwritten, decide_eq_false hx]
    exact numeral_of_digits hdigits

/-! ## Signed conversions -/

def longMax : ℤ := 2 ^ 63 - 1

def longMin : ℤ := -2 ^ 63

/-- `strtol` with base 10: white space, a sign and as many digits as there are;
a value out of range becomes the nearest one in range. -/
def strtol (s : List Char) : ℤ :=
  let signed := numberSign (s.dropWhile isSpace)
  let n : ℤ := digitsValue (signed.2.takeWhile Char.isDigit)
  let v := if signed.1 then -n else n
  if v > longMax then longMax
  else if v < longMin then longMin
  else v

/-- `atoi`: the result of `strtol` converted to `int`. -/
def atoi (s : String) : ℤ :=
  int32 (strtol s.toList)

/-- What `strtol` makes of the number at the beginning of a string. -/
theorem strtol_of_numeral {s digits : List Char} {negative : Bool}
    (h : Numeral s negative digits) {x : ℤ}
    (hx : x = if negative then -(digitsValue digits : ℤ) else digitsValue digits)
    (hlo : longMin ≤ x) (hhi : x ≤ longMax) : strtol s = x := by
  obtain ⟨hnegative, hdigits⟩ := numeral_iff.mp h
  simp only [strtol, ← hnegative, ← hdigits, ← hx]
  rw [if_neg (not_lt.mpr hhi), if_neg (not_lt.mpr hlo)]

/-- `atoi` reads an `int` that was written with `%d`. -/
theorem atoi_signedDecimal {x : ℤ} (hx : IsInt32 x) :
    atoi (String.ofList (signedDecimal x)) = x := by
  obtain ⟨hlo, hhi⟩ := isInt32_iff.mp hx
  have hvalue : x = if decide (x < 0) = true then -(digitsValue (decimal x.natAbs) : ℤ)
      else digitsValue (decimal x.natAbs) := by
    rw [digitsValue_decimal]
    by_cases hneg : x < 0
    · rw [if_pos (decide_eq_true hneg)]
      omega
    · rw [if_neg (by simp [hneg])]
      omega
  have hread : strtol (signedDecimal x) = x := by
    refine strtol_of_numeral (numeral_signedDecimal x) hvalue ?_ ?_
    · unfold longMin
      omega
    · unfold longMax
      omega
  rw [atoi, String.toList_ofList, hread]
  exact int32_of_isInt32 hx

end EvhtpHttp.Support

import EvhtpHttp.Support.Scan
import Mathlib.Data.Int.Basic
import Mathlib.Data.List.TakeWhile

/-!
# Decimal numbers in a text

How numbers are written, and that they can be read again: a number written with
all its digits is found again in front of anything that is not a digit, and
behind anything that is neither a digit nor a sign.
-/

namespace EvhtpHttp.Support

/-! ## Writing -/

/-- A natural number with as many digits as it needs. -/
def decimal (n : ℕ) : List Char :=
  Nat.toDigits 10 n

/-- The sign of an integer: nothing or a minus. -/
def signOf (x : ℤ) : List Char :=
  if x < 0 then ['-'] else []

/-- An integer with as many digits as it needs. -/
def signedDecimal (x : ℤ) : List Char :=
  signOf x ++ decimal x.natAbs

/-- An integer with zeros between its sign and its digits, `width` characters or
more in all. -/
def paddedDecimal (width : ℕ) (x : ℤ) : List Char :=
  signOf x ++
    (List.replicate (width - (signedDecimal x).length) '0' ++ decimal x.natAbs)

/-- The value of a sequence of decimal digits. -/
def digitsValue (digits : List Char) : ℕ :=
  Nat.ofDigitChars 10 digits 0

@[simp] theorem digitsValue_decimal (n : ℕ) : digitsValue (decimal n) = n :=
  Nat.ofDigitChars_ten_toDigits

theorem isDigit_of_mem_decimal {n : ℕ} {c : Char} (hc : c ∈ decimal n) : c.isDigit = true :=
  Nat.isDigit_of_mem_toDigits (by decide) (by decide) hc

theorem digitsValue_zeros (k : ℕ) (digits : List Char) :
    digitsValue (List.replicate k '0' ++ digits) = digitsValue digits := by
  rw [digitsValue, Nat.ofDigitChars_append, Nat.ofDigitChars_replicate_zero, Nat.mul_zero]
  rfl

theorem eq_of_signOf {x y : ℤ} (hsign : signOf x = signOf y) (habs : x.natAbs = y.natAbs) :
    x = y := by
  have hneg : x < 0 ↔ y < 0 := by
    by_cases hx : x < 0
    · by_cases hy : y < 0
      · exact iff_of_true hx hy
      · exact absurd hsign (by simp [signOf, hx, hy])
    · by_cases hy : y < 0
      · exact absurd hsign (by simp [signOf, hx, hy])
      · exact iff_of_false hx hy
  omega

/-! ## Reading -/

section Cancel

variable {α : Type*} {p : α → Bool} {l l' rest rest' : List α}

/-- Two equal texts that begin with elements of one kind and go on with another
are equal part by part. -/
theorem cancel_front (hl : ∀ a ∈ l, p a = true) (hl' : ∀ a ∈ l', p a = true)
    (hrest : ∀ a, rest.head? = some a → p a = false)
    (hrest' : ∀ a, rest'.head? = some a → p a = false)
    (h : l ++ rest = l' ++ rest') : l = l' ∧ rest = rest' := by
  have hscan : Scan p (l ++ rest) l rest := ⟨rfl, hl, hrest⟩
  have hscan' : Scan p (l ++ rest) l' rest' := ⟨h, hl', hrest'⟩
  obtain ⟨htaken, hleft⟩ := scan_iff.mp hscan
  obtain ⟨htaken', hleft'⟩ := scan_iff.mp hscan'
  exact ⟨htaken.trans htaken'.symm, hleft.trans hleft'.symm⟩

theorem cancel_back (hl : ∀ a ∈ l, p a = true) (hl' : ∀ a ∈ l', p a = true)
    (hrest : ∀ a, rest.getLast? = some a → p a = false)
    (hrest' : ∀ a, rest'.getLast? = some a → p a = false)
    (h : rest ++ l = rest' ++ l') : rest = rest' ∧ l = l' := by
  have hmem : ∀ {l : List α}, (∀ a ∈ l, p a = true) → ∀ a ∈ l.reverse, p a = true :=
    fun hl a ha => hl a (List.mem_reverse.mp ha)
  have hhead : ∀ {l : List α}, (∀ a, l.getLast? = some a → p a = false) →
      ∀ a, l.reverse.head? = some a → p a = false := fun hl a ha =>
    hl a (List.head?_reverse.symm.trans ha)
  have hrev : l.reverse ++ rest.reverse = l'.reverse ++ rest'.reverse := by
    rw [← List.reverse_append, ← List.reverse_append, h]
  obtain ⟨hlast, hfirst⟩ :=
    cancel_front (hmem hl) (hmem hl') (hhead hrest) (hhead hrest') hrev
  exact ⟨List.reverse_inj.mp hfirst, List.reverse_inj.mp hlast⟩

end Cancel

/-- The characters of a number. -/
def isNumeric (c : Char) : Bool :=
  c.isDigit || c = '-'

/-- What follows does not go on with a number. -/
def NoNumberNext (rest : List Char) : Prop :=
  ∀ c, rest.head? = some c → isNumeric c = false

/-- What comes before does not end with a number. -/
def NoNumberBefore (rest : List Char) : Prop :=
  ∀ c, rest.getLast? = some c → isNumeric c = false

theorem noNumberNext_cons {c : Char} (hc : isNumeric c = false) (rest : List Char) :
    NoNumberNext (c :: rest) := by
  intro d hd
  rw [List.head?_cons] at hd
  rwa [← Option.some.inj hd]

theorem noNumberBefore_append {c : Char} (hc : isNumeric c = false) {l : List Char}
    (hlast : l.getLast? = some c) (rest : List Char) : NoNumberBefore (rest ++ l) := by
  intro d hd
  rw [List.getLast?_append, hlast, Option.some_or] at hd
  rwa [← Option.some.inj hd]

theorem isNumeric_of_isDigit {c : Char} (hc : c.isDigit = true) : isNumeric c = true := by
  simp [isNumeric, hc]

theorem isNumeric_of_mem_signOf {x : ℤ} {c : Char} (hc : c ∈ signOf x) :
    isNumeric c = true ∧ c.isDigit = false := by
  by_cases hx : x < 0
  · rw [signOf, if_pos hx, List.mem_singleton] at hc
    rw [hc]
    decide
  · simp [signOf, hx] at hc

theorem signOf_cancel {x y : ℤ} {l l' : List Char} (hl : ∀ c ∈ l, c.isDigit = true)
    (hl' : ∀ c ∈ l', c.isDigit = true) (h : signOf x ++ l = signOf y ++ l') :
    signOf x = signOf y ∧ l = l' := by
  have hsign : ∀ z : ℤ, ∀ c ∈ signOf z, (!c.isDigit) = true := by
    intro z c hc
    rw [(isNumeric_of_mem_signOf hc).2]
    rfl
  have hstop : ∀ {l : List Char}, (∀ c ∈ l, c.isDigit = true) →
      ∀ c, l.head? = some c → (!c.isDigit) = false := by
    intro l hl c hc
    rw [hl c (List.mem_of_mem_head? hc)]
    rfl
  exact cancel_front (hsign x) (hsign y) (hstop hl) (hstop hl') h

/-! ## Legible numbers -/

/-- A way to write numbers that can be read again: only the characters of a number
are used, and no two numbers are written in the same way. -/
structure Legible {ν : Type*} (write : ν → List Char) : Prop where
  numeric : ∀ x, ∀ c ∈ write x, isNumeric c = true
  injective : Function.Injective write

/-- A sign, any number of zeros and the digits. -/
theorem legible_of_zeros (zeros : ℤ → ℕ) :
    Legible fun x => signOf x ++ (List.replicate (zeros x) '0' ++ decimal x.natAbs) := by
  have hdigits : ∀ x : ℤ, ∀ c ∈ List.replicate (zeros x) '0' ++ decimal x.natAbs,
      c.isDigit = true := by
    intro x c hc
    rcases List.mem_append.mp hc with hzero | hdigit
    · rw [List.eq_of_mem_replicate hzero]
      decide
    · exact isDigit_of_mem_decimal hdigit
  constructor
  · intro x c hc
    rcases List.mem_append.mp hc with hsign | hdigit
    · exact (isNumeric_of_mem_signOf hsign).1
    · exact isNumeric_of_isDigit (hdigits x c hdigit)
  · intro x y h
    obtain ⟨hsign, hsame⟩ := signOf_cancel (hdigits x) (hdigits y) h
    have hvalue := congrArg digitsValue hsame
    rw [digitsValue_zeros, digitsValue_zeros, digitsValue_decimal, digitsValue_decimal] at hvalue
    exact eq_of_signOf hsign hvalue

theorem legible_signedDecimal : Legible signedDecimal :=
  legible_of_zeros fun _ => 0

theorem legible_paddedDecimal (width : ℕ) : Legible (paddedDecimal width) :=
  legible_of_zeros fun x => width - (signedDecimal x).length

/-- A number at the beginning of a text. -/
theorem Legible.cancel_front {ν : Type*} {write : ν → List Char} (hw : Legible write) {x y : ν}
    {rest rest' : List Char} (hrest : NoNumberNext rest) (hrest' : NoNumberNext rest')
    (h : write x ++ rest = write y ++ rest') : x = y ∧ rest = rest' := by
  obtain ⟨hnumber, hafter⟩ :=
    Support.cancel_front (hw.numeric x) (hw.numeric y) hrest hrest' h
  exact ⟨hw.injective hnumber, hafter⟩

theorem Legible.cancel_back {ν : Type*} {write : ν → List Char} (hw : Legible write) {x y : ν}
    {rest rest' : List Char} (hrest : NoNumberBefore rest) (hrest' : NoNumberBefore rest')
    (h : rest ++ write x = rest' ++ write y) : rest = rest' ∧ x = y := by
  obtain ⟨hbefore, hnumber⟩ :=
    Support.cancel_back (hw.numeric x) (hw.numeric y) hrest hrest' h
  exact ⟨hbefore, hw.injective hnumber⟩

/-! ## Lines of fields -/

theorem signedDecimal_natCast (n : ℕ) : signedDecimal n = decimal n := by
  rw [signedDecimal, signOf, if_neg (by omega), Int.natAbs_natCast, List.nil_append]

/-- Fields one after the other, each a label and a number. -/
def fieldsText : List (List Char × ℤ) → List Char
  | [] => []
  | (label, x) :: fields => label ++ signedDecimal x ++ fieldsText fields

/-- A label that cannot be taken for a part of the number after it. -/
def EndsLabel (label : List Char) : Prop :=
  label.getLast?.map isNumeric = some false

instance (label : List Char) : Decidable (EndsLabel label) :=
  inferInstanceAs (Decidable (_ = _))

/-- Fields at the end of a text are told from what is before them, whatever that is. -/
theorem fieldsText_cancel {fields fields' : List (List Char × ℤ)}
    (hlabels : fields.map Prod.fst = fields'.map Prod.fst)
    (hends : ∀ field ∈ fields, EndsLabel field.1) :
    ∀ before before' : List Char, before ++ fieldsText fields = before' ++ fieldsText fields' →
      before = before' ∧ fields = fields' := by
  induction fields generalizing fields' with
  | nil =>
      intro before before' h
      obtain rfl := List.map_eq_nil_iff.mp hlabels.symm
      exact ⟨List.append_cancel_right h, rfl⟩
  | cons field fields ih =>
      intro before before' h
      obtain ⟨label, x⟩ := field
      obtain ⟨⟨label', y⟩, fields', rfl, hlabel, hrest⟩ := List.map_eq_cons_iff.mp hlabels.symm
      obtain rfl : label' = label := hlabel
      obtain ⟨c, hlast, hc⟩ := Option.map_eq_some_iff.mp (hends (label', x) (List.mem_cons_self ..))
      have hnext := ih hrest.symm (fun field hfield => hends field (List.mem_cons_of_mem _ hfield))
        (before ++ label' ++ signedDecimal x) (before' ++ label' ++ signedDecimal y)
        (by simpa [fieldsText] using h)
      obtain ⟨hhead, hx⟩ := legible_signedDecimal.cancel_back (noNumberBefore_append hc hlast _)
        (noNumberBefore_append hc hlast _) hnext.1
      exact ⟨List.append_cancel_right hhead, by rw [hx, hnext.2]⟩

end EvhtpHttp.Support

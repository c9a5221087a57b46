import EvhtpHttp.Server.Body

/-!
# The size parameter

Which strings `sizecb` takes for a size, and which size it takes them for.
`strtoull` reads a number at the beginning of the string and does not say where
it stopped, so only a value of `ULLONG_MAX` is told from a size.
-/

namespace EvhtpHttp.Server

open EvhtpHttp.Support

/-! ## The size that is read -/

/-- The value of a number as an `unsigned long long`. -/
def sizeValue (negative : Bool) (n : ℕ) : ℕ :=
  if negative then (2 ^ 64 - n) % 2 ^ 64 else n

/-- The number at the beginning of a string is no size: it is out of range, or its
value is `ULLONG_MAX`. -/
def NoSize (negative : Bool) (n : ℕ) : Prop :=
  ullongMax < n ∨ sizeValue negative n = ullongMax

instance (negative : Bool) (n : ℕ) : Decidable (NoSize negative n) :=
  inferInstanceAs (Decidable (_ ∨ _))

theorem strtoull_of_numeral {s : List Char} {negative : Bool} {digits : List Char}
    (h : Numeral s negative digits) :
    strtoull s = if ullongMax < digitsValue digits then ullongMax
      else sizeValue negative (digitsValue digits) := by
  obtain ⟨hnegative, hdigits⟩ := numeral_iff.mp h
  rw [strtoull, ← hnegative, ← hdigits]
  by_cases hlarge : ullongMax < digitsValue digits
  · simp [hlarge]
  · have hsub : uint64Sub 0 (digitsValue digits) =
        (2 ^ 64 - digitsValue digits) % 2 ^ 64 := by
      unfold uint64Sub uint64
      unfold ullongMax at hlarge
      omega
    simp [hlarge, sizeValue, hsub]

theorem strtoull_eq_ullongMax_iff {s : List Char} {negative : Bool} {digits : List Char}
    (h : Numeral s negative digits) :
    strtoull s = ullongMax ↔ NoSize negative (digitsValue digits) := by
  rw [strtoull_of_numeral h, NoSize]
  by_cases hlarge : ullongMax < digitsValue digits
  · simp [hlarge]
  · simp [hlarge]

/-! ## The answer -/

/-- The request that begins in `s` is answered with an error and gets no `struct
req`. -/
structure Refused (s s' : ServerState) : Prop where
  heap : s'.heap = s.heap
  sent : s'.sent = s.sent ++ [(s.nextId, .error)]

theorem refused_of_size {s : ServerState} {conn : EvhtpConnection} (hconn : s.conn = some conn)
    (hidle : conn.request = none) {v : String} (hv : strtoull v.toList = ullongMax)
    (junk : Req) :
    ∃ s', serverStep (.size (some v) true true junk) s = some s' ∧ Refused s s' := by
  have hstart : serverStep (.size (some v) true true junk) s =
      evhtpSendReply s.nextId (s.newRequest conn) := by
    simp [serverStep, evhtpRequestNew, hconn, hidle, ServerState.newRequest, sizecb, hv]
  rw [hstart]
  simp only [evhtpSendReply, inProgress_newRequest, Option.bind_eq_bind, Option.bind_some,
    Option.pure_def]
  exact ⟨_, rfl, rfl, rfl⟩

/-- What `sizecb` does with any string when its allocations succeed: it takes the
number at the beginning of the string for the size, whatever stands before and
after it, and refuses only a number that is no size.  In particular a string of
digits of a value below `ULLONG_MAX` starts a reply of that size, and so does the
empty string, whose value is 0. -/
theorem sizecb_answer {s : ServerState} {conn : EvhtpConnection} (hconn : s.conn = some conn)
    (hidle : conn.request = none) (v : String) (junk : Req) :
    ∃ negative digits s', Numeral v.toList negative digits ∧
      serverStep (.size (some v) true true junk) s = some s' ∧
      (NoSize negative (digitsValue digits) → Refused s s') ∧
      (¬ NoSize negative (digitsValue digits) →
        ∀ es s'', (∀ e ∈ es, e = .onWrite ∨ ∃ p, e = .release p) →
          serverSystem.runFrom es s' = some s'' →
          Replying s (sizeValue negative (digitsValue digits)) (1 + es.count .onWrite) s'') ∧
      ((∀ c ∈ v.toList, c.isDigit = true) → digitsValue v.toList < 2 ^ 64 - 1 →
        Replying s (digitsValue v.toList) 1 s') := by
  obtain ⟨negative, digits, hnum⟩ : ∃ negative digits, Numeral v.toList negative digits :=
    ⟨_, _, numeral_iff.mpr ⟨rfl, rfl⟩⟩
  have hmax := strtoull_eq_ullongMax_iff hnum
  have hplain : (∀ c ∈ v.toList, c.isDigit = true) → digitsValue v.toList < 2 ^ 64 - 1 →
      strtoull v.toList = digitsValue v.toList := by
    intro hdigits hlt
    have hfits : ¬ ullongMax < digitsValue v.toList := not_lt.mpr hlt.le
    rw [strtoull_of_numeral (numeral_of_digits hdigits), if_neg hfits]
    rfl
  by_cases hsize : NoSize negative (digitsValue digits)
  · obtain ⟨s', hs', hrefused⟩ := refused_of_size hconn hidle (hmax.mpr hsize) junk
    refine ⟨negative, digits, s', hnum, hs', fun _ => hrefused, fun h => absurd hsize h, ?_⟩
    intro hdigits hlt
    have hvalue := (hplain hdigits hlt).symm.trans (hmax.mpr hsize)
    exact absurd hvalue hlt.ne
  · have hv : strtoull v.toList = sizeValue negative (digitsValue digits) := by
      rw [strtoull_of_numeral hnum, if_neg fun hlarge => hsize (Or.inl hlarge)]
    have hn : sizeValue negative (digitsValue digits) ≠ ullongMax := fun h =>
      hsize (Or.inr h)
    obtain ⟨s', hs'⟩ := exists_size junk hv hn hconn hidle
    have hreply := replying_of_size hv hn hs'
    refine ⟨negative, digits, s', hnum, hs', fun h => absurd h hsize, fun _ es s'' hes hrun =>
      hreply.run (lt_of_strtoull hv) hes hrun, ?_⟩
    intro hdigits hlt
    rw [← hplain hdigits hlt, hv]
    exact hreply

/-- A new connection answers the size 12 with a reply of 12 bytes. -/
theorem sizecb_answer_start :
    ∃ s', serverStep (.size (some "12") true true Req.zero) ServerState.start = some s' ∧
      Replying ServerState.start 12 1 s' := by
  obtain ⟨_, _, s', -, hs', -, -, hdigits⟩ :=
    sizecb_answer (s := ServerState.start) rfl rfl "12" Req.zero
  exact ⟨s', hs', hdigits (by simp) (by decide)⟩

/-- The size `-5` makes a `struct req` and starts a reply of `2^64 - 5` bytes. -/
theorem sizecb_negative :
    ∃ s' c, serverStep (.size (some "-5") true true Req.zero) ServerState.start = some s' ∧
      s'.heap[0]? = some c ∧ c.req.reqType = .size ∧ c.req.replySize = 2 ^ 64 - 5 ∧
      (0, Reply.error) ∉ s'.sent := by
  have hv : strtoull "-5".toList = 2 ^ 64 - 5 := by decide
  obtain ⟨s', hs'⟩ := exists_size (s := ServerState.start) Req.zero hv (by decide) rfl rfl
  have hreply := replying_of_size hv (by decide) hs'
  obtain ⟨c, hc, hreq⟩ := hreply.cell
  refine ⟨s', c, hs', hc, hreq.reqType, hreq.replySize, ?_⟩
  rw [hreply.sent]
  simp [ServerState.start, replies, replyChunks]

end EvhtpHttp.Server

import EvhtpHttp.Server.Body
import EvhtpHttp.Server.Links

/-!
# The reference count

A `struct req` is referenced by its request, until the error or the fini hook of
that request runs, and by every chunk that was not released yet.  Its reference
count is an `int`, so it is exact only as long as there are not too many chunks.
-/

namespace EvhtpHttp.Server

open EvhtpHttp.Support

/-- The references to the cell `c` at `p`. -/
def ServerState.holders (p : ReqPtr) (c : Cell) (s : ServerState) : ℕ :=
  (if c.ended = 0 then 1 else 0) + s.refs.count p

/-- Every `struct req` counts its references, and it and its buffer were freed
once if there are none and not at all otherwise. -/
def RefcountExact (s : ServerState) : Prop :=
  ∀ p c, s.heap[p]? = some c →
    c.req.refcnt = s.holders p c ∧
      c.freed = (if s.holders p c = 0 then 1 else 0) ∧
      c.bufFreed = if c.req.buf = none then 0 else c.freed

/-- No part of a buffer is written while almost `2^31` parts of it are still to be
released. -/
def FewChunks (_ : List ServerEvent) (e : ServerEvent) (s : ServerState) : Prop :=
  e = .onWrite → ∀ conn p c, s.conn = some conn → conn.onWrite = some p →
    s.heap[p]? = some c → c.req.reqType = .size → s.refs.count p < 2 ^ 31 - 2

/-! ## Cells -/

/-- A property `K n c` of the cells `c` with `n` references that all the server
does with a cell keeps.  `Room n` is what a chunk asks for when `n` chunks are
still to be released. -/
structure CellInvariant (Room : ℕ → Prop) (K : ℕ → Cell → Prop) : Prop where
  room : Room 0
  fresh : ∀ {q : EvhtpPtr} {r : Req}, FreshReq q r → K 1 ⟨r, 0, 0, 0⟩
  drop : ∀ {n : ℕ} {c : Cell}, K (n + 1) c → K n c.drop
  endReq : ∀ {n : ℕ} {c : Cell}, K n c → K n c.endReq
  lineWritten : ∀ {n : ℕ} {c : Cell}, K n c → K n { c with req := c.req.lineWritten }
  bufWritten : ∀ {n : ℕ} {c : Cell}, Room n → K (n + 1) c →
    K (n + 2) { c with req := c.req.bufWritten }

/-- A cell whose count is that of its `n` references, up to the overflow of an
`int`. -/
def Cell.Wraps (n : ℕ) (c : Cell) : Prop :=
  c.req.refcnt = int32 n

theorem int32_int32_add (x y : ℤ) : int32 (int32 x + y) = int32 (x + y) := by
  rw [int32, int32, int32, Int.bmod_add_bmod]

theorem Cell.Wraps.drop {n : ℕ} {c : Cell} (h : c.Wraps (n + 1)) :
    int32 (c.req.refcnt - 1) = int32 n := by
  rw [h, sub_eq_add_neg, int32_int32_add, Nat.cast_succ, add_neg_cancel_right]

/-- Up to overflow the counts are right in every run. -/
theorem cellInvariant_wraps : CellInvariant (fun _ => True) Cell.Wraps where
  room := trivial
  fresh hr := hr.refcnt
  drop := by
    intro n c h
    rw [Cell.Wraps, Cell.drop_req]
    exact h.drop
  endReq h := h
  lineWritten h := h
  bufWritten := by
    intro n c _ h
    have hcast : ((n + 1 : ℕ) : ℤ) + 1 = (n + 2 : ℕ) := by norm_cast
    rw [Cell.Wraps, Req.bufWritten, h, int32_int32_add, hcast]

/-- A cell with `n` references, which an `int` can count. -/
structure Cell.Counted (n : ℕ) (c : Cell) : Prop where
  fits : n < 2 ^ 31
  refcnt : c.req.refcnt = n
  freed : c.freed = if n = 0 then 1 else 0
  bufFreed : c.bufFreed = if c.req.buf = none then 0 else c.freed

namespace Cell.Counted

variable {n : ℕ} {c : Cell}

theorem int32_natCast (hn : n < 2 ^ 31) : int32 n = n := by
  apply int32_of_isInt32
  rw [isInt32_iff]
  omega

theorem wraps (h : c.Counted n) : c.Wraps n := by
  rw [Cell.Wraps, h.refcnt, int32_natCast h.fits]

theorem drop (h : c.Counted (n + 1)) : c.drop.Counted n := by
  have hfits : n < 2 ^ 31 := Nat.lt_of_succ_lt h.fits
  have hcount : int32 (c.req.refcnt - 1) = n := h.wraps.drop.trans (int32_natCast hfits)
  have hfreed : c.freed = 0 := h.freed
  have hbufFreed : c.bufFreed = 0 := by
    rw [h.bufFreed, hfreed, ite_self]
  by_cases hn : n = 0
  · have hlast : ¬ 0 < int32 (c.req.refcnt - 1) := by
      rw [hcount, hn]
      decide
    rw [Cell.drop_of_not_pos hlast]
    refine ⟨hfits, hcount, ?_, ?_⟩
    · rw [if_pos hn, hfreed]
    · rw [hfreed, hbufFreed]
  · have hmore : 0 < int32 (c.req.refcnt - 1) := by
      rw [hcount]
      exact Int.natCast_pos.mpr (Nat.pos_of_ne_zero hn)
    rw [Cell.drop_of_pos hmore]
    refine ⟨hfits, hcount, ?_, h.bufFreed⟩
    rw [if_neg hn, hfreed]

theorem bufWritten (hroom : n < 2 ^ 31 - 2) (h : c.Counted (n + 1)) :
    Counted (n + 2) { c with req := c.req.bufWritten } := by
  have hfits : n + 2 < 2 ^ 31 := by omega
  have hwraps : Cell.Wraps (n + 2) { c with req := c.req.bufWritten } :=
    cellInvariant_wraps.bufWritten trivial h.wraps
  exact ⟨hfits, hwraps.trans (int32_natCast hfits), h.freed, h.bufFreed⟩

end Cell.Counted

theorem cellInvariant_counted : CellInvariant (fun n => n < 2 ^ 31 - 2) Cell.Counted where
  room := by decide
  fresh hr := ⟨by decide, hr.refcnt, rfl, (ite_self _).symm⟩
  drop := Cell.Counted.drop
  endReq h := ⟨h.fits, h.refcnt, h.freed, h.bufFreed⟩
  lineWritten h := ⟨h.fits, h.refcnt, h.freed, h.bufFreed⟩
  bufWritten := Cell.Counted.bufWritten

/-! ## Steps -/

/-- Every cell has the property `K` for its references. -/
def ServerState.Cells (K : ℕ → Cell → Prop) (s : ServerState) : Prop :=
  ∀ (p : ReqPtr) (c : Cell), s.heap[p]? = some c → K (s.holders p c) c

section Steps

variable {s s' : ServerState} {p : ReqPtr} {c c' : Cell} {Room : ℕ → Prop}
  {K : ℕ → Cell → Prop}

theorem Linked.holders_eq (hs : Linked s) (hc : s.heap[p]? = some c) {q : EvhtpPtr}
    (hq : c.req.req = some q) : c.ended = 0 ∧ s.holders p c = s.refs.count p + 1 := by
  have hended : c.ended = 0 := by
    rw [hs.ended hc, hq]
    simp
  exact ⟨hended, by rw [ServerState.holders, if_pos hended, Nat.add_comm]⟩

theorem ServerState.Cells.replace (hs : s.Cells K) (hc : s.heap[p]? = some c)
    (hheap : s'.heap = s.heap.set p c') (hrefs : ∀ j, j ≠ p → s'.refs.count j = s.refs.count j)
    (hc' : K (s'.holders p c') c') : s'.Cells K := by
  intro j d hd
  rw [hheap, getElem?_set_of_some hc] at hd
  by_cases hj : j = p
  · rw [if_pos hj] at hd
    cases hd
    rw [hj]
    exact hc'
  · rw [if_neg hj] at hd
    have hsame : s'.holders j d = s.holders j d := by
      rw [ServerState.holders, ServerState.holders, hrefs j hj]
    rw [hsame]
    exact hs j d hd

theorem ServerState.Cells.started (hs : s.Cells K) (hK : CellInvariant Room K)
    (hlinked : Linked s) {r : Req} (hr : FreshReq s.nextId r) (finished : Bool) (reply : Reply) :
    (s.started r finished reply).Cells K := by
  intro j d hd
  rcases Nat.lt_trichotomy j s.heap.length with hlt | rfl | hgt
  · have hold : s.heap[j]? = some d := by
      rw [← hd, ServerState.started, List.getElem?_append_left hlt]
    exact hs j d hold
  · rw [started_getElem?] at hd
    cases hd
    have hnone : s.refs.count s.heap.length = 0 :=
      List.count_eq_zero.mpr fun hmem => Nat.lt_irrefl _ (hlinked.held hmem)
    have hone : (s.started r finished reply).holders s.heap.length ⟨r, 0, 0, 0⟩ = 1 := by
      simp [ServerState.holders, ServerState.started, hnone]
    rw [hone]
    exact hK.fresh hr
  · have hend : (s.started r finished reply).heap.length ≤ j := by
      simp only [ServerState.started, List.length_append, List.length_singleton]
      exact hgt
    rw [List.getElem?_eq_none hend] at hd
    cases hd

theorem ServerState.Cells.writes (hs : s.Cells K) (hK : CellInvariant Room K)
    (hlinked : Linked s)
    (hroom : ∀ c, s.heap[p]? = some c → c.req.reqType = .size → Room (s.refs.count p))
    (h : Writes p s s') : s'.Cells K := by
  cases h with
  | @line c conn x hc htype hconn hrequest hreq =>
      exact hs.replace hc rfl (fun _ _ => rfl) (hK.lineWritten (hs p c hc))
  | @size c conn x data hc htype hconn hrequest hreq hbuf =>
      obtain ⟨hended, hholders⟩ := hlinked.holders_eq hc hreq
      have hcounted := hs p c hc
      rw [hholders] at hcounted
      refine hs.replace hc rfl ?_ ?_
      · intro j hj
        simp [ServerState.wrote, Ne.symm hj]
      · have hmore : ServerState.holders p { c with req := c.req.bufWritten }
            (s.wrote p c x c.req.bufWritten (s.refs ++ [p]) (data.take c.req.writeSize)
              (decide (c.req.replySize ≤ uint64OfInt c.req.bufWritten.currentOfs))) =
            s.refs.count p + 2 := by
          simp only [ServerState.holders, ServerState.wrote, hended, if_true, List.count_append,
            List.count_singleton_self]
          omega
        rw [hmore]
        exact hK.bufWritten (hroom c hc htype) hcounted

theorem ServerState.Cells.ends (hs : s.Cells K) (hK : CellInvariant Room K)
    (hlinked : Linked s) {conn : EvhtpConnection} {x : EvhtpRequest} {heap : List Cell} {stale : ℕ}
    (hconn : s.conn = some conn) (hrequest : conn.request = some x) (h : Ends x s heap stale)
    (hheap : s'.heap = heap) (hrefs : s'.refs = s.refs) : s'.Cells K := by
  cases h with
  | unhooked =>
      intro j d hd
      rw [hheap] at hd
      rw [ServerState.holders, hrefs]
      exact hs j d hd
  | @hooked p c hhooks hc =>
      have hcurrent := current_eq hconn hrequest
      rw [hhooks] at hcurrent
      obtain ⟨c₀, hc₀, hreq⟩ := hlinked.hooked hcurrent
      cases hc.symm.trans hc₀
      obtain ⟨hended, hholders⟩ := hlinked.holders_eq hc hreq
      have hcounted := hs p c hc
      rw [hholders] at hcounted
      refine hs.replace hc hheap (fun _ _ => by rw [hrefs]) ?_
      have hless : s'.holders p c.endReq.drop = s.refs.count p := by
        rw [ServerState.holders, Cell.drop_ended, hrefs]
        simp [Cell.endReq]
      rw [hless]
      exact hK.drop (hK.endReq hcounted)

theorem ServerStep.cells {e : ServerEvent} (h : ServerStep e s s') (hK : CellInvariant Room K)
    (hlinked : Linked s) (hs : s.Cells K)
    (hroom : e = .onWrite → ∀ conn p c, s.conn = some conn → conn.onWrite = some p →
      s.heap[p]? = some c → c.req.reqType = .size → Room (s.refs.count p)) : s'.Cells K := by
  cases h with
  | refused => exact hs
  | untyped _ _ _ hr => exact hs.started hK hlinked hr _ _
  | typed _ hconn hidle hr _ hwrites =>
      have hstarted := hlinked.started (current_eq_none hconn hidle) hr.req false .chunkStart
      refine (hs.started hK hlinked hr _ _).writes hK hstarted ?_ hwrites
      intro c _ _
      have hnone : s.refs.count s.heap.length = 0 :=
        List.count_eq_zero.mpr fun hmem => Nat.lt_irrefl _ (hlinked.held hmem)
      rw [ServerState.started, hnone]
      exact hK.room
  | @wrote _ _ conn x p hconn _ hhook hwrites =>
      have huse : (s.use p).Cells K := by
        rw [use_eq]
        exact hs
      refine huse.writes hK (hlinked.use p) ?_ hwrites
      intro c hc htype
      rw [use_heap] at hc
      rw [use_refs]
      exact hroom rfl conn p c hconn hhook hc htype
  | wroteNothing =>
      rw [use_eq]
      exact hs
  | @released _ p c hp hc =>
      have hpos : 0 < s.refs.count p := List.count_pos_iff.mpr hp
      refine hs.replace hc rfl ?_ ?_
      · intro j hj
        exact List.count_erase_of_ne hj
      · have hholders : s.holders p c =
            ServerState.holders p c.drop
              { s with refs := s.refs.erase p, heap := s.heap.set p c.drop } + 1 := by
          simp only [ServerState.holders, Cell.drop_ended, List.count_erase_self]
          omega
        have hcounted := hs p c hc
        rw [hholders] at hcounted
        exact hK.drop hcounted
  | error hconn hrequest hends => exact hs.ends hK hlinked hconn hrequest hends rfl rfl
  | requestDone hconn hrequest _ hends => exact hs.ends hK hlinked hconn hrequest hends rfl rfl
  | close hconn hrequest hends => exact hs.ends hK hlinked hconn hrequest hends rfl rfl
  | closeIdle => exact hs

/-- What an exact count asks of a write. -/
theorem fewChunks_of_exact (hlinked : Linked s) {e : ServerEvent}
    (hstep : serverStep e s = some s') (hs' : RefcountExact s') : FewChunks [] e s := by
  rintro rfl conn p c hconn hhook hc htype
  obtain ⟨conn', x, p', hconn', -, hhook', hwrites⟩ := (serverStep_spec hstep).onWrite_cases
  cases hconn.symm.trans hconn'
  cases hhook.symm.trans hhook'
  rcases hwrites with hwrites | ⟨c', hc', htype', -⟩
  · rw [use_eq] at hwrites
    cases hwrites with
    | line hc' htype' =>
        cases hc.symm.trans hc'
        rw [htype] at htype'
        cases htype'
    | @size c' conn' x data hc' _ _ _ hreq =>
        cases hc.symm.trans hc'
        obtain ⟨hended, -⟩ := hlinked.holders_eq hc hreq
        obtain ⟨hlt, -⟩ := List.getElem?_eq_some_iff.mp hc
        obtain ⟨hcount, -⟩ := hs' p _ (List.getElem?_set_self hlt)
        have hbound := isInt32_iff.mp (isInt32_int32 (c.req.refcnt + 1))
        simp only [Req.bufWritten, ServerState.holders, ServerState.wrote, hended, if_true,
          List.count_append, List.count_singleton_self] at hcount
        omega
  · cases hc.symm.trans hc'
    rw [htype] at htype'
    cases htype'

end Steps

/-! ## Runs -/

section Run

variable {es : List ServerEvent} {s s' : ServerState}

theorem wraps_of_run (h : serverSystem.run es = some s) : s.Cells Cell.Wraps := by
  refine serverSystem.run_induction (P := fun _ s => s.Cells Cell.Wraps) ?_ ?_ es s h
  · intro p c hc
    cases hc
  · intro pre e t t' hpre ht hstep
    exact (serverStep_spec hstep).cells cellInvariant_wraps (linked_of_run hpre) ht
      fun _ _ _ _ _ _ _ _ => trivial

theorem refcountExact_of_counted (hs : s.Cells Cell.Counted) : RefcountExact s := fun p c hc =>
  ⟨(hs p c hc).refcnt, (hs p c hc).freed, (hs p c hc).bufFreed⟩

/-- A chunk that is written is still to be released. -/
theorem Due.onWrite_refs {s₀ : ServerState} {n k : ℕ} (h : Due s₀ n k s)
    (hstep : serverStep .onWrite s = some s') : s'.refs = s.refs ++ [s₀.heap.length] := by
  obtain ⟨c₀, hc₀, hreq⟩ := h.cell
  have hwrites := h.writes_of_onWrite hstep
  rw [use_eq] at hwrites
  cases hwrites with
  | line hc htype =>
      cases hc₀.symm.trans hc
      rw [hreq.reqType] at htype
      cases htype
  | size => rfl

theorem exists_writes {v : String} {n : ℕ} (junk : Req) (hv : strtoull v.toList = n)
    (hn : n ≠ ullongMax) (k : ℕ) (hk : reqBufSize * k < n) :
    ∃ s, serverSystem.run (.size (some v) true true junk :: List.replicate k .onWrite) = some s ∧
      Replying ServerState.start n (k + 1) s ∧ s.refs = List.replicate (k + 1) 0 := by
  induction k with
  | zero =>
      obtain ⟨s, hs⟩ := exists_size (s := ServerState.start) junk hv hn rfl rfl
      have hwrites : serverStep (.size (some v) true true junk) ServerState.start = _ :=
        serverStep_size hv hn rfl rfl
      rw [hs] at hwrites
      refine ⟨s, ?_, replying_of_size hv hn hs, ?_⟩
      · simp [System.run, System.runFrom, serverSystem, hs]
      · cases reqWriteBuf_spec (started_getElem? _ _ _ _) rfl hwrites.symm with
        | line hc htype =>
            cases (started_getElem? _ _ _ _).symm.trans hc
            cases htype
        | size => rfl
  | succ k ih =>
      obtain ⟨s, hs, hreply, hrefs⟩ := ih ((Nat.mul_le_mul_left _ (Nat.le_succ k)).trans_lt hk)
      have hdue := hreply.due (not_le.mpr hk)
      obtain ⟨s', hs'⟩ := hdue.exists_onWrite
      refine ⟨s', ?_, (hreply.onWrite (lt_of_strtoull hv) hs').2, ?_⟩
      · rw [List.replicate_succ', ← List.cons_append]
        exact serverSystem.run_concat_eq_some.mpr ⟨s, hs, hs'⟩
      · rw [hdue.onWrite_refs hs', hrefs]
        exact (List.replicate_succ' (a := 0)).symm

/-- With `2^31 - 1` chunks to be released the next chunk is one too many. -/
theorem exists_overflow {v : String} {n : ℕ} (junk : Req) (hv : strtoull v.toList = n)
    (hn : n ≠ ullongMax) {k : ℕ} (hk : reqBufSize * (k + 1) < n) (hmany : 2 ^ 31 - 2 ≤ k + 1) :
    ∃ s, serverSystem.run (.size (some v) true true junk :: List.replicate (k + 1) .onWrite) =
      some s ∧ ¬ RefcountExact s := by
  have hk' : reqBufSize * k < n := (Nat.mul_le_mul_left _ (Nat.le_succ k)).trans_lt hk
  obtain ⟨s, hs, hreply, hrefs⟩ := exists_writes junk hv hn k hk'
  have hdue := hreply.due (not_le.mpr hk)
  obtain ⟨s', hs'⟩ := hdue.exists_onWrite
  refine ⟨s', ?_, ?_⟩
  · rw [List.replicate_succ', ← List.cons_append]
    exact serverSystem.run_concat_eq_some.mpr ⟨s, hs, hs'⟩
  · intro hexact
    obtain ⟨c, hc, hreq⟩ := hdue.cell
    have hfew := fewChunks_of_exact (linked_of_run hs) hs' hexact rfl _ _ c hdue.conn rfl hc
      hreq.reqType
    rw [hrefs, ServerState.start, List.length_nil, List.count_replicate_self] at hfew
    exact Nat.not_le.mpr hfew hmany

/-- In every run the reference counts are exact, and the memory of every request
is freed once, when the last reference goes, if and only if no part of a buffer
is written while almost `2^31` parts of it are still to be released. -/
theorem refcount_exact_iff (h : serverSystem.run es = some s) :
    serverSystem.Throughout RefcountExact es ↔ serverSystem.Guarded FewChunks es := by
  constructor
  · intro hexact
    refine serverSystem.guarded_of_throughout ?_ h hexact
    intro pre e t t' hpre _ hstep ht'
    exact fewChunks_of_exact (linked_of_run hpre) hstep ht'
  · intro hfew
    have hcounted : serverSystem.Throughout (ServerState.Cells Cell.Counted) es := by
      refine serverSystem.throughout_of_guarded ?_ ?_ hfew
      · intro p c hc
        cases hc
      · intro pre e t t' hpre hguard ht hstep
        exact (serverStep_spec hstep).cells cellInvariant_counted (linked_of_run hpre) ht hguard
    intro pre t hpre ht
    exact refcountExact_of_counted (hcounted pre t hpre ht)

/-- The counts of a reply that takes two chunks: they are exact although none of the
chunks is released yet. -/
theorem refcount_exact_two_chunks :
    ∃ s, serverSystem.run
        [.size (some "65537") true true Req.zero, .onWrite] = some s ∧ s.refs = [0, 0] ∧
      serverSystem.Guarded FewChunks [.size (some "65537") true true Req.zero, .onWrite] ∧
      serverSystem.Throughout RefcountExact
        [.size (some "65537") true true Req.zero, .onWrite] := by
  have hv : strtoull "65537".toList = 65537 := by decide
  obtain ⟨s₁, hs₁, -, hrefs₁⟩ := exists_writes Req.zero hv (by decide) 0 (by decide)
  obtain ⟨s, hs, -, hrefs⟩ := exists_writes Req.zero hv (by decide) 1 (by decide)
  have hfirst : serverSystem.Guarded FewChunks [.size (some "65537") true true Req.zero] :=
    System.Guarded.concat _ (serverSystem.guarded_nil _) fun _ _ hwrite => nomatch hwrite
  have hfew : serverSystem.Guarded FewChunks
      [.size (some "65537") true true Req.zero, .onWrite] := by
    refine System.Guarded.concat _ hfirst fun t ht _ conn p c _ _ _ _ => ?_
    obtain rfl : s₁ = t := Option.some.inj (hs₁.symm.trans ht)
    have hone : s₁.refs.count p ≤ 1 := by
      rw [hrefs₁]
      exact List.count_le_length
    omega
  exact ⟨s, hs, hrefs, hfew, (refcount_exact_iff hs).mpr hfew⟩

/-- A reply of almost `2^64` bytes whose chunks are not released. -/
theorem refcount_overflows :
    ∃ s, serverSystem.run (.size (some "18446744073709551614") true true Req.zero ::
        List.replicate 2147483646 .onWrite) = some s ∧ ¬ RefcountExact s := by
  have hv : strtoull "18446744073709551614".toList = 18446744073709551614 := by decide
  exact exists_overflow (k := 2147483645) Req.zero hv (by decide) (by decide) (by decide)

end Run

end EvhtpHttp.Server

import EvhtpHttp.Server.ResponseSpec
import EvhtpHttp.Support.Repetition

/-!
# The body of a sized reply

Every write callback hands over the next part of the buffer from its beginning,
so the body is a repetition of the buffer because all parts but the last are the
whole buffer.
-/

namespace EvhtpHttp.Server

open EvhtpHttp.Support

/-! ## The buffer -/

theorem length_reqFill (n i j : ℕ) : (reqFill n i j).length = n := by
  induction n generalizing i j with
  | zero => rfl
  | succ n ih =>
      unfold reqFill
      split
      · rw [List.length_cons, ih]
      · rw [List.length_cons, ih]

/-- The loop writes a newline at every multiple of 41. -/
theorem reqFill_newline {n i j t : ℕ} (ht : t < n) (hmod : (i + t) % 41 = 0) :
    (reqFill n i j)[t]? = some newline := by
  induction n generalizing i j t with
  | zero => exact absurd ht (Nat.not_lt_zero t)
  | succ n ih =>
      cases t with
      | zero =>
          rw [Nat.add_zero] at hmod
          simp [reqFill, hmod]
      | succ t =>
          have hnext : (i + 1 + t) % 41 = 0 := by
            rw [Nat.add_assoc, Nat.add_comm 1 t]
            exact hmod
          have htail := fun k => ih (j := k) (Nat.lt_of_succ_lt_succ ht) hnext
          unfold reqFill
          split
          · rw [List.getElem?_cons_succ, htail]
          · rw [List.getElem?_cons_succ, htail]

theorem length_reqBuf : reqBuf.length = reqBufSize := by
  rw [reqBuf, List.length_append, length_reqFill, List.length_singleton]
  rfl

theorem reqBuf_last : reqBuf[reqBuf.length - 1]? = some newline := by
  have hlength : reqBuf.length - 1 = (reqFill (reqBufSize - 1) 0 0).length := by
    rw [length_reqBuf, length_reqFill]
  rw [hlength, reqBuf, List.getElem?_concat_length]

/-- Any 41 consecutive bytes of the buffer contain a newline: one at a multiple of
41, or the last byte of the buffer. -/
theorem reqBuf_window (i : ℕ) (hi : i + 41 ≤ reqBuf.length) :
    ∃ j < 41, reqBuf[i + j]? = some newline := by
  rw [length_reqBuf] at hi
  have hfill : (reqFill (reqBufSize - 1) 0 0).length = reqBufSize - 1 := length_reqFill _ _ _
  refine ⟨(41 - i % 41) % 41, Nat.mod_lt _ (by decide), ?_⟩
  by_cases hlast : i + (41 - i % 41) % 41 < reqBufSize - 1
  · rw [reqBuf, List.getElem?_append_left (by rw [hfill]; exact hlast)]
    apply reqFill_newline hlast
    omega
  · have hend : i + (41 - i % 41) % 41 = reqBuf.length - 1 := by
      rw [length_reqBuf]
      omega
    rw [hend]
    exact reqBuf_last

/-! ## The chunks -/

/-- The first `k` chunks of a reply of `n` bytes. -/
def replyChunks (n k : ℕ) : List (List UInt8) :=
  (List.range k).map fun i => reqBuf.take (n - reqBufSize * i)

/-- What libevhtp has been handed after `k` chunks of a reply of `n` bytes. -/
def replies (n k : ℕ) : List Reply :=
  .chunkStart :: ((replyChunks n k).map .chunk ++
    if n ≤ reqBufSize * k then [.chunkEnd] else [])

theorem replyChunks_succ (n k : ℕ) :
    replyChunks n (k + 1) = replyChunks n k ++ [reqBuf.take (n - reqBufSize * k)] := by
  simp [replyChunks, List.range_succ]

theorem flatten_replyChunks (n k : ℕ) :
    (replyChunks n k).flatten = repetition reqBuf (min n (reqBufSize * k)) := by
  have hflatten := flatten_initial_parts reqBuf n k
  rw [length_reqBuf] at hflatten
  exact hflatten

theorem replyChunks_newline {n k : ℕ} {pre w post : List UInt8}
    (hsplit : (replyChunks n k).flatten = pre ++ w ++ post) (hw : w.length = 41) :
    newline ∈ w := by
  rw [flatten_replyChunks] at hsplit
  exact mem_of_window reqBuf_window reqBuf_last hsplit hw

/-! ## Writing a chunk -/

/-- The `struct req` of a reply of `n` bytes after its first `ofs` bytes. -/
structure SizedReq (n ofs : ℕ) (q : EvhtpPtr) (r : Req) : Prop where
  reqType : r.reqType = .size
  req : r.req = some q
  replySize : r.replySize = n
  currentOfs : r.currentOfs = int64 ofs
  buf : r.buf = some reqBuf
  bufSize : r.bufSize = reqBufSize

section Chunk

variable {n ofs : ℕ} {q : EvhtpPtr} {r : Req}

theorem SizedReq.writeSize (h : SizedReq n ofs q r) (hle : ofs ≤ n) (hn : n < 2 ^ 64) :
    r.writeSize = min (n - ofs) reqBufSize := by
  rw [Req.writeSize, h.replySize, h.currentOfs, h.bufSize,
    uint64OfInt_int64 (hle.trans_lt hn), uint64Sub_of_le hle hn]
  split
  · rename_i hlarge
    rw [min_eq_right (le_of_lt hlarge)]
  · rename_i hsmall
    rw [min_eq_left (not_lt.mp hsmall)]

theorem SizedReq.bufWritten (h : SizedReq n ofs q r) (hle : ofs ≤ n) (hn : n < 2 ^ 64) :
    SizedReq n (min n (ofs + reqBufSize)) q r.bufWritten := by
  have hofs : r.bufWritten.currentOfs = int64 (min n (ofs + reqBufSize) : ℕ) := by
    have hsum : ofs + min (n - ofs) reqBufSize = min n (ofs + reqBufSize) := by omega
    rw [Req.bufWritten, h.writeSize hle hn, h.currentOfs, ← hsum]
    unfold int64
    rw [Int.bmod_add_bmod, Nat.cast_add]
  exact ⟨h.reqType, h.req, h.replySize, hofs, h.buf, h.bufSize⟩

end Chunk

/-- The reply of `n` bytes that was begun in the state `s₀` has got to `k` chunks. -/
structure Replying (s₀ : ServerState) (n k : ℕ) (s : ServerState) : Prop where
  more : ∀ i < k, i = 0 ∨ reqBufSize * i < n
  cell : ∃ c, s.heap[s₀.heap.length]? = some c ∧
    SizedReq n (min n (reqBufSize * k)) s₀.nextId c.req
  conn : s.conn = some ⟨if n ≤ reqBufSize * k then none else some s₀.heap.length,
    some ⟨s₀.nextId, some s₀.heap.length, decide (n ≤ reqBufSize * k)⟩⟩
  sent : s.sent = s₀.sent ++ (replies n k).map fun reply => (s₀.nextId, reply)

/-- Another chunk of the reply is due. -/
structure Due (s₀ : ServerState) (n k : ℕ) (s : ServerState) : Prop where
  le : reqBufSize * k ≤ n
  more : ∀ i < k + 1, i = 0 ∨ reqBufSize * i < n
  cell : ∃ c, s.heap[s₀.heap.length]? = some c ∧ SizedReq n (reqBufSize * k) s₀.nextId c.req
  conn : s.conn = some ⟨some s₀.heap.length, some ⟨s₀.nextId, some s₀.heap.length, false⟩⟩
  sent : s.sent = s₀.sent ++ (Reply.chunkStart :: (replyChunks n k).map .chunk).map
    fun reply => (s₀.nextId, reply)

section Reply

variable {s₀ s s' : ServerState} {n k : ℕ}

theorem Replying.due (h : Replying s₀ n k s) (hmore : ¬ n ≤ reqBufSize * k) :
    Due s₀ n k s := by
  have hlt : reqBufSize * k < n := not_le.mp hmore
  have hcell := h.cell
  have hconn := h.conn
  have hsent := h.sent
  rw [min_eq_right hlt.le] at hcell
  rw [if_neg hmore, decide_eq_false hmore] at hconn
  rw [replies, if_neg hmore, List.append_nil] at hsent
  refine ⟨hlt.le, ?_, hcell, hconn, hsent⟩
  intro i hi
  rcases Nat.lt_succ_iff_lt_or_eq.mp hi with hlt' | rfl
  · exact h.more i hlt'
  · exact Or.inr hlt

/-- The next chunk is the next part of the buffer, and the reply ends with the
chunk that reaches its size. -/
theorem Due.writes (h : Due s₀ n k s) (hn : n < 2 ^ 64) (hw : Writes s₀.heap.length s s') :
    Replying s₀ n (k + 1) s' := by
  obtain ⟨c₀, hc₀, hreq⟩ := h.cell
  cases hw with
  | line hc htype =>
      cases hc₀.symm.trans hc
      rw [hreq.reqType] at htype
      cases htype
  | @size c conn x data hc htype hconn hrequest hid hbuf =>
      cases hc₀.symm.trans hc
      cases h.conn.symm.trans hconn
      cases hrequest
      cases hreq.buf.symm.trans hbuf
      have hwritten := hreq.bufWritten h.le hn
      rw [← Nat.mul_succ] at hwritten
      have hlast : c₀.req.replySize ≤ uint64OfInt c₀.req.bufWritten.currentOfs ↔
          n ≤ reqBufSize * (k + 1) := by
        rw [hreq.replySize, hwritten.currentOfs,
          uint64OfInt_int64 ((min_le_left _ _).trans_lt hn), le_min_iff]
        exact ⟨fun hle => hle.2, fun hle => ⟨le_refl n, hle⟩⟩
      have hdata : reqBuf.take c₀.req.writeSize = reqBuf.take (n - reqBufSize * k) := by
        rw [hreq.writeSize h.le hn, ← length_reqBuf, ← List.take_eq_take_min]
      obtain ⟨hlt, -⟩ := List.getElem?_eq_some_iff.mp hc
      have hdecide : decide (c₀.req.replySize ≤ uint64OfInt c₀.req.bufWritten.currentOfs) =
          decide (n ≤ reqBufSize * (k + 1)) := decide_eq_decide.mpr hlast
      rw [hdecide, hdata]
      refine ⟨h.more, ⟨_, List.getElem?_set_self hlt, hwritten⟩, ?_, ?_⟩
      · by_cases hend : n ≤ reqBufSize * (k + 1)
        · simp [ServerState.wrote, hend]
        · simp [ServerState.wrote, hend, h.conn]
      · simp only [ServerState.wrote, h.sent, replies, replyChunks_succ]
        by_cases hend : n ≤ reqBufSize * (k + 1)
        · simp [chunkReplies, hend]
        · simp [chunkReplies, hend]

theorem Due.exists_write (h : Due s₀ n k s) : ∃ s', reqWriteBuf s₀.heap.length s = some s' := by
  obtain ⟨c, hc, hreq⟩ := h.cell
  have hin : ∀ onWrite heap refs sent, ServerState.inProgress s₀.nextId { s with
      conn := some ⟨onWrite, some ⟨s₀.nextId, some s₀.heap.length, false⟩⟩
      heap := heap
      refs := refs
      sent := sent } =
      some (⟨onWrite, some ⟨s₀.nextId, some s₀.heap.length, false⟩⟩,
        ⟨s₀.nextId, some s₀.heap.length, false⟩) :=
    fun _ _ _ _ => inProgress_eq_some.mpr ⟨rfl, rfl, rfl⟩
  simp only [reqWriteBuf, hc, hreq.buf, hreq.req, evhtpSendReplyChunk, h.conn, hin,
    ServerState.setCell, evhtpUnsetOnWrite, evhtpSendReplyChunkEnd, Option.bind_eq_bind,
    Option.bind_some, Option.pure_def]
  split
  · exact ⟨_, rfl⟩
  · exact ⟨_, rfl⟩

theorem Due.writes_of_onWrite (h : Due s₀ n k s) (hstep : serverStep .onWrite s = some s') :
    Writes s₀.heap.length (s.use s₀.heap.length) s' := by
  obtain ⟨conn, x, p, hconn, -, hhook, hwrites | ⟨c, hc, htype, -⟩⟩ :=
    (serverStep_spec hstep).onWrite_cases
  · cases h.conn.symm.trans hconn
    cases hhook
    exact hwrites
  · cases h.conn.symm.trans hconn
    cases hhook
    obtain ⟨c₀, hc₀, hreq⟩ := h.cell
    cases hc.symm.trans hc₀
    rw [hreq.reqType] at htype
    cases htype

theorem Due.use (h : Due s₀ n k s) (p : ReqPtr) : Due s₀ n k (s.use p) := by
  rw [use_eq]
  exact ⟨h.le, h.more, h.cell, h.conn, h.sent⟩

theorem Replying.onWrite (h : Replying s₀ n k s) (hn : n < 2 ^ 64)
    (hstep : serverStep .onWrite s = some s') :
    ¬ n ≤ reqBufSize * k ∧ Replying s₀ n (k + 1) s' := by
  have hmore : ¬ n ≤ reqBufSize * k := by
    intro hend
    have hconn := h.conn
    rw [if_pos hend] at hconn
    simp [serverStep, deliverOnWrite, hconn] at hstep
  have hdue := h.due hmore
  exact ⟨hmore, (hdue.use _).writes hn (hdue.writes_of_onWrite hstep)⟩

theorem Due.exists_onWrite (h : Due s₀ n k s) : ∃ s', serverStep .onWrite s = some s' := by
  have huse := h.use s₀.heap.length
  obtain ⟨c, hc, hreq⟩ := huse.cell
  obtain ⟨s', hs'⟩ := huse.exists_write
  rw [use_heap] at hc
  refine ⟨s', ?_⟩
  simp [serverStep, deliverOnWrite, sendUpstreamOnWrite, h.conn, hc, hreq.reqType, hs']

theorem Replying.release (h : Replying s₀ n k s) {p : ReqPtr}
    (hstep : serverStep (.release p) s = some s') : Replying s₀ n k s' := by
  obtain ⟨-, c, hc, rfl⟩ := (serverStep_spec hstep).release_cases
  obtain ⟨c₀, hc₀, hreq⟩ := h.cell
  refine ⟨h.more, ?_, h.conn, h.sent⟩
  obtain ⟨hlt, -⟩ := List.getElem?_eq_some_iff.mp hc
  by_cases hown : p = s₀.heap.length
  · subst hown
    cases hc₀.symm.trans hc
    refine ⟨_, List.getElem?_set_self hlt, ?_⟩
    rw [Cell.drop_req]
    exact ⟨hreq.reqType, hreq.req, hreq.replySize, hreq.currentOfs, hreq.buf, hreq.bufSize⟩
  · exact ⟨c₀, (List.getElem?_set_ne hown).trans hc₀, hreq⟩

end Reply

/-! ## A whole reply -/

section Run

variable {s s' : ServerState} {v : String} {junk : Req} {n : ℕ}

/-- The `struct req` that `sizecb` makes for a reply of `n` bytes. -/
def sizedReq (junk : Req) (q : EvhtpPtr) (n : ℕ) : Req :=
  { junk with
    req := some q
    refcnt := 1
    buf := some reqBuf
    bufSize := reqBufSize
    reqType := .size
    replySize := n
    currentOfs := 0 }

theorem due_started (s : ServerState) (junk : Req) (n : ℕ) :
    Due s n 0 (s.started (sizedReq junk s.nextId n) false .chunkStart) where
  le := Nat.zero_le n
  more _ hi := Or.inl (Nat.lt_one_iff.mp hi)
  cell := ⟨_, started_getElem? _ _ _ _, rfl, rfl, rfl, rfl, rfl, rfl⟩
  conn := rfl
  sent := rfl

theorem serverStep_size (hv : strtoull v.toList = n) (hn : n ≠ ullongMax)
    {conn : EvhtpConnection} (hconn : s.conn = some conn) (hidle : conn.request = none) :
    serverStep (.size (some v) true true junk) s =
      reqWriteBuf s.heap.length (s.started (sizedReq junk s.nextId n) false .chunkStart) := by
  have hstart : serverStep (.size (some v) true true junk) s =
      sizecb (some v) true true junk s.nextId (s.newRequest conn) := by
    simp [serverStep, evhtpRequestNew, hconn, hidle, ServerState.newRequest]
  rw [hstart]
  simp only [sizecb, hv, if_neg hn]
  exact reqStartResponse_eq rfl

theorem exists_size (junk : Req) (hv : strtoull v.toList = n) (hn : n ≠ ullongMax)
    {conn : EvhtpConnection} (hconn : s.conn = some conn) (hidle : conn.request = none) :
    ∃ s', serverStep (.size (some v) true true junk) s = some s' := by
  rw [serverStep_size hv hn hconn hidle]
  exact (due_started s junk n).exists_write

theorem lt_of_strtoull (hv : strtoull v.toList = n) : n < 2 ^ 64 := by
  have hle := strtoull_le v.toList
  rw [hv] at hle
  exact Nat.lt_of_le_pred (by decide) hle

theorem replying_of_size (hv : strtoull v.toList = n) (hn : n ≠ ullongMax)
    (h : serverStep (.size (some v) true true junk) s = some s') : Replying s n 1 s' := by
  obtain ⟨s₁, hs₁, -⟩ := Option.bind_eq_some_iff.mp h
  obtain ⟨conn, hconn, hidle, -⟩ := evhtpRequestNew_eq_some hs₁
  rw [serverStep_size hv hn hconn hidle] at h
  have hwrites := reqWriteBuf_spec (started_getElem? _ _ _ _) rfl h
  exact (due_started s junk n).writes (lt_of_strtoull hv) hwrites

theorem Replying.run {s₀ : ServerState} {k : ℕ} (hn : n < 2 ^ 64) {es : List ServerEvent}
    (hes : ∀ e ∈ es, e = .onWrite ∨ ∃ p, e = .release p) (hs : Replying s₀ n k s)
    (h : serverSystem.runFrom es s = some s') :
    Replying s₀ n (k + es.count .onWrite) s' := by
  induction es generalizing s k with
  | nil =>
      cases h
      exact hs
  | cons e es ih =>
      obtain ⟨s₁, hs₁, hrest⟩ := Option.bind_eq_some_iff.mp h
      have htail := fun e he => hes e (List.mem_cons_of_mem _ he)
      rcases hes e List.mem_cons_self with rfl | ⟨p, rfl⟩
      · have hnext := ih htail (hs.onWrite hn hs₁).2 hrest
        rw [List.count_cons_self, ← Nat.add_assoc, Nat.add_right_comm]
        exact hnext
      · rw [List.count_cons_of_ne (by simp)]
        exact ih htail (hs.release hs₁) hrest

/-- A reply of `n` bytes after any number of write callbacks, with chunks released
in between.  The chunks so far are the first bytes of the repetition of the
buffer, none is empty or longer than the buffer, and the offset is never beyond
the size.  The reply ends with the chunk that reaches its size: then the hook is
removed and no callback comes any more, and before that the next one is handled.
Any 41 consecutive bytes contain a newline. -/
theorem size_body {es : List ServerEvent} (hv : strtoull v.toList = n) (hn : n ≠ ullongMax)
    (hes : ∀ e ∈ es, e = .onWrite ∨ ∃ p, e = .release p)
    (h : serverSystem.runFrom (.size (some v) true true junk :: es) s = some s') :
    ∃ chunks : List (List UInt8),
      s'.sent = s.sent ++ (Reply.chunkStart :: (chunks.map .chunk ++
        if n ≤ reqBufSize * (es.count .onWrite + 1) then [.chunkEnd] else [])).map
          (fun reply => (s.nextId, reply)) ∧
      chunks.length = es.count .onWrite + 1 ∧
      chunks.flatten = repetition reqBuf (min n (reqBufSize * (es.count .onWrite + 1))) ∧
      (∀ chunk ∈ chunks, chunk.length ≤ reqBufSize ∧ (0 < n → chunk ≠ [])) ∧
      (∃ c, s'.heap[s.heap.length]? = some c ∧ c.req.replySize = n ∧
        uint64OfInt c.req.currentOfs ≤ n) ∧
      (n ≤ reqBufSize * (es.count .onWrite + 1) →
        (∃ conn, s'.conn = some conn ∧ conn.onWrite = none) ∧
          serverStep .onWrite s' = none) ∧
      (reqBufSize * (es.count .onWrite + 1) < n → ∃ s'', serverStep .onWrite s' = some s'') ∧
      ∀ pre w post, chunks.flatten = pre ++ w ++ post → w.length = 41 → newline ∈ w := by
  obtain ⟨s₁, hs₁, hrest⟩ := Option.bind_eq_some_iff.mp h
  have hlt := lt_of_strtoull hv
  have hreply := (replying_of_size hv hn hs₁).run hlt hes hrest
  rw [Nat.add_comm] at hreply
  refine ⟨replyChunks n (es.count .onWrite + 1), hreply.sent, ?_, flatten_replyChunks _ _, ?_,
    ?_, ?_, ?_, fun pre w post => replyChunks_newline⟩
  · rw [replyChunks, List.length_map, List.length_range]
  · intro chunk hchunk
    obtain ⟨i, hi, rfl⟩ := List.mem_map.mp hchunk
    constructor
    · rw [← length_reqBuf]
      exact List.length_take_le' _ _
    · intro hpos hempty
      have hlength := congrArg List.length hempty
      rw [List.length_take, length_reqBuf, List.length_nil] at hlength
      rcases hreply.more i (List.mem_range.mp hi) with rfl | hmore
      · simp only [reqBufSize] at hlength
        omega
      · simp only [reqBufSize] at hlength hmore
        omega
  · obtain ⟨c, hc, hreq⟩ := hreply.cell
    refine ⟨c, hc, hreq.replySize, ?_⟩
    rw [hreq.currentOfs, uint64OfInt_int64 ((min_le_left _ _).trans_lt hlt)]
    exact min_le_left _ _
  · intro hend
    have hconn := hreply.conn
    rw [if_pos hend] at hconn
    exact ⟨⟨_, hconn, rfl⟩, by simp [serverStep, deliverOnWrite, hconn]⟩
  · intro hmore
    exact (hreply.due (not_le.mpr hmore)).exists_onWrite

/-- A reply one byte longer than the buffer takes one write callback. -/
theorem size_body_two_chunks :
    ∃ s' chunks, serverSystem.runFrom
        [.size (some "65537") true true Req.zero, .onWrite] ServerState.start = some s' ∧
      s'.sent = (Reply.chunkStart :: (List.map Reply.chunk chunks ++ [.chunkEnd])).map
        (fun reply => (0, reply)) ∧
      chunks.flatten = repetition reqBuf 65537 := by
  have hv : strtoull "65537".toList = 65537 := by decide
  obtain ⟨s₁, hs₁⟩ := exists_size (s := ServerState.start) Req.zero hv (by decide)
    rfl rfl
  have hreply := replying_of_size hv (by decide) hs₁
  obtain ⟨s', hs'⟩ := (hreply.due (by decide)).exists_onWrite
  have hrun : serverSystem.runFrom [.size (some "65537") true true Req.zero, .onWrite]
      ServerState.start = some s' := by
    simp [System.runFrom, serverSystem, hs₁, hs']
  obtain ⟨chunks, hsent, -, hflatten, -⟩ := size_body hv (by decide) (by simp) hrun
  exact ⟨s', chunks, hrun, hsent, hflatten⟩

end Run

end EvhtpHttp.Server

import EvhtpHttp.Server.Body
import EvhtpHttp.Server.Hooks

/-!
# The replies of a connection

All that a connection is sent, judged against what its requests are to be answered
with.  The requests of a keep-alive connection are answered one after the other, so
that only the answer to the last one can be incomplete.  Every chunk gets its evbuffer
and its reference to the bytes, and memory that was freed keeps what it held.
-/

namespace EvhtpHttp.Server

open EvhtpHttp.Support

/-! ## What is asked for -/

/-- What a request is to be answered with: by libevhtp itself, by an error, by lines
or by a body of `n` bytes. -/
inductive Asked
  | other
  | refused
  | line
  | size (n : ℕ)
deriving Repr, DecidableEq

/-- What the request that an event begins is to be answered with: an error, and so no
body, if its size is missing or is none, or if `calloc` or `malloc` had no memory for
it. -/
def ServerEvent.asked : ServerEvent → Option Asked
  | .line createOk _ => some (if createOk then .line else .refused)
  | .size none _ _ _ => some .refused
  | .size (some v) createOk bufOk _ =>
    some (if strtoull v.toList ≠ ullongMax ∧ createOk ∧ bufOk then .size (strtoull v.toList)
      else .refused)
  | .other => some .other
  | _ => none

/-- The number of chunks of a body of `n` bytes; an empty body has one chunk. -/
def chunkCount (n : ℕ) : ℕ :=
  max 1 ((n + reqBufSize - 1) / reqBufSize)

namespace Asked

/-- The chunks of the whole answer. -/
def chunks : Asked → List (List UInt8)
  | .other => []
  | .refused => []
  | .line => List.replicate 16 replyLine
  | .size n => replyChunks n (chunkCount n)

/-- The chunked answer up to its chunk `k`. -/
def said (a : Asked) (k : ℕ) : List Reply :=
  .chunkStart :: (a.chunks.take k).map .chunk

def answer : Asked → List Reply
  | .other => []
  | .refused => [.error]
  | .line => said .line 16 ++ [.chunkEnd]
  | .size n => said (.size n) (chunkCount n) ++ [.chunkEnd]

def body : Asked → List UInt8
  | .other => []
  | .refused => []
  | .line => (List.replicate 16 replyLine).flatten
  | .size n => repetition reqBuf n

end Asked

/-- What a connection is sent whose requests asked for `asked`, all of them answered
completely. -/
def transcript (asked : List Asked) : List (EvhtpPtr × Reply) :=
  asked.zipIdx.flatMap fun x => x.1.answer.map fun reply => (x.2, reply)

theorem transcript_concat (asked : List Asked) (a : Asked) :
    transcript (asked ++ [a]) =
      transcript asked ++ a.answer.map fun reply => (asked.length, reply) := by
  simp [transcript, List.zipIdx_append]

/-! ## Chunks -/

theorem chunkCount_pos (n : ℕ) : 0 < chunkCount n :=
  lt_of_lt_of_le Nat.one_pos (le_max_left _ _)

/-- A chunk is the last one when it reaches the end of the body. -/
theorem chunkCount_le_iff {n k : ℕ} : chunkCount n ≤ k + 1 ↔ n ≤ reqBufSize * (k + 1) := by
  have hsize : 0 < reqBufSize := by decide
  rw [chunkCount, max_le_iff, Nat.div_le_iff_le_mul hsize]
  constructor
  · rintro ⟨-, hle⟩
    rw [Nat.mul_comm]
    omega
  · intro hle
    rw [Nat.mul_comm] at hle
    exact ⟨Nat.le_add_left 1 k, by omega⟩

/-- The body is not yet complete before a chunk that is still to come. -/
theorem mul_le_of_lt_chunkCount {n k : ℕ} (hk : k < chunkCount n) : reqBufSize * k ≤ n := by
  cases k with
  | zero => exact Nat.zero_le n
  | succ k =>
      by_contra hlt
      exact absurd (chunkCount_le_iff.mpr (not_le.mp hlt).le) (not_le.mpr hk)

theorem length_replyChunks (n k : ℕ) : (replyChunks n k).length = k := by
  rw [replyChunks, List.length_map, List.length_range]

theorem replyChunks_getElem? {n m k : ℕ} (hk : k < m) :
    (replyChunks n m)[k]? = some (reqBuf.take (n - reqBufSize * k)) := by
  simp [replyChunks, hk]

namespace Asked

theorem flatten_chunks (a : Asked) : a.chunks.flatten = a.body := by
  cases a with
  | other => rfl
  | refused => rfl
  | line => rfl
  | size n =>
      obtain ⟨k, hk⟩ := Nat.exists_eq_succ_of_ne_zero (chunkCount_pos n).ne'
      have hle : n ≤ reqBufSize * chunkCount n := by
        rw [hk]
        exact chunkCount_le_iff.mp hk.le
      rw [chunks, flatten_replyChunks, min_eq_left hle, body]

theorem said_succ {a : Asked} {k : ℕ} {data : List UInt8} (hdata : a.chunks[k]? = some data) :
    a.said (k + 1) = a.said k ++ [.chunk data] := by
  simp [said, List.take_add_one, hdata]

/-- A chunked answer is complete after its last chunk and the end of the chunks. -/
theorem answer_of_chunks {a : Asked} (h : a.chunks ≠ []) :
    a.answer = a.said a.chunks.length ++ [.chunkEnd] := by
  cases a with
  | other => exact absurd rfl h
  | refused => exact absurd rfl h
  | line => rw [answer, chunks, List.length_replicate]
  | size n => rw [answer, chunks, length_replyChunks]

theorem said_prefix {a : Asked} {k : ℕ} (hk : k < a.chunks.length) : a.said k <+: a.answer := by
  rw [answer_of_chunks (List.ne_nil_of_length_pos (Nat.zero_lt_of_lt hk))]
  refine List.IsPrefix.trans ?_ (List.prefix_append _ _)
  have htake : a.chunks.take k <+: a.chunks.take a.chunks.length :=
    List.take_prefix_take_left hk.le
  rw [said, said, List.prefix_cons_inj]
  exact htake.map _

end Asked

def Reply.data : Reply → List UInt8
  | .chunk data => data
  | _ => []

/-- The body that the request `q` gets out of all that was sent. -/
def received (q : EvhtpPtr) (sent : List (EvhtpPtr × Reply)) : List UInt8 :=
  (sent.filter fun x => x.1 = q).flatMap fun x => x.2.data

theorem received_append (q : EvhtpPtr) (sent sent' : List (EvhtpPtr × Reply)) :
    received q (sent ++ sent') = received q sent ++ received q sent' := by
  rw [received, List.filter_append, List.flatMap_append, received, received]

theorem received_prefix {sent sent' : List (EvhtpPtr × Reply)} (h : sent <+: sent')
    (q : EvhtpPtr) : received q sent <+: received q sent' := by
  obtain ⟨rest, rfl⟩ := h
  rw [received_append]
  exact List.prefix_append _ _

theorem Asked.flatMap_answer (a : Asked) : a.answer.flatMap Reply.data = a.body := by
  have hsaid : ∀ k, (a.said k ++ [Reply.chunkEnd]).flatMap Reply.data =
        (a.chunks.take k).flatten := by
    intro k
    have hdata : Reply.data ∘ Reply.chunk = id := rfl
    rw [List.flatMap_def, said, List.map_append, List.map_cons, List.map_map, hdata, List.map_id]
    simp [Reply.data]
  by_cases hnone : a.chunks = []
  · rw [← flatten_chunks]
    cases a with
    | other => rfl
    | refused => rfl
    | line => cases hnone
    | size n =>
        have hpos := chunkCount_pos n
        rw [← length_replyChunks n (chunkCount n)] at hpos
        exact absurd hnone (List.ne_nil_of_length_pos hpos)
  · rw [answer_of_chunks hnone, hsaid, List.take_length, flatten_chunks]

theorem received_answer (a : Asked) (q n : EvhtpPtr) :
    received q (a.answer.map fun reply => (n, reply)) = if n = q then a.body else [] := by
  by_cases hq : n = q
  · rw [if_pos hq, ← a.flatMap_answer]
    simp [received, List.filter_map, Function.comp_def, hq, List.flatMap_map]
  · rw [if_neg hq]
    simp [received, List.filter_map, Function.comp_def, hq]

theorem received_transcript {asked : List Asked} {q : ℕ} {a : Asked} (h : asked[q]? = some a) :
    received q (transcript asked) = a.body := by
  have hfresh : ∀ asked : List Asked, received asked.length (transcript asked) = [] := by
    intro asked
    rw [received, List.filter_eq_nil_iff.mpr, List.flatMap_nil]
    intro x hx
    simp only [transcript, List.mem_flatMap, List.mem_map] at hx
    obtain ⟨⟨b, j⟩, hb, reply, -, rfl⟩ := hx
    have hj := List.snd_lt_of_mem_zipIdx hb
    simpa using hj.ne
  induction asked using List.reverseRecOn with
  | nil => cases h
  | append_singleton asked b ih =>
      rw [transcript_concat, received_append, received_answer]
      obtain ⟨hlt, -⟩ := List.getElem?_eq_some_iff.mp h
      rw [List.length_append, List.length_singleton] at hlt
      rcases Nat.lt_succ_iff_lt_or_eq.mp hlt with hold | rfl
      · rw [List.getElem?_append_left hold] at h
        rw [if_neg hold.ne', List.append_nil, ih h]
      · rw [List.getElem?_concat_length] at h
        cases h
        rw [if_pos rfl, hfresh, List.nil_append]

/-! ## Writing an answer -/

/-- The `struct req` of the request `q` has written `k` chunks of its answer. -/
inductive Progress (q : EvhtpPtr) : Asked → ℕ → Req → Prop
  | line {r : Req} {k : ℕ} (hreq : r.req = some q) (htype : r.reqType = .line)
      (hmax : r.maxCount = 16) (hcount : r.curCount = k) : Progress q .line k r
  | size {r : Req} {n k : ℕ} (hn : n < 2 ^ 64)
      (hr : SizedReq n (min n (reqBufSize * k)) q r) : Progress q (.size n) k r

section Write

variable {q : EvhtpPtr} {a : Asked} {k : ℕ} {p : ReqPtr} {c : Cell} {s s' : ServerState}

theorem Progress.req {r : Req} (h : Progress q a k r) : r.req = some q := by
  cases h with
  | line hreq => exact hreq
  | size _ hr => exact hr.req

theorem Progress.chunks_pos {r : Req} (h : Progress q a k r) : 0 < a.chunks.length := by
  cases h with
  | line => decide
  | @size _ n =>
      rw [Asked.chunks, length_replyChunks]
      exact chunkCount_pos n

theorem Progress.drop (h : Progress q a k c.req) : Progress q a k c.drop.req := by
  rw [Cell.drop_req]
  cases h with
  | line hreq htype hmax hcount => exact Progress.line hreq htype hmax hcount
  | size hn hr =>
      exact Progress.size hn
        ⟨hr.reqType, hr.req, hr.replySize, hr.currentOfs, hr.buf, hr.bufSize⟩

theorem Writes.cell (h : Writes p s s') :
    ∃ c conn x, s.heap[p]? = some c ∧ c.req.reqType ≠ .none ∧ s.conn = some conn ∧
      conn.request = some x ∧ c.req.req = some x.id := by
  cases h with
  | line hc htype hconn hrequest hreq => exact ⟨_, _, _, hc, by simp [htype], hconn, hrequest, hreq⟩
  | size hc htype hconn hrequest hreq => exact ⟨_, _, _, hc, by simp [htype], hconn, hrequest, hreq⟩

/-- The next write hands over the next chunk, and the end with the last one. -/
theorem Progress.writes (h : Progress q a k c.req) (hk : k < a.chunks.length)
    (hc : s.heap[p]? = some c) (hw : Writes p s s') :
    ∃ conn x r refs data, s.conn = some conn ∧ conn.request = some x ∧ x.id = q ∧
      a.chunks[k]? = some data ∧ Progress q a (k + 1) r ∧
      s' = s.wrote p c x r refs data (decide (a.chunks.length ≤ k + 1)) := by
  cases hw with
  | @line c' conn x hc' htype hconn hrequest hreq =>
      cases hc.symm.trans hc'
      have hid : q = x.id := Option.some.inj (h.req.symm.trans hreq)
      cases h with
      | size _ hr =>
          rw [hr.reqType] at htype
          cases htype
      | line hreq' htype' hmax hcount =>
          have hsmall : k < 16 := by
            rw [Asked.chunks, List.length_replicate] at hk
            exact hk
          have hsucc : int32 (c.req.curCount + 1) = (k + 1 : ℕ) := by
            have hfits : k + 1 < 2 ^ 31 := by omega
            rw [hcount, ← Nat.cast_succ]
            exact Cell.Counted.int32_natCast hfits
          refine ⟨conn, x, c.req.lineWritten, s.refs, replyLine, hconn, hrequest, hid.symm, ?_,
            Progress.line hreq' htype' hmax hsucc, ?_⟩
          · rw [Asked.chunks, List.getElem?_replicate, if_pos hsmall]
          · have hlast : c.req.maxCount ≤ c.req.lineWritten.curCount ↔
                (Asked.chunks .line).length ≤ k + 1 := by
              have hcur : c.req.lineWritten.curCount = (k + 1 : ℕ) := hsucc
              rw [Asked.chunks, List.length_replicate, hmax, hcur]
              exact Nat.cast_le
            rw [decide_eq_decide.mpr hlast]
  | @size c' conn x data hc' htype hconn hrequest hreq hbuf =>
      cases hc.symm.trans hc'
      have hid : q = x.id := Option.some.inj (h.req.symm.trans hreq)
      cases h with
      | line _ htype' =>
          rw [htype'] at htype
          cases htype
      | @size _ n _ hn hr =>
          rw [Asked.chunks, length_replyChunks] at hk
          have hle := mul_le_of_lt_chunkCount hk
          rw [min_eq_right hle] at hr
          cases hr.buf.symm.trans hbuf
          have hwritten := hr.bufWritten hle hn
          rw [← Nat.mul_succ] at hwritten
          have hdata : reqBuf.take c.req.writeSize = reqBuf.take (n - reqBufSize * k) := by
            rw [hr.writeSize hle hn, ← length_reqBuf, ← List.take_eq_take_min]
          have hlast : c.req.replySize ≤ uint64OfInt c.req.bufWritten.currentOfs ↔
              (Asked.chunks (.size n)).length ≤ k + 1 := by
            rw [Asked.chunks, length_replyChunks, chunkCount_le_iff, hr.replySize,
              hwritten.currentOfs, uint64OfInt_int64 ((min_le_left _ _).trans_lt hn), le_min_iff]
            exact ⟨fun hle => hle.2, fun hle => ⟨le_refl n, hle⟩⟩
          refine ⟨conn, x, c.req.bufWritten, s.refs ++ [p], reqBuf.take c.req.writeSize, hconn,
            hrequest, hid.symm, ?_, Progress.size hn hwritten, ?_⟩
          · rw [hdata, Asked.chunks]
            exact replyChunks_getElem? hk
          · rw [decide_eq_decide.mpr hlast]

end Write

/-! ## Beginning an answer -/

/-- How a request begins that is to be answered with `a`. -/
inductive Opens (s : ServerState) : Asked → ServerState → Prop
  | other {conn : EvhtpConnection} (hconn : s.conn = some conn) (hidle : conn.request = none) :
      Opens s .other (s.answered conn s.sent)
  | refused {conn : EvhtpConnection} (hconn : s.conn = some conn) (hidle : conn.request = none) :
      Opens s .refused (s.answered conn (s.sent ++ [(s.nextId, .error)]))
  | untyped {conn : EvhtpConnection} {r : Req} (hconn : s.conn = some conn)
      (hidle : conn.request = none) (hr : FreshReq s.nextId r) (htype : r.reqType = .none) :
      Opens s .refused (s.started r true .error)
  | typed {a : Asked} {conn : EvhtpConnection} {r : Req} {s' : ServerState}
      (hconn : s.conn = some conn) (hidle : conn.request = none) (hr : FreshReq s.nextId r)
      (hprogress : Progress s.nextId a 0 r)
      (hwrites : Writes s.heap.length (s.started r false .chunkStart) s') : Opens s a s'

section Open

variable {s s' : ServerState} {conn : EvhtpConnection}

theorem opens_of_reply (hconn : s.conn = some conn) (hidle : conn.request = none)
    (h : evhtpSendReply s.nextId (s.newRequest conn) = some s') : Opens s .refused s' := by
  have hsent : s' = s.answered conn (s.sent ++ [(s.nextId, .error)]) := by
    simp only [evhtpSendReply, inProgress_newRequest, Option.bind_eq_bind, Option.bind_some,
      Option.pure_def, Option.some.injEq] at h
    exact h.symm
  rw [hsent]
  exact Opens.refused hconn hidle

theorem opens_of_linecb {createOk : Bool} {junk : Req} (hconn : s.conn = some conn)
    (hidle : conn.request = none)
    (h : linecb createOk junk s.nextId (s.newRequest conn) = some s') :
    Opens s (if createOk then .line else .refused) s' := by
  cases createOk with
  | false => exact opens_of_reply hconn hidle h
  | true =>
      rcases reqStartResponse_spec rfl h with ⟨htype, -⟩ | ⟨-, hwrites⟩
      · cases htype
      · exact Opens.typed hconn hidle ⟨rfl, rfl⟩ (Progress.line rfl rfl rfl rfl) hwrites

theorem opens_of_sizecb {v : String} {createOk bufOk : Bool} {junk : Req}
    (hconn : s.conn = some conn) (hidle : conn.request = none)
    (h : sizecb (some v) createOk bufOk junk s.nextId (s.newRequest conn) = some s') :
    Opens s (if strtoull v.toList ≠ ullongMax ∧ createOk ∧ bufOk then .size (strtoull v.toList)
      else .refused) s' := by
  simp only [sizecb] at h
  by_cases hmax : strtoull v.toList = ullongMax
  · rw [if_pos hmax] at h
    rw [if_neg fun hall => hall.1 hmax]
    exact opens_of_reply hconn hidle h
  rw [if_neg hmax] at h
  cases createOk with
  | false =>
      rw [if_neg (by simp)]
      exact opens_of_reply hconn hidle h
  | true =>
      cases bufOk with
      | false =>
          rw [if_neg (by simp)]
          rcases reqStartResponse_spec rfl h with ⟨htype, rfl⟩ | ⟨htype, -⟩
          · exact Opens.untyped hconn hidle ⟨rfl, rfl⟩ htype
          · exact absurd rfl htype
      | true =>
          rw [if_pos ⟨hmax, rfl, rfl⟩]
          rcases reqStartResponse_spec rfl h with ⟨htype, -⟩ | ⟨-, hwrites⟩
          · cases htype
          · have hsized : SizedReq (strtoull v.toList)
                (min (strtoull v.toList) (reqBufSize * 0)) s.nextId
                (sizedReq junk s.nextId (strtoull v.toList)) := by
              rw [Nat.mul_zero, Nat.min_zero]
              exact ⟨rfl, rfl, rfl, rfl, rfl, rfl⟩
            exact Opens.typed hconn hidle ⟨rfl, rfl⟩
              (Progress.size (lt_of_strtoull rfl) hsized) hwrites

theorem opens_of_asked {e : ServerEvent} {a : Asked} (ha : e.asked = some a)
    (h : serverStep e s = some s') : Opens s a s' := by
  have hnew : ∀ {f : ServerState → Option ServerState}, (evhtpRequestNew s).bind f = some s' →
      ∃ conn, s.conn = some conn ∧ conn.request = none ∧ f (s.newRequest conn) = some s' := by
    intro f hf
    obtain ⟨s₁, hs₁, hrest⟩ := Option.bind_eq_some_iff.mp hf
    obtain ⟨conn, hconn, hidle, rfl⟩ := evhtpRequestNew_eq_some hs₁
    exact ⟨conn, hconn, hidle, hrest⟩
  cases e with
  | line createOk junk =>
      cases ha
      obtain ⟨conn, hconn, hidle, hrest⟩ := hnew h
      exact opens_of_linecb hconn hidle hrest
  | size val createOk bufOk junk =>
      obtain ⟨conn, hconn, hidle, hrest⟩ := hnew h
      cases val with
      | none =>
          cases ha
          exact opens_of_reply hconn hidle hrest
      | some v =>
          cases ha
          exact opens_of_sizecb hconn hidle hrest
  | other =>
      cases ha
      obtain ⟨conn, hconn, hidle, hrest⟩ := hnew h
      obtain rfl : s.answered conn s.sent = s' := Option.some.inj hrest
      exact Opens.other hconn hidle
  | onWrite => cases ha
  | release p => cases ha
  | error keep => cases ha
  | requestDone => cases ha
  | close => cases ha

end Open

/-! ## What the connection was sent -/

/-- The requests asked for `asked` and the server has sent `s.sent`. -/
structure Tells (asked : List Asked) (s : ServerState) : Prop where
  count : s.nextId = asked.length
  within : s.sent <+: transcript asked
  complete : transcript asked.dropLast <+: s.sent
  idle : ∀ conn, s.conn = some conn → (∀ x, conn.request = some x → x.finished = true) →
    s.sent = transcript asked
  writing : ∀ conn x p c, s.conn = some conn → conn.request = some x → x.finished = false →
    x.hooks = some p → s.heap[p]? = some c →
    ∃ before a k, asked = before ++ [a] ∧ x.id = before.length ∧ k < a.chunks.length ∧
      Progress x.id a k c.req ∧
      s.sent = transcript before ++ (a.said k).map fun reply => (x.id, reply)

section Tells

variable {asked before : List Asked} {a : Asked} {k : ℕ} {p : ReqPtr} {c : Cell}
  {conn : EvhtpConnection} {x : EvhtpRequest} {s s' : ServerState}

theorem tells_of_sent (hcount : s.nextId = asked.length) (hsent : s.sent = transcript asked)
    (hdone : ∀ conn x p, s.conn = some conn → conn.request = some x → x.finished = false →
      x.hooks ≠ some p) : Tells asked s where
  count := hcount
  within := hsent ▸ List.prefix_rfl
  complete := by
    rw [hsent]
    rcases List.eq_nil_or_concat' asked with rfl | ⟨before, a, rfl⟩
    · exact List.prefix_rfl
    · rw [List.dropLast_concat, transcript_concat]
      exact List.prefix_append _ _
  idle _ _ _ := hsent
  writing conn x p _ hconn hrequest hfinished hhooks :=
    absurd hhooks (hdone conn x p hconn hrequest hfinished)

theorem tells_of_writing (hcount : s.nextId = before.length + 1) (hconn : s.conn = some conn)
    (hrequest : conn.request = some x) (hfinished : x.finished = false)
    (hhooks : x.hooks = some p) (hid : x.id = before.length) (hk : k < a.chunks.length)
    (hc : s.heap[p]? = some c) (hprogress : Progress x.id a k c.req)
    (hsent : s.sent = transcript before ++ (a.said k).map fun reply => (x.id, reply)) :
    Tells (before ++ [a]) s where
  count := by
    rw [hcount, List.length_append, List.length_singleton]
  within := by
    rw [hsent, transcript_concat, ← hid, List.prefix_append_right_inj]
    exact (Asked.said_prefix hk).map _
  complete := by
    rw [List.dropLast_concat, hsent]
    exact List.prefix_append _ _
  idle conn' hconn' hdone := by
    cases hconn.symm.trans hconn'
    rw [hdone x hrequest] at hfinished
    cases hfinished
  writing conn' x' p' c' hconn' hrequest' _ hhooks' hc' := by
    cases hconn.symm.trans hconn'
    cases hrequest.symm.trans hrequest'
    cases hhooks.symm.trans hhooks'
    cases hc.symm.trans hc'
    exact ⟨before, a, k, rfl, hid, hk, hprogress, hsent⟩

theorem Tells.use (hs : Tells asked s) (p : ReqPtr) : Tells asked (s.use p) := by
  rw [use_eq]
  exact ⟨hs.count, hs.within, hs.complete, hs.idle, hs.writing⟩

theorem Tells.silent (hs : Tells asked s) (hid : s'.nextId = s.nextId) (hsent : s'.sent = s.sent)
    (hconn : ∀ conn' x', s'.conn = some conn' → conn'.request = some x' →
      ∃ conn x, s.conn = some conn ∧ conn.request = some x ∧ x'.finished = x.finished ∧
        x'.hooks = none)
    (hidle : ∀ conn', s'.conn = some conn' → conn'.request = none → s.sent = transcript asked) :
    Tells asked s' where
  count := hid.trans hs.count
  within := hsent ▸ hs.within
  complete := hsent ▸ hs.complete
  idle conn' hconn' hdone := by
    rw [hsent]
    cases hrequest' : conn'.request with
    | none => exact hidle conn' hconn' hrequest'
    | some x' =>
        obtain ⟨conn, x, hold, hrequest, hfinished, -⟩ := hconn conn' x' hconn' hrequest'
        refine hs.idle conn hold fun y hy => ?_
        cases hrequest.symm.trans hy
        rw [← hfinished]
        exact hdone x' hrequest'
  writing conn' x' p c hconn' hrequest' _ hhooks := by
    obtain ⟨-, -, -, -, -, hnone⟩ := hconn conn' x' hconn' hrequest'
    rw [hnone] at hhooks
    cases hhooks

theorem Tells.released (hs : Tells asked s) (hc : s.heap[p]? = some c) (refs : List ReqPtr) :
    Tells asked { s with refs := refs, heap := s.heap.set p c.drop } where
  count := hs.count
  within := hs.within
  complete := hs.complete
  idle := hs.idle
  writing conn x j d hconn hrequest hfinished hhooks hd := by
    rw [getElem?_set_of_some hc] at hd
    by_cases hj : j = p
    · rw [if_pos hj] at hd
      cases hd
      obtain ⟨before, a, k, hasked, hid, hk, hprogress, hsent⟩ :=
        hs.writing conn x j c hconn hrequest hfinished hhooks (hj ▸ hc)
      exact ⟨before, a, k, hasked, hid, hk, hprogress.drop, hsent⟩
    · rw [if_neg hj] at hd
      exact hs.writing conn x j d hconn hrequest hfinished hhooks hd

theorem Tells.writes (hs : Tells asked s) (hlinked : Linked s) (hconn : s.conn = some conn)
    (hrequest : conn.request = some x) (hfinished : x.finished = false)
    (hhooks : x.hooks = some p) (h : Writes p s s') : Tells asked s' := by
  obtain ⟨c, hc, -⟩ := hlinked.hooked ((current_eq hconn hrequest).trans (by rw [hhooks]))
  obtain ⟨before, a, k, rfl, hid, hk, hprogress, hsent⟩ :=
    hs.writing conn x p c hconn hrequest hfinished hhooks hc
  obtain ⟨conn', x', r, refs, data, hconn', hrequest', -, hdata, hnext, rfl⟩ :=
    hprogress.writes hk hc h
  cases hconn.symm.trans hconn'
  cases hrequest.symm.trans hrequest'
  obtain ⟨hlt, -⟩ := List.getElem?_eq_some_iff.mp hc
  have hsaid := Asked.said_succ hdata
  by_cases hlast : a.chunks.length ≤ k + 1
  · have hend : a.chunks.length = k + 1 := le_antisymm hlast hk
    have hanswer := Asked.answer_of_chunks (List.ne_nil_of_length_pos (Nat.zero_lt_of_lt hk))
    rw [hend, hsaid] at hanswer
    refine tells_of_sent hs.count ?_ ?_
    · simp [ServerState.wrote, chunkReplies, hlast, hsent, transcript_concat, hanswer, hid]
    · intro conn' x' p' hconn' hrequest' hopen
      rw [ServerState.wrote, if_pos (decide_eq_true hlast)] at hconn'
      cases hconn'
      cases hrequest'
      cases hopen
  · have hcell : (s.wrote p c x r refs data (decide (a.chunks.length ≤ k + 1))).heap[p]? =
        some { c with req := r } := List.getElem?_set_self hlt
    have hsame : (s.wrote p c x r refs data (decide (a.chunks.length ≤ k + 1))).conn =
        some conn := by
      rw [ServerState.wrote, decide_eq_false hlast]
      exact hconn
    refine tells_of_writing ?_ hsame hrequest hfinished hhooks hid (not_le.mp hlast) hcell hnext ?_
    · rw [← List.length_singleton (a := a), ← List.length_append]
      exact hs.count
    · simp [ServerState.wrote, chunkReplies, hlast, hsent, hsaid]

theorem Tells.opens (hs : Tells asked s) (hlinked : Linked s) (h : Opens s a s') :
    Tells (asked ++ [a]) s' := by
  have hsent : ∀ {conn}, s.conn = some conn → conn.request = none →
      s.sent = transcript asked := fun hconn hidle =>
    hs.idle _ hconn fun x hx => by simp [hidle] at hx
  have hcount : s.nextId + 1 = (asked ++ [a]).length := by
    rw [List.length_append, List.length_singleton, hs.count]
  cases h with
  | other hconn hidle =>
      refine tells_of_sent hcount ?_ ?_
      · rw [transcript_concat]
        simpa [ServerState.answered, Asked.answer] using hsent hconn hidle
      · rintro _ x p ⟨⟩ ⟨⟩ ⟨⟩
  | refused hconn hidle =>
      refine tells_of_sent hcount ?_ ?_
      · rw [transcript_concat, ← hsent hconn hidle, ← hs.count]
        rfl
      · rintro _ x p ⟨⟩ ⟨⟩ ⟨⟩
  | untyped hconn hidle hr =>
      refine tells_of_sent hcount ?_ ?_
      · rw [transcript_concat, ← hsent hconn hidle, ← hs.count]
        rfl
      · rintro _ x p ⟨⟩ ⟨⟩ ⟨⟩
  | @typed _ conn r _ hconn hidle hr hprogress hwrites =>
      have hlinked' := hlinked.started (current_eq_none hconn hidle) hr.req false .chunkStart
      have hbegun : Tells (asked ++ [a]) (s.started r false .chunkStart) := by
        refine tells_of_writing (k := 0) (by rw [← hs.count]; rfl) rfl rfl rfl rfl hs.count
          hprogress.chunks_pos (started_getElem? r false .chunkStart s) hprogress ?_
        rw [← hsent hconn hidle]
        simp [ServerState.started, Asked.said]
      exact hbegun.writes hlinked' rfl rfl rfl rfl hwrites

theorem Tells.step {e : ServerEvent} (hs : Tells asked s) (hlinked : Linked s)
    (harmed : Armed s) (h : serverStep e s = some s') :
    Tells (asked ++ e.asked.toList) s' := by
  cases ha : e.asked with
  | some a => exact hs.opens hlinked (opens_of_asked ha h)
  | none =>
      have hopens : e.opens = false := by
        cases e with
        | line => cases ha
        | size val => cases val <;> cases ha
        | other => cases ha
        | _ => rfl
      rw [Option.toList_none, List.append_nil]
      cases serverStep_spec h with
      | refused he => simp [hopens] at he
      | untyped he => simp [hopens] at he
      | typed he => simp [hopens] at he
      | @wrote _ _ conn x p hconn hrequest hhook hwrites =>
          obtain ⟨c, conn', x', hc, htype, hconn', hrequest', hreq⟩ := hwrites.cell
          rw [use_heap] at hc
          rw [use_conn] at hconn'
          cases hconn.symm.trans hconn'
          cases hrequest.symm.trans hrequest'
          have hhooks := hlinked.hooks_eq hconn hrequest hc hreq
          have hfinished : x.finished = false := by
            rw [harmed conn x p c hconn hrequest hhooks hc] at hhook
            by_contra hdone
            rw [if_pos ⟨Bool.not_eq_false _ ▸ hdone, htype⟩] at hhook
            cases hhook
          exact (hs.use p).writes (hlinked.use p) (by rw [use_conn, hconn]) hrequest hfinished
            hhooks hwrites
      | wroteNothing => exact hs.use _
      | released _ hc => exact hs.released hc _
      | @error _ conn x heap stale keep hconn hrequest =>
          refine hs.silent rfl rfl ?_ ?_
          · cases keep with
            | false => simp
            | true =>
                rintro _ _ ⟨⟩ ⟨⟩
                exact ⟨conn, x, hconn, hrequest, rfl, rfl⟩
          · cases keep with
            | false => simp
            | true =>
                rintro _ ⟨⟩ ⟨⟩
      | @requestDone _ conn x _ _ hconn hrequest hfinished =>
          refine hs.silent rfl rfl ?_ ?_
          · rintro _ _ ⟨⟩ ⟨⟩
          · intro _ _ _
            refine hs.idle conn hconn fun y hy => ?_
            cases hrequest.symm.trans hy
            exact hfinished
      | close => exact hs.silent rfl rfl (by simp) (by simp)
      | closeIdle => exact hs.silent rfl rfl (by simp) (by simp)

end Tells

/-! ## Runs -/

section Run

variable {es : List ServerEvent} {s : ServerState}

theorem tells_of_run (h : serverSystem.run es = some s) :
    Tells (es.filterMap ServerEvent.asked) s := by
  refine serverSystem.run_induction
    (P := fun es s => Tells (es.filterMap ServerEvent.asked) s) ?_ ?_ es s h
  · exact tells_of_sent rfl rfl (by rintro _ _ _ ⟨⟩ ⟨⟩)
  · intro pre e t t' hpre ht hstep
    rw [List.filterMap_append, List.filterMap_cons, List.filterMap_nil]
    have hnext := ht.step (linked_of_run hpre) (armed_of_run hpre) hstep
    cases ha : e.asked with
    | none => simpa [ha] using hnext
    | some a => simpa [ha] using hnext

/-- Whoever comes before the last request has got the whole body. -/
theorem Tells.received {asked : List Asked} (h : Tells asked s) {q : ℕ} {a : Asked}
    (hq : asked[q]? = some a) : received q s.sent <+: a.body ∧
      (q + 1 < asked.length → received q s.sent = a.body) := by
  have hwithin := received_prefix h.within q
  rw [received_transcript hq] at hwithin
  refine ⟨hwithin, fun hlast => ?_⟩
  have hcomplete := received_prefix h.complete q
  have hdrop : asked.dropLast[q]? = some a := by
    rw [List.getElem?_dropLast, if_pos (by omega), hq]
  rw [received_transcript hdrop] at hcomplete
  exact hwithin.eq_of_length_le hcomplete.length_le

/-- In every run a connection is sent the answers to its requests in the order of
the requests: nothing but these answers, every one but the last completely, and the
last one too as soon as its request is finished or over.  The bytes that a request
gets are those of its body (none if it was refused), all of them unless it is the last
one. -/
theorem replies_in_order (h : serverSystem.run es = some s) :
    s.nextId = (es.filterMap ServerEvent.asked).length ∧
      s.sent <+: transcript (es.filterMap ServerEvent.asked) ∧
      transcript (es.filterMap ServerEvent.asked).dropLast <+: s.sent ∧
      (∀ conn, s.conn = some conn → (∀ x, conn.request = some x → x.finished = true) →
        s.sent = transcript (es.filterMap ServerEvent.asked)) ∧
      ∀ q a, (es.filterMap ServerEvent.asked)[q]? = some a →
        received q s.sent <+: a.body ∧
          (q + 1 < (es.filterMap ServerEvent.asked).length → received q s.sent = a.body) := by
  have htells := tells_of_run h
  exact ⟨htells.count, htells.within, htells.complete, htells.idle, fun _ _ => htells.received⟩

/-- The lines, and after them an error for a size that is missing. -/
theorem replies_in_order_two_requests :
    ∃ s, serverSystem.run (.line true Req.zero :: List.replicate 15 .onWrite ++
        [.requestDone, .size none true true Req.zero]) = some s ∧
      s.sent = transcript [.line, .refused] := by
  have hsome : (serverSystem.run (.line true Req.zero :: List.replicate 15 .onWrite ++
      [.requestDone, .size none true true Req.zero])).any fun s =>
        s.conn = some ⟨none, some ⟨1, none, true⟩⟩ := by
    decide +kernel
  obtain ⟨s, hs, hconn⟩ := (Option.any_eq_true _ _).mp hsome
  refine ⟨s, hs, (replies_in_order hs).2.2.2.1 _ (of_decide_eq_true hconn) ?_⟩
  rintro x ⟨⟩
  rfl

end Run

end EvhtpHttp.Server

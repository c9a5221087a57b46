import EvhtpHttp.Server.Transcript

/-!
# The death of the server

A typed reply that is under way when the error hook runs loses its request, but the
write hook stays on the connection.  If libevhtp keeps the connection, the next
write callback follows the pointer that the error hook has set to `NULL`.  Nothing
else kills the server.
-/

namespace EvhtpHttp.Server

open EvhtpHttp.Support

/-- What libevhtp and libevent may do next. -/
def ServerEvent.Deliverable (s : ServerState) : ServerEvent → Prop
  | .line _ _ => ∃ conn, s.conn = some conn ∧ conn.request = none
  | .size _ _ _ _ => ∃ conn, s.conn = some conn ∧ conn.request = none
  | .other => ∃ conn, s.conn = some conn ∧ conn.request = none
  | .onWrite => ∃ conn x p, s.conn = some conn ∧ conn.request = some x ∧ conn.onWrite = some p
  | .release p => p ∈ s.refs
  | .error _ => ∃ conn x, s.conn = some conn ∧ conn.request = some x
  | .requestDone => ∃ conn x, s.conn = some conn ∧ conn.request = some x ∧ x.finished = true
  | .close => s.conn ≠ none

/-- A typed reply is under way. -/
def ServerState.Unfinished (s : ServerState) : Prop :=
  ∃ conn x p, s.conn = some conn ∧ conn.request = some x ∧ x.finished = false ∧
    x.hooks = some p

/-- The write hook belongs to a typed reply that has lost its request. -/
def ServerState.Abandoned (s : ServerState) : Prop :=
  ∃ conn p c, s.conn = some conn ∧ conn.onWrite = some p ∧ s.heap[p]? = some c ∧
    c.req.reqType ≠ .none ∧ c.req.req = none

/-- What the write hook and the memory of the requests are like.  A hook of a typed
reply belongs to the request in progress, which is not finished and has lost its
hooks only to an error. -/
structure Watched (s : ServerState) : Prop where
  made : ∀ conn p, s.conn = some conn → conn.onWrite = some p → p < s.heap.length
  typed : ∀ conn p c, s.conn = some conn → conn.onWrite = some p → s.heap[p]? = some c →
    c.req.reqType ≠ .none → ∃ x, conn.request = some x ∧ x.finished = false ∧
      (x.hooks = some p ∨ x.hooks = none ∧ c.req.req = none)
  unfinished : ∀ conn x p, s.conn = some conn → conn.request = some x → x.finished = false →
    x.hooks = some p → conn.onWrite = some p ∧ ∀ c, s.heap[p]? = some c → c.req.reqType ≠ .none
  buffered : ∀ c ∈ s.heap, c.req.reqType = .size → c.req.buf ≠ none

section Steps

variable {s s' : ServerState} {p : ReqPtr} {c c' : Cell} {e : ServerEvent}

theorem Watched.replace (hs : Watched s) (hc : s.heap[p]? = some c)
    (hheap : s'.heap = s.heap.set p c') (hconn : s'.conn = s.conn)
    (htype : c'.req.reqType = c.req.reqType) (hreq : c'.req.req = c.req.req)
    (hbuf : c'.req.buf = c.req.buf) : Watched s' := by
  have hcell : ∀ {j : ReqPtr} {d : Cell}, s'.heap[j]? = some d → ∃ d₀, s.heap[j]? = some d₀ ∧
      d.req.reqType = d₀.req.reqType ∧ d.req.req = d₀.req.req := by
    intro j d hd
    rw [hheap, getElem?_set_of_some hc] at hd
    by_cases hj : j = p
    · rw [if_pos hj] at hd
      cases hd
      exact ⟨c, hj ▸ hc, htype, hreq⟩
    · rw [if_neg hj] at hd
      exact ⟨d, hd, rfl, rfl⟩
  constructor
  · intro conn j hconn' hhook
    rw [hheap, List.length_set]
    exact hs.made conn j (hconn ▸ hconn') hhook
  · intro conn j d hconn' hhook hd htyped
    obtain ⟨d₀, hd₀, hsame, hreq'⟩ := hcell hd
    rw [hreq']
    exact hs.typed conn j d₀ (hconn ▸ hconn') hhook hd₀ (hsame ▸ htyped)
  · intro conn x j hconn' hrequest hfinished hhooks
    obtain ⟨hhook, htyped⟩ := hs.unfinished conn x j (hconn ▸ hconn') hrequest hfinished hhooks
    refine ⟨hhook, fun d hd => ?_⟩
    obtain ⟨d₀, hd₀, hsame, -⟩ := hcell hd
    rw [hsame]
    exact htyped d₀ hd₀
  · intro d hd hsize
    rw [hheap] at hd
    rcases List.mem_or_eq_of_mem_set hd with hold | rfl
    · exact hs.buffered d hold hsize
    · rw [hbuf]
      exact hs.buffered c (List.mem_of_getElem? hc) (htype ▸ hsize)

theorem watched_of_unhooked (hmade : ∀ conn p, s.conn = some conn → conn.onWrite = some p →
      p < s.heap.length)
    (htyped : ∀ conn p c, s.conn = some conn → conn.onWrite = some p → s.heap[p]? = some c →
      c.req.reqType = .none)
    (hopen : ∀ conn x p, s.conn = some conn → conn.request = some x → x.finished = false →
      x.hooks ≠ some p)
    (hbuffered : ∀ c ∈ s.heap, c.req.reqType = .size → c.req.buf ≠ none) : Watched s where
  made := hmade
  typed conn p c hconn hhook hc h := absurd (htyped conn p c hconn hhook hc) h
  unfinished conn x p hconn hrequest hfinished h := absurd h (hopen conn x p hconn hrequest hfinished)
  buffered := hbuffered

theorem Watched.use (hs : Watched s) (p : ReqPtr) : Watched (s.use p) := by
  rw [use_eq]
  exact ⟨hs.made, hs.typed, hs.unfinished, hs.buffered⟩

theorem Watched.wrote (hs : Watched s) (hc : s.heap[p]? = some c) {x : EvhtpRequest} {r : Req}
    (htype : r.reqType = c.req.reqType) (hreq : r.req = c.req.req) (hbuf : r.buf = c.req.buf)
    (refs : List ReqPtr) (data : List UInt8) (last : Bool) :
    Watched (s.wrote p c x r refs data last) := by
  cases last with
  | false => exact hs.replace hc rfl rfl htype hreq hbuf
  | true =>
      have hkept : Watched { s with heap := s.heap.set p { c with req := r } } :=
        hs.replace hc rfl rfl htype hreq hbuf
      refine watched_of_unhooked ?_ ?_ ?_ hkept.buffered
      · rintro _ _ ⟨⟩ ⟨⟩
      · rintro _ _ _ ⟨⟩ ⟨⟩
      · rintro _ _ _ ⟨⟩ ⟨⟩ ⟨⟩

theorem Watched.writes (hs : Watched s) (h : Writes p s s') : Watched s' := by
  cases h with
  | line hc => exact hs.wrote (r := Req.lineWritten _) hc rfl rfl rfl _ _ _
  | size hc => exact hs.wrote (r := Req.bufWritten _) hc rfl rfl rfl _ _ _

theorem Watched.started (hs : Watched s) {r : Req} {finished : Bool}
    (hfinished : finished = true ↔ r.reqType = .none)
    (hbuf : r.reqType = .size → r.buf ≠ none) (reply : Reply) :
    Watched (s.started r finished reply) := by
  have hcell := started_getElem? r finished reply s
  constructor
  · rintro _ _ ⟨⟩ ⟨⟩
    exact (List.getElem?_eq_some_iff.mp hcell).1
  · rintro _ _ c ⟨⟩ ⟨⟩ hc htyped
    cases hcell.symm.trans hc
    refine ⟨_, rfl, ?_, Or.inl rfl⟩
    exact Bool.eq_false_iff.mpr fun hdone => htyped (hfinished.mp hdone)
  · rintro _ _ _ ⟨⟩ ⟨⟩ hopen ⟨⟩
    refine ⟨rfl, fun c hc htype => ?_⟩
    cases hcell.symm.trans hc
    rw [hfinished.mpr htype] at hopen
    cases hopen
  · intro c hc
    rw [ServerState.started, List.mem_append, List.mem_singleton] at hc
    rcases hc with hold | rfl
    · exact hs.buffered c hold
    · exact hbuf

theorem Writes.buffered {r : Req} {s₀ : ServerState}
    (h : Writes s₀.heap.length (s₀.started r false .chunkStart) s') :
    r.reqType = .size → r.buf ≠ none := by
  have hcell := started_getElem? r false .chunkStart s₀
  intro hsize
  cases h with
  | line hc htype =>
      cases hcell.symm.trans hc
      rw [hsize] at htype
      cases htype
  | size hc _ _ _ _ hbuf =>
      cases hcell.symm.trans hc
      rw [hbuf]
      simp

theorem Watched.ends (hs : Watched s) {x : EvhtpRequest} {heap : List Cell} {stale : ℕ}
    (h : Ends x s heap stale) : ∀ c ∈ heap, c.req.reqType = .size → c.req.buf ≠ none := by
  cases h with
  | unhooked => exact hs.buffered
  | @hooked p c _ hc =>
      intro d hd
      rcases List.mem_or_eq_of_mem_set hd with hold | rfl
      · exact hs.buffered d hold
      · rw [Cell.drop_req]
        exact hs.buffered c (List.mem_of_getElem? hc)

theorem Ends.length {x : EvhtpRequest} {heap : List Cell} {stale : ℕ}
    (h : Ends x s heap stale) : heap.length = s.heap.length := by
  cases h with
  | unhooked => rfl
  | hooked => rw [List.length_set]

theorem Ends.cell {x : EvhtpRequest} {heap : List Cell} {stale : ℕ} (h : Ends x s heap stale)
    {j : ReqPtr} {d : Cell} (hd : heap[j]? = some d) : ∃ d₀, s.heap[j]? = some d₀ ∧
      d.req.reqType = d₀.req.reqType ∧ (x.hooks = some j → d.req.req = none) ∧
      (x.hooks = none → d = d₀) := by
  cases h with
  | unhooked hhooks => exact ⟨d, hd, rfl, by simp [hhooks], fun _ => rfl⟩
  | @hooked p c hhooks hc =>
      rw [getElem?_set_of_some hc] at hd
      by_cases hj : j = p
      · rw [if_pos hj] at hd
        cases hd
        refine ⟨c, hj ▸ hc, ?_, ?_, by simp [hhooks]⟩
        · rw [Cell.drop_req]
          rfl
        · rw [Cell.drop_req]
          exact fun _ => rfl
      · rw [if_neg hj] at hd
        refine ⟨d, hd, rfl, ?_, by simp [hhooks]⟩
        rw [hhooks, Option.some.injEq]
        exact fun hp => absurd hp.symm hj

theorem ServerStep.watched (h : ServerStep e s s') (hs : Watched s) : Watched s' := by
  cases h with
  | refused _ hconn hidle =>
      refine watched_of_unhooked ?_ ?_ ?_ hs.buffered
      · rintro _ p ⟨⟩ hhook
        exact hs.made _ p hconn hhook
      · rintro _ p c ⟨⟩ hhook hc
        by_contra htyped
        obtain ⟨x, hrequest, -⟩ := hs.typed _ p c hconn hhook hc htyped
        rw [hidle] at hrequest
        cases hrequest
      · rintro _ _ _ ⟨⟩ ⟨⟩ ⟨⟩
  | untyped _ _ _ _ htype => exact hs.started (by simp [htype]) (by simp [htype]) _
  | typed _ _ _ _ htype hwrites =>
      exact (hs.started (by simp [htype]) hwrites.buffered _).writes hwrites
  | wrote _ _ _ hwrites => exact (hs.use _).writes hwrites
  | wroteNothing => exact hs.use _
  | @released _ p c _ hc =>
      refine hs.replace hc rfl rfl ?_ ?_ ?_
      · rw [Cell.drop_req]
      · rw [Cell.drop_req]
      · rw [Cell.drop_req]
  | @error _ conn x heap stale keep hconn hrequest hends =>
      cases keep with
      | false =>
          refine watched_of_unhooked ?_ ?_ ?_ (hs.ends hends)
          · rintro _ _ ⟨⟩
          · rintro _ _ _ ⟨⟩
          · rintro _ _ _ ⟨⟩
      | true =>
          constructor
          · rintro _ p ⟨⟩ hhook
            rw [hends.length]
            exact hs.made conn p hconn hhook
          · rintro _ p d ⟨⟩ hhook hd htyped
            obtain ⟨d₀, hd₀, htype, hlost, hsame⟩ := hends.cell hd
            rw [htype] at htyped
            obtain ⟨y, hy, hfinished, howner⟩ := hs.typed conn p d₀ hconn hhook hd₀ htyped
            cases hrequest.symm.trans hy
            refine ⟨_, rfl, hfinished, Or.inr ⟨rfl, ?_⟩⟩
            rcases howner with hhooks | ⟨hnone, hreq⟩
            · exact hlost hhooks
            · rw [hsame hnone, hreq]
          · rintro _ _ _ ⟨⟩ ⟨⟩ _ ⟨⟩
          · exact hs.ends hends
  | @requestDone _ conn x heap stale hconn hrequest hfinished hends =>
      refine watched_of_unhooked ?_ ?_ ?_ (hs.ends hends)
      · rintro _ p ⟨⟩ hhook
        rw [hends.length]
        exact hs.made conn p hconn hhook
      · rintro _ p d ⟨⟩ hhook hd
        obtain ⟨d₀, hd₀, htype, -⟩ := hends.cell hd
        rw [htype]
        by_contra htyped
        obtain ⟨y, hy, hopen, -⟩ := hs.typed conn p d₀ hconn hhook hd₀ htyped
        cases hrequest.symm.trans hy
        rw [hfinished] at hopen
        cases hopen
      · rintro _ _ _ ⟨⟩ ⟨⟩
  | close _ _ hends =>
      refine watched_of_unhooked ?_ ?_ ?_ (hs.ends hends)
      · rintro _ _ ⟨⟩
      · rintro _ _ _ ⟨⟩
      · rintro _ _ _ ⟨⟩
  | closeIdle =>
      refine watched_of_unhooked ?_ ?_ ?_ hs.buffered
      · rintro _ _ ⟨⟩
      · rintro _ _ _ ⟨⟩
      · rintro _ _ _ ⟨⟩

end Steps

/-! ## Every event but one -/

section Alive

variable {s s' : ServerState} {p : ReqPtr} {c : Cell} {conn : EvhtpConnection} {x : EvhtpRequest}

theorem exists_reqWriteLine (hconn : s.conn = some conn) (hrequest : conn.request = some x)
    (hc : s.heap[p]? = some c) (hreq : c.req.req = some x.id) :
    ∃ s', reqWriteLine p s = some s' := by
  have hin : ∀ onWrite heap sent, ServerState.inProgress x.id { s with
      conn := some ⟨onWrite, some x⟩
      heap := heap
      sent := sent } = some (⟨onWrite, some x⟩, x) :=
    fun _ _ _ => inProgress_eq_some.mpr ⟨rfl, rfl, rfl⟩
  have hsame : s.conn = some ⟨conn.onWrite, some x⟩ := by
    rw [hconn, ← hrequest]
  have hhere : s.inProgress x.id = some (⟨conn.onWrite, some x⟩, x) :=
    inProgress_eq_some.mpr ⟨hsame, rfl, rfl⟩
  simp only [reqWriteLine, hc, hreq, evhtpSendReplyChunk, hhere, ServerState.setCell,
    evhtpUnsetOnWrite, evhtpSendReplyChunkEnd, hsame, hin, Option.bind_eq_bind,
    Option.bind_some, Option.pure_def]
  split
  · exact ⟨_, rfl⟩
  · exact ⟨_, rfl⟩

theorem exists_reqWriteBuf (hconn : s.conn = some conn) (hrequest : conn.request = some x)
    (hc : s.heap[p]? = some c) (hreq : c.req.req = some x.id) (hbuf : c.req.buf ≠ none) :
    ∃ s', reqWriteBuf p s = some s' := by
  obtain ⟨data, hdata⟩ := Option.ne_none_iff_exists'.mp hbuf
  have hin : ∀ onWrite heap refs sent, ServerState.inProgress x.id { s with
      conn := some ⟨onWrite, some x⟩
      heap := heap
      refs := refs
      sent := sent } = some (⟨onWrite, some x⟩, x) :=
    fun _ _ _ _ => inProgress_eq_some.mpr ⟨rfl, rfl, rfl⟩
  have hsame : s.conn = some ⟨conn.onWrite, some x⟩ := by
    rw [hconn, ← hrequest]
  simp only [reqWriteBuf, hc, hdata, hreq, evhtpSendReplyChunk, hsame, hin,
    ServerState.setCell, evhtpUnsetOnWrite, evhtpSendReplyChunkEnd, Option.bind_eq_bind,
    Option.bind_some, Option.pure_def]
  split
  · exact ⟨_, rfl⟩
  · exact ⟨_, rfl⟩

theorem exists_reqStartResponse {r : Req} (hr : r.req = some s.nextId)
    (hbuf : r.reqType = .size → r.buf ≠ none) :
    ∃ s', reqStartResponse s.heap.length ((s.newRequest conn).alloc r) = some s' := by
  rw [reqStartResponse_eq hr]
  have hcell := started_getElem? r false .chunkStart s
  cases htype : r.reqType with
  | none => exact ⟨_, rfl⟩
  | line => exact exists_reqWriteLine rfl rfl hcell hr
  | size => exact exists_reqWriteBuf rfl rfl hcell hr (hbuf htype)

theorem exists_evhtpSendReply :
    ∃ s', evhtpSendReply s.nextId (s.newRequest conn) = some s' := by
  simp only [evhtpSendReply, inProgress_newRequest, Option.bind_eq_bind, Option.bind_some]
  exact ⟨_, rfl⟩

theorem evhtpRequestNew_eq (hconn : s.conn = some conn) (hidle : conn.request = none) :
    evhtpRequestNew s = some (s.newRequest conn) := by
  simp [evhtpRequestNew, hconn, hidle, ServerState.newRequest]

theorem exists_linecb (conn : EvhtpConnection) (createOk : Bool) (junk : Req) :
    ∃ s', linecb createOk junk s.nextId (s.newRequest conn) = some s' := by
  cases createOk with
  | false => exact exists_evhtpSendReply
  | true => exact exists_reqStartResponse rfl (by rintro ⟨⟩)

theorem exists_sizecb (conn : EvhtpConnection) (val : Option String) (createOk bufOk : Bool)
    (junk : Req) :
    ∃ s', sizecb val createOk bufOk junk s.nextId (s.newRequest conn) = some s' := by
  cases val with
  | none => exact exists_evhtpSendReply
  | some v =>
      simp only [sizecb]
      split
      · exact exists_evhtpSendReply
      · cases createOk with
        | false => exact exists_evhtpSendReply
        | true =>
            cases bufOk with
            | false => exact exists_reqStartResponse rfl (by rintro ⟨⟩)
            | true => exact exists_reqStartResponse rfl (by rintro -; simp [reqSetTypeBuf])

theorem evhtpUnsetAllHooks_eq (hconn : s.conn = some conn) (hrequest : conn.request = some x) :
    evhtpUnsetAllHooks x.id s = some
      { s with conn := some { conn with request := some { x with hooks := none } } } := by
  have hin : s.inProgress x.id = some (conn, x) := inProgress_eq_some.mpr ⟨hconn, hrequest, rfl⟩
  simp only [evhtpUnsetAllHooks, hin, Option.bind_eq_bind, Option.bind_some]
  rfl

theorem exists_sendUpstreamError (hconn : s.conn = some conn) (hrequest : conn.request = some x)
    (hc : s.heap[p]? = some c) : ∃ s', sendUpstreamError x.id p s = some s' := by
  have hunset := evhtpUnsetAllHooks_eq (s := s.use p) (by rw [use_conn, hconn]) hrequest
  obtain ⟨hlt, -⟩ := List.getElem?_eq_some_iff.mp hc
  simp [sendUpstreamError, hunset, reqFree, ServerState.setCell, hlt]

theorem exists_sendUpstreamFini (hconn : s.conn = some conn) (hrequest : conn.request = some x)
    (hc : s.heap[p]? = some c) (hreq : c.req.req = some x.id) :
    ∃ s', sendUpstreamFini p s = some s' := by
  have hunset := evhtpUnsetAllHooks_eq (s := s.use p) (by rw [use_conn, hconn]) hrequest
  obtain ⟨hlt, rfl⟩ := List.getElem?_eq_some_iff.mp hc
  simp [sendUpstreamFini, hunset, hreq, reqFree, ServerState.setCell, hlt]

theorem exists_evhtpRequestFree (hlinked : Linked s) (hconn : s.conn = some conn)
    (hrequest : conn.request = some x) : ∃ s', evhtpRequestFree s = some s' := by
  simp only [evhtpRequestFree, hconn, hrequest, Option.bind_eq_bind, Option.bind_some]
  cases hhooks : x.hooks with
  | none => simp
  | some p =>
      obtain ⟨c, hc, hreq⟩ := hlinked.hooked ((current_eq hconn hrequest).trans (by rw [hhooks]))
      obtain ⟨s', hs'⟩ := exists_sendUpstreamFini hconn hrequest hc hreq
      obtain ⟨d, -, rfl⟩ := sendUpstreamFini_spec hconn hrequest hs'
      simp [hs']

theorem exists_evhtpErrorHook (hlinked : Linked s) (hconn : s.conn = some conn)
    (hrequest : conn.request = some x) : ∃ s', evhtpErrorHook s = some s' := by
  simp only [evhtpErrorHook, hconn, hrequest, Option.bind_eq_bind, Option.bind_some]
  cases hhooks : x.hooks with
  | none => exact ⟨s, rfl⟩
  | some p =>
      obtain ⟨c, hc, -⟩ := hlinked.hooked ((current_eq hconn hrequest).trans (by rw [hhooks]))
      exact exists_sendUpstreamError hconn hrequest hc

theorem exists_evhtpConnectionFree (hlinked : Linked s) (hconn : s.conn = some conn) :
    ∃ s', evhtpConnectionFree s = some s' := by
  simp only [evhtpConnectionFree, hconn, Option.bind_eq_bind, Option.bind_some]
  cases hrequest : conn.request with
  | none => simp
  | some x =>
      obtain ⟨s₁, hs₁⟩ := exists_evhtpRequestFree hlinked hconn hrequest
      simp [hs₁]

/-- The write hook finds a reply to go on with, unless it was abandoned. -/
theorem exists_deliverOnWrite (hs : Watched s) (hlinked : Linked s) (hconn : s.conn = some conn)
    (hrequest : conn.request = some x) (hhook : conn.onWrite = some p) (halive : ¬ s.Abandoned) :
    ∃ s', deliverOnWrite s = some s' := by
  obtain ⟨c, hc⟩ : ∃ c, s.heap[p]? = some c :=
    ⟨_, List.getElem?_eq_getElem (hs.made conn p hconn hhook)⟩
  have hreq : c.req.reqType ≠ .none → c.req.req = some x.id := by
    intro htyped
    obtain ⟨y, hy, -, hhooks | ⟨-, hlost⟩⟩ := hs.typed conn p _ hconn hhook hc htyped
    · cases hrequest.symm.trans hy
      obtain ⟨d, hd, hreq⟩ := hlinked.hooked ((current_eq hconn hrequest).trans (by rw [hhooks]))
      cases hc.symm.trans hd
      exact hreq
    · exact absurd ⟨conn, p, _, hconn, hhook, hc, htyped, hlost⟩ halive
  have hconn' : (s.use p).conn = some conn := by rw [use_conn, hconn]
  have hc' : (s.use p).heap[p]? = some c := by rw [use_heap, hc]
  simp only [deliverOnWrite, sendUpstreamOnWrite, hconn, hrequest, hhook, hc',
    Option.bind_eq_bind, Option.bind_some]
  cases htype : c.req.reqType with
  | none => exact ⟨_, rfl⟩
  | line =>
      obtain ⟨s', hs'⟩ := exists_reqWriteLine hconn' hrequest hc' (hreq (by simp [htype]))
      exact ⟨s', by simp [hs']⟩
  | size =>
      have hbuf := hs.buffered _ (List.mem_of_getElem? hc) htype
      obtain ⟨s', hs'⟩ := exists_reqWriteBuf hconn' hrequest hc' (hreq (by simp [htype])) hbuf
      exact ⟨s', by simp [hs']⟩

/-- Only the write hook of an abandoned reply stops the server. -/
theorem exists_serverStep (hs : Watched s) (hlinked : Linked s) {e : ServerEvent}
    (he : e.Deliverable s) (halive : e = .onWrite → ¬ s.Abandoned) :
    ∃ s', serverStep e s = some s' := by
  cases e with
  | line createOk junk =>
      obtain ⟨conn, hconn, hidle⟩ := he
      obtain ⟨s', hs'⟩ := exists_linecb (s := s) conn createOk junk
      exact ⟨s', by simp [serverStep, evhtpRequestNew_eq hconn hidle, hs']⟩
  | size val createOk bufOk junk =>
      obtain ⟨conn, hconn, hidle⟩ := he
      obtain ⟨s', hs'⟩ := exists_sizecb (s := s) conn val createOk bufOk junk
      exact ⟨s', by simp [serverStep, evhtpRequestNew_eq hconn hidle, hs']⟩
  | other =>
      obtain ⟨conn, hconn, hidle⟩ := he
      simp [serverStep, evhtpRequestNew_eq hconn hidle, evhtpAnswer, ServerState.newRequest]
  | onWrite =>
      obtain ⟨conn, x, p, hconn, hrequest, hhook⟩ := he
      exact exists_deliverOnWrite hs hlinked hconn hrequest hhook (halive rfl)
  | release p =>
      have hp : p ∈ s.refs := he
      have hlt := hlinked.held hp
      simp [serverStep, deliverRelease, hp, reqFree, hlt]
  | error keep =>
      obtain ⟨conn, x, hconn, hrequest⟩ := he
      obtain ⟨s₁, hs₁⟩ := exists_evhtpErrorHook hlinked hconn hrequest
      cases keep with
      | true => exact ⟨s₁, by simp [serverStep, hs₁]⟩
      | false =>
          obtain ⟨conn', y, heap, stale, -, -, -, rfl⟩ := evhtpErrorHook_spec hs₁
          simp [serverStep, hs₁, evhtpConnectionFree, evhtpRequestFree]
  | requestDone =>
      obtain ⟨conn, x, hconn, hrequest, hfinished⟩ := he
      obtain ⟨s', hs'⟩ := exists_evhtpRequestFree hlinked hconn hrequest
      exact ⟨s', by simp [serverStep, deliverRequestDone, hconn, hrequest, hfinished, hs']⟩
  | close =>
      obtain ⟨conn, hconn⟩ := Option.ne_none_iff_exists'.mp he
      exact exists_evhtpConnectionFree hlinked hconn

theorem deliverable_of_step {e : ServerEvent} (h : serverStep e s = some s') :
    e.Deliverable s := by
  have hnew : ∀ {f : ServerState → Option ServerState}, (evhtpRequestNew s).bind f = some s' →
      ∃ conn, s.conn = some conn ∧ conn.request = none := by
    intro f hf
    obtain ⟨s₁, hs₁, -⟩ := Option.bind_eq_some_iff.mp hf
    obtain ⟨conn, hconn, hidle, -⟩ := evhtpRequestNew_eq_some hs₁
    exact ⟨conn, hconn, hidle⟩
  cases e with
  | line => exact hnew h
  | size => exact hnew h
  | other => exact hnew h
  | onWrite =>
      obtain ⟨conn, x, p, hconn, hrequest, hhook, -⟩ := (serverStep_spec h).onWrite_cases
      exact ⟨conn, x, p, hconn, hrequest, hhook⟩
  | release p => exact (serverStep_spec h).release_cases.1
  | error keep =>
      obtain ⟨s₁, hs₁, -⟩ := Option.bind_eq_some_iff.mp h
      obtain ⟨conn, x, -, -, hconn, hrequest, -⟩ := evhtpErrorHook_spec hs₁
      exact ⟨conn, x, hconn, hrequest⟩
  | requestDone =>
      obtain ⟨conn, hconn, h⟩ := Option.bind_eq_some_iff.mp h
      obtain ⟨x, hrequest, h⟩ := Option.bind_eq_some_iff.mp h
      exact ⟨conn, x, hconn, hrequest, (Option.ite_none_right_eq_some.mp h).1⟩
  | close =>
      obtain ⟨conn, hconn, -⟩ := evhtpConnectionFree_spec h
      exact Option.ne_none_iff_exists'.mpr ⟨conn, hconn⟩

end Alive

/-! ## How a reply is abandoned -/

section Abandon

variable {s s' : ServerState} {e : ServerEvent}

/-- The error hook runs for a reply under way, and the connection is kept. -/
theorem Watched.abandons (hs : Watched s) (hunfinished : s.Unfinished)
    (h : serverStep (.error true) s = some s') : s'.Abandoned := by
  obtain ⟨conn, x, p, hconn, hrequest, hfinished, hhooks⟩ := hunfinished
  obtain ⟨hhook, htyped⟩ := hs.unfinished conn x p hconn hrequest hfinished hhooks
  cases serverStep_spec h with
  | refused he => cases he
  | untyped he => cases he
  | typed he => cases he
  | error hconn' hrequest' hends =>
      cases hconn.symm.trans hconn'
      cases hrequest.symm.trans hrequest'
      cases hends with
      | unhooked hnone =>
          rw [hhooks] at hnone
          cases hnone
      | hooked hhooks' hc =>
          cases hhooks.symm.trans hhooks'
          obtain ⟨hlt, -⟩ := List.getElem?_eq_some_iff.mp hc
          have hkept := htyped _ hc
          refine ⟨_, p, _, rfl, hhook, List.getElem?_set_self hlt, ?_, ?_⟩
          · rw [Cell.drop_req]
            exact hkept
          · rw [Cell.drop_req]
            rfl

/-- The events that leave an abandoned reply as it is. -/
def ServerEvent.Waits (e : ServerEvent) : Prop :=
  e = .error true ∨ ∃ p, e = .release p

theorem Writes.not_abandoned {p : ReqPtr} (h : Writes p s s')
    (hhook : ∀ conn, s.conn = some conn → conn.onWrite = some p) : ¬ s'.Abandoned := by
  have hwrote : ∀ {c : Cell} {x : EvhtpRequest} {r : Req} {refs data last},
      s.heap[p]? = some c → r.req = some x.id → ¬ (s.wrote p c x r refs data last).Abandoned := by
    rintro c x r refs data last hc hreq ⟨conn, j, d, hconn, hj, hd, -, hlost⟩
    cases last with
    | true =>
        cases hconn
        cases hj
    | false =>
        cases (hhook conn hconn).symm.trans hj
        rw [ServerState.wrote, getElem?_set_of_some hc, if_pos rfl] at hd
        cases hd
        rw [hreq] at hlost
        cases hlost
  cases h with
  | line hc _ _ _ hreq => exact hwrote hc hreq
  | size hc _ _ _ hreq => exact hwrote hc hreq

theorem abandoned_released_iff {p : ReqPtr} {c : Cell} (hc : s.heap[p]? = some c)
    (refs : List ReqPtr) :
    ServerState.Abandoned { s with refs := refs, heap := s.heap.set p c.drop } ↔
      s.Abandoned := by
  constructor
  · rintro ⟨conn, j, d, hconn, hhook, hd, htyped, hlost⟩
    rw [getElem?_set_of_some hc] at hd
    by_cases hj : j = p
    · rw [if_pos hj] at hd
      cases hd
      rw [Cell.drop_req] at htyped hlost
      exact ⟨conn, j, c, hconn, hhook, hj ▸ hc, htyped, hlost⟩
    · rw [if_neg hj] at hd
      exact ⟨conn, j, d, hconn, hhook, hd, htyped, hlost⟩
  · rintro ⟨conn, j, d, hconn, hhook, hd, htyped, hlost⟩
    by_cases hj : j = p
    · subst hj
      cases hc.symm.trans hd
      obtain ⟨hlt, -⟩ := List.getElem?_eq_some_iff.mp hc
      refine ⟨conn, j, _, hconn, hhook, List.getElem?_set_self hlt, ?_, ?_⟩
      · rw [Cell.drop_req]
        exact htyped
      · rw [Cell.drop_req]
        exact hlost
    · refine ⟨conn, j, d, hconn, hhook, ?_, htyped, hlost⟩
      rw [← hd]
      exact List.getElem?_set_ne (Ne.symm hj)

/-- An abandoned reply stays abandoned as long as the server only waits. -/
theorem Watched.stays_abandoned (hs : Watched s) (hlinked : Linked s) (h : serverStep e s = some s')
    (habandoned : s.Abandoned) (hwaits : e.Waits) : s'.Abandoned := by
  rcases hwaits with rfl | ⟨p, rfl⟩
  · obtain ⟨conn, p, c, hconn, hhook, hc, htyped, hlost⟩ := habandoned
    obtain ⟨x, hrequest, -, hhooks | ⟨hnone, -⟩⟩ := hs.typed conn p c hconn hhook hc htyped
    · obtain ⟨d, hd, hreq⟩ := hlinked.hooked ((current_eq hconn hrequest).trans (by rw [hhooks]))
      cases hc.symm.trans hd
      rw [hlost] at hreq
      cases hreq
    · cases serverStep_spec h with
      | refused he => cases he
      | untyped he => cases he
      | typed he => cases he
      | error hconn' hrequest' hends =>
          cases hconn.symm.trans hconn'
          cases hrequest.symm.trans hrequest'
          cases hends with
          | unhooked => exact ⟨_, p, c, rfl, hhook, hc, htyped, hlost⟩
          | hooked hhooks =>
              rw [hnone] at hhooks
              cases hhooks
  · obtain ⟨-, c, hc, rfl⟩ := (serverStep_spec h).release_cases
    exact (abandoned_released_iff hc _).mpr habandoned

/-- A reply is abandoned by the error hook only, and stays so until the connection is
freed. -/
theorem Watched.abandoned_iff (hs : Watched s) (hlinked : Linked s)
    (h : serverStep e s = some s') : s'.Abandoned ↔
      s.Abandoned ∧ e.Waits ∨ s.Unfinished ∧ e = .error true := by
  refine ⟨?_, ?_⟩
  · intro habandoned
    cases serverStep_spec h with
    | refused _ hconn hidle =>
        obtain ⟨_, p, c, ⟨⟩, hhook, hc, htyped, -⟩ := habandoned
        obtain ⟨x, hrequest, -⟩ := hs.typed _ p c hconn hhook hc htyped
        rw [hidle] at hrequest
        cases hrequest
    | untyped _ _ _ _ htype =>
        obtain ⟨_, p, c, ⟨⟩, ⟨⟩, hc, htyped, -⟩ := habandoned
        cases (started_getElem? _ _ _ _).symm.trans hc
        exact absurd htype htyped
    | typed _ _ _ _ _ hwrites =>
        refine absurd habandoned (hwrites.not_abandoned ?_)
        rintro _ ⟨⟩
        rfl
    | @wrote _ _ conn x p hconn _ hhook hwrites =>
        refine absurd habandoned (hwrites.not_abandoned ?_)
        intro conn' hconn'
        rw [use_conn] at hconn'
        cases hconn.symm.trans hconn'
        exact hhook
    | wroteNothing hconn _ hhook hc htype =>
        obtain ⟨conn', p', c', hconn', hhook', hc', htyped, -⟩ := habandoned
        rw [use_conn] at hconn'
        rw [use_heap] at hc'
        cases hconn.symm.trans hconn'
        cases hhook.symm.trans hhook'
        cases hc.symm.trans hc'
        exact absurd htype htyped
    | released _ hc =>
        exact Or.inl ⟨(abandoned_released_iff hc _).mp habandoned, Or.inr ⟨_, rfl⟩⟩
    | @error _ conn x heap stale keep hconn hrequest hends =>
        cases keep with
        | false =>
            obtain ⟨_, -, -, ⟨⟩, -⟩ := habandoned
        | true =>
            obtain ⟨_, p, d, ⟨⟩, hhook, hd, htyped, -⟩ := habandoned
            obtain ⟨d₀, hd₀, htype, -⟩ := hends.cell hd
            rw [htype] at htyped
            obtain ⟨y, hy, hfinished, hhooks | ⟨-, hlost⟩⟩ :=
              hs.typed conn p d₀ hconn hhook hd₀ htyped
            · exact Or.inr ⟨⟨conn, y, p, hconn, hy, hfinished, hhooks⟩, rfl⟩
            · exact Or.inl ⟨⟨conn, p, d₀, hconn, hhook, hd₀, htyped, hlost⟩, Or.inl rfl⟩
    | @requestDone _ conn x heap stale hconn hrequest hfinished hends =>
        obtain ⟨_, p, d, ⟨⟩, hhook, hd, htyped, -⟩ := habandoned
        obtain ⟨d₀, hd₀, htype, -⟩ := hends.cell hd
        rw [htype] at htyped
        obtain ⟨y, hy, hopen, -⟩ := hs.typed conn p d₀ hconn hhook hd₀ htyped
        cases hrequest.symm.trans hy
        rw [hfinished] at hopen
        cases hopen
    | close => obtain ⟨_, -, -, ⟨⟩, -⟩ := habandoned
    | closeIdle => obtain ⟨_, -, -, ⟨⟩, -⟩ := habandoned
  · rintro (⟨habandoned, hwaits⟩ | ⟨hunfinished, rfl⟩)
    · exact hs.stays_abandoned hlinked h habandoned hwaits
    · exact hs.abandons hunfinished h

end Abandon

/-! ## Runs -/

section Run

variable {es : List ServerEvent} {s : ServerState}

theorem watched_of_run (h : serverSystem.run es = some s) : Watched s := by
  refine serverSystem.run_induction (P := fun _ s => Watched s) ?_ ?_ es s h
  · refine watched_of_unhooked ?_ ?_ ?_ ?_
    · rintro _ _ ⟨⟩ ⟨⟩
    · rintro _ _ _ ⟨⟩ ⟨⟩
    · rintro _ _ _ ⟨⟩ ⟨⟩
    · rintro _ ⟨⟩
  · intro pre e t t' _ ht hstep
    exact (serverStep_spec hstep).watched ht

/-- The run in which a reply is abandoned. -/
theorem abandoned_iff_of_run (h : serverSystem.run es = some s) : s.Abandoned ↔
    ∃ pre post t, es = pre ++ .error true :: post ∧ serverSystem.run pre = some t ∧
      t.Unfinished ∧ ∀ d ∈ post, d.Waits := by
  refine serverSystem.run_induction (P := fun es s => s.Abandoned ↔
    ∃ pre post t, es = pre ++ .error true :: post ∧ serverSystem.run pre = some t ∧
      t.Unfinished ∧ ∀ d ∈ post, d.Waits) ?_ ?_ es s h
  · constructor
    · rintro ⟨_, _, _, ⟨⟩, ⟨⟩, -⟩
    · rintro ⟨pre, post, -, hnil, -⟩
      simp at hnil
  · intro es e s s' hrun ih hstep
    rw [(watched_of_run hrun).abandoned_iff (linked_of_run hrun) hstep, ih]
    constructor
    · rintro (⟨⟨pre, post, t, rfl, hpre, ht, hpost⟩, he⟩ | ⟨hs, rfl⟩)
      · refine ⟨pre, post ++ [e], t, by simp, hpre, ht, ?_⟩
        intro d hd
        rcases List.mem_append.mp hd with hold | hnew
        · exact hpost d hold
        · exact List.mem_singleton.mp hnew ▸ he
      · exact ⟨es, [], s, rfl, hrun, hs, by simp⟩
    · rintro ⟨pre, post, t, hsplit, hpre, ht, hpost⟩
      rcases List.eq_nil_or_concat' post with rfl | ⟨post, d, rfl⟩
      · obtain ⟨rfl, hlast⟩ := List.append_inj' hsplit rfl
        cases hlast
        cases hrun.symm.trans hpre
        exact Or.inr ⟨ht, rfl⟩
      · rw [← List.cons_append, ← List.append_assoc] at hsplit
        obtain ⟨rfl, hlast⟩ := List.append_inj' hsplit rfl
        cases hlast
        refine Or.inl ⟨⟨pre, post, t, rfl, hpre, ht, fun d hd => ?_⟩, ?_⟩
        · exact hpost d (List.mem_append_left _ hd)
        · exact hpost e (List.mem_append_right _ (List.mem_singleton_self e))

/-- In every run the server handles exactly the events that libevhtp and libevent may
deliver, but for the write callback after the error hook has run for a reply under
way and libevhtp has kept the connection, with nothing but releases and errors since
then: of that the server dies, even if the freed memory keeps what it held.  Every
chunk gets its evbuffer and its reference to the bytes. -/
theorem server_handles_iff (h : serverSystem.run es = some s) (e : ServerEvent) :
    (∃ s', serverStep e s = some s') ↔
      e.Deliverable s ∧ ¬ (e = .onWrite ∧
        ∃ pre post t, es = pre ++ .error true :: post ∧ serverSystem.run pre = some t ∧
          t.Unfinished ∧ ∀ d ∈ post, d.Waits) := by
  rw [← abandoned_iff_of_run h]
  constructor
  · rintro ⟨s', hs'⟩
    refine ⟨deliverable_of_step hs', ?_⟩
    rintro ⟨rfl, conn, p, c, hconn, hhook, hc, htyped, hlost⟩
    obtain ⟨conn', x, p', hconn', hrequest, hhook', hwrites | ⟨d, hd, htype, -⟩⟩ :=
      (serverStep_spec hs').onWrite_cases
    · cases hconn.symm.trans hconn'
      cases hhook.symm.trans hhook'
      obtain ⟨d, -, y, hd, -, -, -, hreq⟩ := hwrites.cell
      rw [use_heap] at hd
      cases hc.symm.trans hd
      rw [hlost] at hreq
      cases hreq
    · cases hconn.symm.trans hconn'
      cases hhook.symm.trans hhook'
      cases hc.symm.trans hd
      exact absurd htype htyped
  · rintro ⟨he, halive⟩
    exact exists_serverStep (watched_of_run h) (linked_of_run h) he
      fun hwrite habandoned => halive ⟨hwrite, habandoned⟩

/-- An error during the lines kills the server with the next write callback, where
libevhtp keeps the connection. -/
theorem server_handles_iff_line_error :
    ∃ s, serverSystem.run [.line true Req.zero, .error true] = some s ∧
      ServerEvent.onWrite.Deliverable s ∧ serverStep .onWrite s = none := by
  have hfirst : ∃ t, serverSystem.run [.line true Req.zero] = some t ∧ t.Unfinished :=
    ⟨_, rfl, _, _, _, rfl, rfl, rfl, rfl⟩
  obtain ⟨t, ht, hunfinished⟩ := hfirst
  obtain ⟨s, hs, hdeliver⟩ : ∃ s, serverSystem.run [.line true Req.zero, .error true] = some s ∧
      ServerEvent.onWrite.Deliverable s := ⟨_, rfl, _, _, _, rfl, rfl, rfl⟩
  refine ⟨s, hs, hdeliver, ?_⟩
  cases hstep : serverStep .onWrite s with
  | none => rfl
  | some s' =>
      obtain ⟨-, halive⟩ := (server_handles_iff hs .onWrite).mp ⟨s', hstep⟩
      exact absurd ⟨rfl, [.line true Req.zero], [], t, rfl, ht, hunfinished, by simp⟩ halive

end Run

end EvhtpHttp.Server

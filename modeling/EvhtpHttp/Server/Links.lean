import EvhtpHttp.Server.ResponseSpec

/-!
# Requests and their hooks

A `struct req` points to its request exactly as long as the hooks of that
request point back to it.  Only the request in progress has hooks, so at most
one `struct req` has a request.
-/

namespace EvhtpHttp.Server

open EvhtpHttp.Support

/-- The request in progress with the argument of its hooks. -/
def ServerState.current (s : ServerState) : Option (EvhtpPtr × Option ReqPtr) :=
  (s.conn.bind EvhtpConnection.request).map fun x => (x.id, x.hooks)

theorem current_eq {s : ServerState} {conn : EvhtpConnection} {x : EvhtpRequest}
    (hconn : s.conn = some conn) (hrequest : conn.request = some x) :
    s.current = some (x.id, x.hooks) := by
  simp [ServerState.current, hconn, hrequest]

theorem current_eq_none {s : ServerState} {conn : EvhtpConnection}
    (hconn : s.conn = some conn) (hidle : conn.request = none) : s.current = none := by
  simp [ServerState.current, hconn, hidle]

/-- The pointers between a request and its `struct req`, whose error or fini hook
has run when it points to no request any more.  A release callback has a `struct
req` that was made. -/
structure Linked (s : ServerState) : Prop where
  owned : ∀ {p : ReqPtr} {c : Cell} {q : EvhtpPtr}, s.heap[p]? = some c → c.req.req = some q →
    s.current = some (q, some p)
  hooked : ∀ {p : ReqPtr} {q : EvhtpPtr}, s.current = some (q, some p) →
    ∃ c, s.heap[p]? = some c ∧ c.req.req = some q
  ended : ∀ {p : ReqPtr} {c : Cell}, s.heap[p]? = some c →
    c.ended = if c.req.req = none then 1 else 0
  held : ∀ {p : ReqPtr}, p ∈ s.refs → p < s.heap.length

theorem getElem?_set_of_some {α : Type*} {l : List α} {i j : ℕ} {x y : α}
    (hx : l[i]? = some x) : (l.set i y)[j]? = if j = i then some y else l[j]? := by
  obtain ⟨hlt, -⟩ := List.getElem?_eq_some_iff.mp hx
  by_cases hij : j = i
  · subst hij
    simp [hlt]
  · rw [if_neg hij, List.getElem?_set_ne (Ne.symm hij)]

section Links

variable {s s' : ServerState} {p : ReqPtr} {c c' : Cell}

theorem linked_start : Linked ServerState.start := by
  constructor <;> simp [ServerState.start, ServerState.current]

namespace Linked

theorem req_eq_none (hs : Linked s) (hfree : ∀ q p, s.current ≠ some (q, some p))
    (hc : s.heap[p]? = some c) : c.req.req = none := by
  by_contra hreq
  obtain ⟨q, hq⟩ := Option.ne_none_iff_exists'.mp hreq
  exact hfree q p (hs.owned hc hq)

theorem replace (hs : Linked s) (hc : s.heap[p]? = some c) (hheap : s'.heap = s.heap.set p c')
    (hreq : c'.req.req = c.req.req) (hended : c'.ended = c.ended)
    (hcurrent : s'.current = s.current) (hrefs : ∀ j ∈ s'.refs, j ∈ s.refs ∨ j = p) :
    Linked s' := by
  have hget : ∀ j, s'.heap[j]? = if j = p then some c' else s.heap[j]? := by
    intro j
    rw [hheap]
    exact getElem?_set_of_some hc
  constructor
  · intro j d q hd hq
    rw [hget] at hd
    rw [hcurrent]
    by_cases hj : j = p
    · subst hj
      rw [if_pos rfl] at hd
      cases hd
      exact hs.owned hc (hreq ▸ hq)
    · rw [if_neg hj] at hd
      exact hs.owned hd hq
  · intro j q hq
    rw [hcurrent] at hq
    obtain ⟨d, hd, hdq⟩ := hs.hooked hq
    rw [hget]
    by_cases hj : j = p
    · subst hj
      cases hc.symm.trans hd
      exact ⟨c', if_pos rfl, hreq.trans hdq⟩
    · exact ⟨d, by rw [if_neg hj, hd], hdq⟩
  · intro j d hd
    rw [hget] at hd
    by_cases hj : j = p
    · rw [if_pos hj] at hd
      cases hd
      rw [hended, hreq]
      exact hs.ended hc
    · rw [if_neg hj] at hd
      exact hs.ended hd
  · intro j hj
    rw [hheap, List.length_set]
    rcases hrefs j hj with hold | rfl
    · exact hs.held hold
    · exact (List.getElem?_eq_some_iff.mp hc).1

theorem idle (hs : Linked s) (hidle : s.current = none)
    (hfree : ∀ q p, s'.current ≠ some (q, some p)) (hheap : s'.heap = s.heap)
    (hrefs : s'.refs = s.refs) : Linked s' := by
  constructor
  · intro p c q hc hq
    rw [hheap] at hc
    rw [hs.req_eq_none (by simp [hidle]) hc] at hq
    cases hq
  · intro p q hq
    exact absurd hq (hfree q p)
  · intro p c hc
    rw [hheap] at hc
    exact hs.ended hc
  · intro p hp
    rw [hrefs] at hp
    rw [hheap]
    exact hs.held hp

theorem started (hs : Linked s) (hidle : s.current = none) {r : Req}
    (hr : r.req = some s.nextId) (finished : Bool) (reply : Reply) :
    Linked (s.started r finished reply) := by
  have hcurrent : (s.started r finished reply).current =
      some (s.nextId, some s.heap.length) := rfl
  have hget : ∀ j, (s.started r finished reply).heap[j]? =
      if j = s.heap.length then some ⟨r, 0, 0, 0⟩ else s.heap[j]? := by
    intro j
    simp only [ServerState.started, List.getElem?_append, List.getElem?_singleton]
    by_cases hj : j = s.heap.length
    · simp [hj]
    · by_cases hlt : j < s.heap.length
      · simp [hlt, hj]
      · have hlarge : s.heap.length < j := by omega
        simp [hlt, hj, Nat.sub_ne_zero_of_lt hlarge]
  have hnone : ∀ {j : ReqPtr} {d : Cell}, s.heap[j]? = some d → d.req.req = none := fun hc =>
    hs.req_eq_none (by simp [hidle]) hc
  constructor
  · intro j d q hd hq
    rw [hget] at hd
    by_cases hj : j = s.heap.length
    · rw [if_pos hj] at hd
      cases hd
      rw [hcurrent, hj, Option.some.inj (hr.symm.trans hq)]
    · rw [if_neg hj] at hd
      rw [hnone hd] at hq
      cases hq
  · intro j q hq
    rw [hcurrent] at hq
    cases hq
    exact ⟨_, by rw [hget, if_pos rfl], hr⟩
  · intro j d hd
    rw [hget] at hd
    by_cases hj : j = s.heap.length
    · rw [if_pos hj] at hd
      cases hd
      simp [hr]
    · rw [if_neg hj] at hd
      exact hs.ended hd
  · intro j hj
    simp only [ServerState.started, List.length_append, List.length_singleton]
    exact Nat.lt_succ_of_lt (hs.held hj)

/-- The end of the request in progress ends its `struct req`, and no other had a
request. -/
theorem cells_of_ends (hs : Linked s) {conn : EvhtpConnection} {x : EvhtpRequest}
    {heap : List Cell} {stale : ℕ} (hconn : s.conn = some conn)
    (hrequest : conn.request = some x) (h : Ends x s heap stale) (hc : heap[p]? = some c) :
    c.req.req = none ∧ c.ended = 1 := by
  have hcurrent := current_eq hconn hrequest
  have hother : ∀ {j : ReqPtr} {d : Cell}, s.heap[j]? = some d → x.hooks ≠ some j →
      d.req.req = none ∧ d.ended = 1 := by
    intro j d hd hj
    have hnone : d.req.req = none := by
      by_contra hreq
      obtain ⟨q, hq⟩ := Option.ne_none_iff_exists'.mp hreq
      have howner := hs.owned hd hq
      rw [hcurrent] at howner
      exact hj (Prod.mk.inj (Option.some.inj howner)).2
    exact ⟨hnone, by rw [hs.ended hd, if_pos hnone]⟩
  cases h with
  | unhooked hhooks => exact hother hc (by simp [hhooks])
  | @hooked j d hhooks hd =>
      rw [getElem?_set_of_some hd] at hc
      by_cases hj : p = j
      · rw [if_pos hj] at hc
        cases hc
        rw [hhooks] at hcurrent
        obtain ⟨d₀, hd₀, hreq⟩ := hs.hooked hcurrent
        cases hd.symm.trans hd₀
        have hended : d.ended = 0 := by
          rw [hs.ended hd, hreq]
          simp
        rw [Cell.drop_req, Cell.drop_ended]
        exact ⟨rfl, by rw [Cell.endReq, hended]⟩
      · rw [if_neg hj] at hc
        refine hother hc ?_
        rw [hhooks]
        exact fun heq => hj (Option.some.inj heq).symm

theorem ends (hs : Linked s) {conn : EvhtpConnection} {x : EvhtpRequest} {heap : List Cell}
    {stale : ℕ} (hconn : s.conn = some conn) (hrequest : conn.request = some x)
    (h : Ends x s heap stale) (hfree : ∀ q p, s'.current ≠ some (q, some p))
    (hheap : s'.heap = heap) (hrefs : s'.refs = s.refs) : Linked s' := by
  constructor
  · intro j d q hd hq
    rw [hheap] at hd
    rw [(hs.cells_of_ends hconn hrequest h hd).1] at hq
    cases hq
  · intro j q hq
    exact absurd hq (hfree q j)
  · intro j d hd
    rw [hheap] at hd
    obtain ⟨hnone, hended⟩ := hs.cells_of_ends hconn hrequest h hd
    rw [hended, if_pos hnone]
  · intro j hj
    have hlength : heap.length = s.heap.length := by
      cases h with
      | unhooked => rfl
      | hooked => exact List.length_set
    rw [hheap, hlength]
    rw [hrefs] at hj
    exact hs.held hj

theorem writes (hs : Linked s) (h : Writes p s s') : Linked s' := by
  have hcurrent : ∀ {c conn x} (r refs data last), s.conn = some conn → conn.request = some x →
      (s.wrote p c x r refs data last).current = s.current := by
    intro c conn x r refs data last hconn hrequest
    rw [current_eq hconn hrequest]
    cases last with
    | true => rfl
    | false => exact current_eq hconn hrequest
  cases h with
  | line hc htype hconn hrequest =>
      exact hs.replace hc rfl rfl rfl (hcurrent _ _ _ _ hconn hrequest) fun _ => Or.inl
  | size hc htype hconn hrequest =>
      refine hs.replace hc rfl rfl rfl (hcurrent _ _ _ _ hconn hrequest) ?_
      intro j hj
      simpa [ServerState.wrote] using hj

theorem use (hs : Linked s) (p : ReqPtr) : Linked (s.use p) := by
  rw [use_eq]
  exact ⟨hs.owned, hs.hooked, hs.ended, hs.held⟩

end Linked

theorem ServerStep.linked {e : ServerEvent} (h : ServerStep e s s') (hs : Linked s) :
    Linked s' := by
  cases h with
  | refused _ hconn hidle =>
      refine hs.idle (current_eq_none hconn hidle) ?_ rfl rfl
      simp [ServerState.current, ServerState.answered]
  | untyped _ hconn hidle hr => exact hs.started (current_eq_none hconn hidle) hr.req _ _
  | typed _ hconn hidle hr _ hwrites =>
      exact (hs.started (current_eq_none hconn hidle) hr.req _ _).writes hwrites
  | wrote _ _ _ hwrites => exact (hs.use _).writes hwrites
  | wroteNothing => exact hs.use _
  | released hp hc =>
      exact hs.replace hc rfl (by rw [Cell.drop_req]) (Cell.drop_ended _) rfl
        fun _ hj => Or.inl (List.mem_of_mem_erase hj)
  | @error _ conn x heap stale keep hconn hrequest hends =>
      refine hs.ends hconn hrequest hends ?_ rfl rfl
      cases keep <;> simp [ServerState.current]
  | requestDone hconn hrequest _ hends =>
      exact hs.ends hconn hrequest hends (by simp [ServerState.current]) rfl rfl
  | close hconn hrequest hends =>
      exact hs.ends hconn hrequest hends (by simp [ServerState.current]) rfl rfl
  | closeIdle hconn hidle =>
      exact hs.idle (current_eq_none hconn hidle) (by simp [ServerState.current]) rfl rfl

end Links

theorem linked_of_run {es : List ServerEvent} {s : ServerState}
    (h : serverSystem.run es = some s) : Linked s :=
  serverSystem.invariant linked_start
    (fun _ _ _ hs hstep => (serverStep_spec hstep).linked hs) s ⟨es, h⟩

end EvhtpHttp.Server

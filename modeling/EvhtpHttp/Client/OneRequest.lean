import EvhtpHttp.Client.ManagerCalls

/-!
# One request at a time

A connection has a queued request or a request in flight, never both, and what
is queued is issued on an open connection only.  The complaints of
`clt_mgr_conn_http_req_event` and `clt_req_create` about a request in the way or
a connection that is gone are never printed.
-/

namespace EvhtpHttp.Client

open EvhtpHttp.Support

/-- `clt_req_create` never found a request in progress or a closed connection. -/
def ClientReq.NoMisuse (r : ClientReq) : Prop :=
  .reqNotNull ∉ r.messages ∧ .connIsNull ∉ r.messages

theorem FreshReq.noMisuse {r : ClientReq} (h : FreshReq r) : r.NoMisuse := by
  obtain ⟨ok, addr, port, rfl⟩ := h.eq_new
  exact ⟨List.not_mem_nil, List.not_mem_nil⟩

theorem Framed.noMisuse {r r' : ClientReq} (h : Framed r r') (hr : r.NoMisuse) :
    r'.NoMisuse := by
  rw [ClientReq.NoMisuse, h.messages]
  exact hr

theorem cltReqCreate_noMisuse {strdupOk newOk : Bool} {uri : Option String} {keepalive rc : ℤ}
    {r r' : ClientReq} (hopen : r.con ≠ none) (hidle : r.req = none) (hr : r.NoMisuse)
    (h : cltReqCreate strdupOk newOk uri keepalive r = some (r', rc)) : r'.NoMisuse := by
  obtain ⟨con, hcon⟩ := Option.ne_none_iff_exists'.mp hopen
  obtain ⟨hreq, hgone⟩ := hr
  cases uri with
  | none => simp [cltReqCreate, hcon, hidle] at h
  | some uri =>
      simp only [cltReqCreate, hcon, hidle] at h
      split at h
      · cases h
        exact ⟨by simpa using hreq, by simpa using hgone⟩
      · split at h
        · cases h
          exact ⟨by simpa using hreq, by simpa using hgone⟩
        · cases h
          exact ⟨hreq, hgone⟩

/-- No connection of a manager ever has its request misused. -/
theorem noMisuse_of_reachable {cfg : MgrConfig} {m : CltMgr}
    (h : (cltMgrSystem cfg).Reachable m) :
    ∀ c ∈ m.mgrConnList ++ m.freedConns, c.req.NoMisuse := by
  intro c hc
  refine (request_invariant (P := ClientReq.NoMisuse) (fun r hr => hr.noMisuse) ?_ ?_ h c hc).2
  · intro strdupOk newOk uri keepalive rc r r' hopen hidle hr hcreate
    exact cltReqCreate_noMisuse hopen hidle hr hcreate
  · intro e r r' he hlinked hr hcall
    exact (hcall.framed hlinked he).noMisuse hr

/-- The manager never found a request in the way of the queued one. -/
theorem reqInProgress_not_mem {cfg : MgrConfig} {m : CltMgr}
    (h : (cltMgrSystem cfg).Reachable m) (id : ℕ) : .reqInProgress id ∉ m.messages := by
  have hboth := (cltMgrSystem cfg).invariant
    (P := fun m => CltMgrOk m ∧ .reqInProgress id ∉ m.messages) ?_ ?_ m h
  · exact hboth.2
  · refine ⟨cltMgrOk_init cfg, ?_⟩
    have hnone : (cltMgrSystem cfg).init.messages = [] := by
      unfold cltMgrSystem cltMgrStart cltMgrSetRunningTimer
      split
      · rfl
      · rfl
    simp [hnone]
  · rintro m e m' ⟨hm, hnone⟩ he
    exact ⟨(cltMgrStep_refines hm he).1, fun hid => hnone ((cltMgrStep_owns hm he).messages id hid)⟩

/-- At every event boundary of every run no connection has both a queued request
and one in flight, a queued request is delivered on an open connection without a
request, and nothing was ever found in its way. -/
theorem one_request_per_connection {cfg : MgrConfig} {es : List LoopEvent} {m : CltMgr}
    (h : (cltMgrSystem cfg).run es = some m) :
    (∀ c ∈ m.mgrConnList, ¬ (isPending c.evNewHttpReq = true ∧ c.req.req ≠ none)) ∧
      (∀ id strdupOk newOk m', cltMgrStep (.newHttpReq id strdupOk newOk) m = some m' →
        ∃ c ∈ m.mgrConnList, c.id = id ∧ c.req.req = none ∧ c.req.con ≠ none) ∧
      (∀ id, .reqInProgress id ∉ m.messages) ∧
      ∀ c ∈ m.mgrConnList ++ m.freedConns,
        .reqNotNull ∉ c.req.messages ∧ .connIsNull ∉ c.req.messages := by
  have hreach : (cltMgrSystem cfg).Reachable m := ⟨es, h⟩
  have hm := cltMgrOk_of_reachable hreach
  have hidle : ∀ c ∈ m.mgrConnList, isPending c.evNewHttpReq = true →
      c.req.req = none ∧ c.req.con ≠ none := by
    intro c hc
    obtain ⟨pre, post, hlist⟩ := List.append_of_mem hc
    exact queued_idle (hm.entryOk hlist)
  refine ⟨?_, ?_, reqInProgress_not_mem hreach, noMisuse_of_reachable hreach⟩
  · rintro c hc ⟨hqueued, hflight⟩
    exact hflight (hidle c hc hqueued).1
  · intro id strdupOk newOk m' hstep
    obtain ⟨pre, c, post, m₁, c', hlist, hid, hdeliver, -⟩ := onConn_eq_some hstep
    have hmem : c ∈ m.mgrConnList := by simp [hlist]
    have hqueued : isPending c.evNewHttpReq = true := by
      by_contra hnot
      simp only [deliverNewHttpReq, hnot, if_false] at hdeliver
      cases hdeliver
    exact ⟨c, hmem, hid, hidle c hmem hqueued⟩

/-- The second request of a connection is queued when its first one ends. -/
theorem one_request_per_connection_next :
    ∃ m, (cltMgrSystem oneHostConfig).run
        [.timer fun _ => allocAll, .newHttpReq 0 true true, .data 0 .headersStart,
          .complete 0 200] = some m ∧
      (∃ c ∈ m.mgrConnList, c.id = 0 ∧ isPending c.evNewHttpReq = true) ∧
      ∀ c ∈ m.mgrConnList, ¬ (isPending c.evNewHttpReq = true ∧ c.req.req ≠ none) := by
  have hrun : ∃ m, (cltMgrSystem oneHostConfig).run
        [.timer fun _ => allocAll, .newHttpReq 0 true true, .data 0 .headersStart,
          .complete 0 200] = some m ∧
      ∃ c ∈ m.mgrConnList, c.id = 0 ∧ isPending c.evNewHttpReq = true :=
    ⟨_, rfl, _, List.mem_cons_self, rfl, rfl⟩
  obtain ⟨m, hm, hqueued⟩ := hrun
  exact ⟨m, hm, hqueued, (one_request_per_connection hm).1⟩

end EvhtpHttp.Client

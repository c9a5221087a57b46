import EvhtpHttp.Client.Calls

/-!
# The calls a manager makes

Each event of a manager, seen from the request of one connection: the connection
was just made, or its request was asked for or called, as libevent and libevhtp
may do.
-/

namespace EvhtpHttp.Client

open EvhtpHttp.Support

/-- What one event of a manager may do with the request of a connection: either
it asks for a request on an open connection without one, or libevent and
libevhtp make some calls. -/
inductive ReqMove (r r' : ClientReq) : Prop
  | calls {es : List ReqEvent} (hes : ∀ e ∈ es, e.isCreate = false) (h : ReqCalls es r r')
  | create {strdupOk newOk : Bool} {uri : Option String} {keepalive rc : ℤ}
      (hopen : r.con ≠ none) (hidle : r.req = none)
      (h : cltReqCreate strdupOk newOk uri keepalive r = some (r', rc))

theorem ReqMove.stay (r : ClientReq) : ReqMove r r :=
  ReqMove.calls (by simp) (ReqCalls.nil r)

theorem ReqMove.call {e : ReqEvent} {r r' : ClientReq} (he : e.isCreate = false)
    (h : ReqCall e r r') : ReqMove r r' :=
  ReqMove.calls (by simpa using he) h.calls

/-- A connection that was just opened. -/
structure FreshConn (c : CltMgrConn) : Prop where
  req : FreshReq c.req
  curReqCount : c.curReqCount = 0

/-- As many requests were made on the connection as were counted. -/
def Counts (c c' : CltMgrConn) : Prop :=
  (c'.req.requests.length : ℤ) - c'.curReqCount = c.req.requests.length - c.curReqCount

theorem Counts.of_framed {c c' : CltMgrConn} (hreq : Framed c.req c'.req)
    (hcur : c'.curReqCount = c.curReqCount) : Counts c c' := by
  rw [Counts, hreq.length, hcur]

/-- Connections were added at the end of the list, none was freed, and no
request was reported to be in the way of another one. -/
structure Grows (m m' : CltMgr) : Prop where
  freed : m'.freedConns = m.freedConns
  conns : ∃ news, m'.mgrConnList = m.mgrConnList ++ news ∧ ∀ c ∈ news, FreshConn c
  messages : ∀ id, .reqInProgress id ∈ m'.messages → .reqInProgress id ∈ m.messages

namespace Grows

theorem of_same {m m' : CltMgr} (hconns : m'.mgrConnList = m.mgrConnList)
    (hfreed : m'.freedConns = m.freedConns)
    (hmessages : ∀ id, .reqInProgress id ∈ m'.messages → .reqInProgress id ∈ m.messages) :
    Grows m m' :=
  ⟨hfreed, ⟨[], by simp [hconns], by simp⟩, hmessages⟩

theorem refl (m : CltMgr) : Grows m m :=
  of_same rfl rfl fun _ h => h

theorem trans {m m₁ m' : CltMgr} (h : Grows m m₁) (h' : Grows m₁ m') : Grows m m' := by
  obtain ⟨news, hlist, hnews⟩ := h.conns
  obtain ⟨news', hlist', hnews'⟩ := h'.conns
  refine ⟨h'.freed.trans h.freed, ⟨news ++ news', by simp [hlist', hlist], ?_⟩, ?_⟩
  · intro c hc
    rcases List.mem_append.mp hc with hc | hc
    · exact hnews c hc
    · exact hnews' c hc
  · exact fun id hid => h.messages id (h'.messages id hid)

end Grows

theorem cltMgrConnTryCreate_grows {ok : AllocOk} {m m' : CltMgr} {rc : ℤ}
    (hids : ∀ c ∈ m.mgrConnList, c.id ≠ m.nextId)
    (h : cltMgrConnTryCreate ok m = some (m', rc)) : Grows m m' := by
  cases (cltMgrConnTryCreate_iff hids).mp h with
  | refused => exact Grows.refl m
  | noMemory => exact Grows.of_same rfl rfl fun _ h => h
  | failed => exact Grows.of_same rfl rfl fun _ h => h
  | @opened addr _ _ _ hall =>
      refine ⟨rfl, ⟨[startedConn ok addr m], rfl, ?_⟩, fun _ h => h⟩
      intro c hc
      obtain rfl := List.mem_singleton.mp hc
      have hreq := newClientReq_fresh (fun b hb => hall b (List.mem_cons_of_mem _ hb)) addr
        m.cfg.port
      exact ⟨hreq, rfl⟩

/-- What one event delivered to the connection `c` does to it and to the rest
of the manager. -/
structure Delivered (m : CltMgr) (c : CltMgrConn) (m' : CltMgr) (c' : CltMgrConn) : Prop where
  grows : Grows m m'
  id : c'.id = c.id
  move : ReqMove c.req c'.req
  counts : Counts c c'

section Delivery

variable {m m₁ : CltMgr} {c c' : CltMgrConn}

theorem deliverNewHttpReq_delivered {strdupOk newOk : Bool} (hlinked : Linked c.req)
    (hc : EntryOk c.entry) (h : deliverNewHttpReq strdupOk newOk m c = some (m₁, c')) :
    Delivered m c m₁ c' := by
  obtain ⟨hqueued, r', rc, hcreate, hout⟩ := deliverNewHttpReq_eq_some hc h
  obtain ⟨hidle, hopen⟩ := queued_idle hc hqueued
  have hmove : ReqMove c.req r' := ReqMove.create hopen hidle hcreate
  obtain ⟨-, -, -, ⟨hfail, -, -, hsame⟩ | ⟨hrc, -, hone⟩⟩ :=
    cltReqCreate_spec hlinked hopen hidle hcreate
  · obtain ⟨-, rfl, rfl⟩ | ⟨hmade, -, -⟩ := hout
    · exact ⟨Grows.of_same rfl rfl (by simp), rfl, hmove, by simp [Counts, hsame]⟩
    · exact absurd hfail hmade
  · obtain ⟨hfail, -, -⟩ | ⟨-, rfl, rfl⟩ := hout
    · omega
    · refine ⟨Grows.of_same rfl rfl fun _ h => h, rfl, hmove, ?_⟩
      simp only [Counts, hone]
      push_cast
      omega

theorem deliverConnTimeout_delivered (hc : ConnOk c)
    (h : deliverConnTimeout m c = some (m₁, c')) : Delivered m c m₁ c' := by
  obtain ⟨-, ctl, hnotify, rfl⟩ := deliverConnTimeout_eq_some h
  obtain ⟨rfl, ev, -, rfl⟩ := notify_requestTimeout hc.queued hnotify
  exact ⟨Grows.of_same rfl rfl fun _ h => h, rfl, ReqMove.call rfl (ReqCall.timeout c.req), rfl⟩

theorem deliverData_delivered {hook : DataHook} (hlinked : Linked c.req)
    (h : deliverData hook c = some c') : Delivered m c m c' := by
  obtain ⟨q, r', hq, hdata, rfl⟩ := deliverData_eq_some h
  have hcall := ReqCall.data hq hdata
  exact ⟨Grows.refl m, rfl, ReqMove.call rfl hcall, .of_framed (hcall.framed hlinked rfl) rfl⟩

theorem deliverComplete_delivered {status : ℤ} (hlinked : Linked c.req)
    (h : deliverComplete status m c = some (m₁, c')) : Delivered m c m₁ c' := by
  obtain ⟨con, q, r', ctl, hcon, hq, hreqCb, rfl⟩ := deliverComplete_eq_some h
  have hcall := ReqCall.complete hcon hq hreqCb
  have hmove : ReqMove c.req r' := ReqMove.call rfl hcall
  have hframed := hcall.framed hlinked rfl
  obtain ⟨⟨m₃, ctl₁⟩, con', hok, hdestroying, -⟩ := cltReqCb_spec hreqCb
  obtain ⟨rfl, rfl⟩ := notify_requestDoneOk hok
  rcases notify_reqDestroying hdestroying with ⟨-, -, -, rfl, rfl⟩ | ⟨rfl, rfl⟩
  · exact ⟨Grows.of_same rfl rfl fun _ h => h, rfl, hmove, .of_framed hframed rfl⟩
  · exact ⟨Grows.of_same rfl rfl fun _ h => h, rfl, hmove, .of_framed hframed rfl⟩

theorem evhtpErrorHook_calls {σ : Type} {cb : CltNotifyCb σ} {cause : CloseCause}
    {r r' : ClientReq} {s s' : σ} (h : evhtpErrorHook cb cause r s = some (r', s')) :
    ∃ es, (∀ e ∈ es, e.isCreate = false) ∧ ReqCalls es r r' := by
  have hnone : some (r, s) = some (r', s') → ∃ es, (∀ e ∈ es, e.isCreate = false) ∧
      ReqCalls es r r' := by
    intro hsame
    cases hsame
    exact ⟨[], by simp, ReqCalls.nil r⟩
  cases cause with
  | quiet => exact hnone h
  | error errtype =>
      cases hq : hookedRequest r with
      | none =>
          simp only [evhtpErrorHook, hq] at h
          exact hnone h
      | some q =>
          simp only [evhtpErrorHook, hq] at h
          exact ⟨[.error errtype], by simp [ReqEvent.isCreate], (ReqCall.error hq h).calls⟩

theorem deliverClose_delivered {cause : CloseCause} {order : FreeOrder} {ok : AllocOk}
    (hids : ∀ c ∈ m.mgrConnList, c.id ≠ m.nextId) (hc : ConnOk c)
    (h : deliverClose cause order ok m c = some (m₁, c')) : Delivered m c m₁ c' := by
  obtain ⟨con, r₁, m₂, ctl₁, r', ctl', hcon, herror, hfree, rfl⟩ := deliverClose_eq_some h
  obtain ⟨es, hes, hcalls⟩ := evhtpErrorHook_calls herror
  obtain ⟨o, -, rfl, hkeeps, hlinked, hcon₁⟩ := evhtpErrorHook_spec hc herror
  have hopen : r₁.con ≠ none := by simp [hcon₁, hcon]
  obtain ⟨p, rc, -, htry, -, -, -, hkeeps', -⟩ :=
    evhtpConnectionFree_notify hkeeps hlinked hopen hfree
  have hgrows := cltMgrConnTryCreate_grows
    (m := { m with pacer := p, stats := countClosing (o.count m.stats) }) hids htry
  have hboth := hcalls.concat (ReqCall.close hopen hfree)
  have hquiet : ∀ e ∈ es ++ [.close order], e.isCreate = false := by
    intro e he
    rcases List.mem_append.mp he with he | he
    · exact hes e he
    · rw [List.mem_singleton.mp he]
      rfl
  exact ⟨⟨hgrows.freed, hgrows.conns, hgrows.messages⟩, hkeeps'.id, ReqMove.calls hquiet hboth,
    .of_framed (hboth.framed hc.linked hquiet) hkeeps'.cur⟩

end Delivery

/-- What one event does to the requests of the connections, and which messages
it may print. -/
structure Owns (m m' : CltMgr) : Prop where
  origin : ∀ c' ∈ m'.mgrConnList ++ m'.freedConns, FreshConn c' ∨
    ∃ c ∈ m.mgrConnList ++ m.freedConns, c'.id = c.id ∧ ReqMove c.req c'.req ∧ Counts c c'
  messages : ∀ id, .reqInProgress id ∈ m'.messages → .reqInProgress id ∈ m.messages

theorem Grows.owns {m m' : CltMgr} (h : Grows m m') : Owns m m' where
  origin := by
    obtain ⟨news, hlist, hnews⟩ := h.conns
    intro c' hc'
    rw [hlist, h.freed, List.append_assoc] at hc'
    rcases List.mem_append.mp hc' with hc' | hc'
    · exact Or.inr ⟨c', List.mem_append_left _ hc', rfl, ReqMove.stay _, rfl⟩
    · rcases List.mem_append.mp hc' with hc' | hc'
      · exact Or.inl (hnews c' hc')
      · exact Or.inr ⟨c', List.mem_append_right _ hc', rfl, ReqMove.stay _, rfl⟩
  messages := h.messages

theorem Delivered.owns {m m₁ : CltMgr} {c c' : CltMgrConn} (h : Delivered m c m₁ c')
    (hc : c ∈ m.mgrConnList) : Owns m (m₁.putConn c') where
  origin := by
    intro x hx
    rcases List.mem_append.mp hx with hx | hx
    · obtain ⟨y, hy, rfl⟩ := List.mem_map.mp hx
      by_cases hid : y.id = c'.id
      · rw [if_pos hid]
        exact Or.inr ⟨c, List.mem_append_left _ hc, h.id, h.move, h.counts⟩
      · rw [if_neg hid]
        exact h.grows.owns.origin y (List.mem_append_left _ hy)
    · exact h.grows.owns.origin x (List.mem_append_right _ hx)
  messages := h.grows.messages

theorem onConn_owns {id : ℕ} {f : CltMgr → CltMgrConn → Option (CltMgr × CltMgrConn)}
    {m m' : CltMgr} (h : m.onConn id f = some m')
    (hf : ∀ pre c post m₁ c', m.mgrConnList = pre ++ c :: post → f m c = some (m₁, c') →
      Delivered m c m₁ c') : Owns m m' := by
  obtain ⟨pre, c, post, m₁, c', hlist, -, hc, rfl⟩ := onConn_eq_some h
  exact (hf pre c post m₁ c' hlist hc).owns (by simp [hlist])

theorem deliverConnDestroy_owns {m m' : CltMgr} {c : CltMgrConn} {order : FreeOrder}
    {ok : AllocOk} (hids : ∀ c ∈ m.mgrConnList, c.id ≠ m.nextId) (hmem : c ∈ m.mgrConnList)
    (hc : ConnOk c) (h : deliverConnDestroy order ok m c = some m') : Owns m m' := by
  obtain ⟨-, r, m₂, ctl, hdestroy, rfl⟩ := deliverConnDestroy_eq_some h
  have hcall := ReqCall.destroy hdestroy
  have hmove : ReqMove c.req r := ReqMove.call rfl hcall
  have hframed := hcall.framed hc.linked rfl
  have hgrows : Grows m m₂ ∧ ctl.id = c.id ∧ ctl.curReqCount = c.curReqCount := by
    by_cases hcon : c.req.con = none
    · obtain ⟨heq, -⟩ := cltConnDestroy_closed hc.linked hcon hdestroy
      cases heq
      exact ⟨Grows.refl m, rfl, rfl⟩
    · obtain ⟨con, hcon⟩ := Option.ne_none_iff_exists'.mp hcon
      obtain ⟨hclosing, -⟩ := cltConnDestroy_open hc.linked hcon hdestroy
      obtain ⟨⟨ev, -, rfl⟩, rc, htry⟩ := notify_connClosing (by simp) hclosing
      have hgrows := cltMgrConnTryCreate_grows
        (m := { m with stats := countClosing m.stats }) hids htry
      exact ⟨⟨hgrows.freed, hgrows.conns, hgrows.messages⟩, rfl, rfl⟩
  obtain ⟨hgrows, hid, hcur⟩ := hgrows
  refine ⟨?_, hgrows.messages⟩
  intro x hx
  rcases List.mem_append.mp hx with hx | hx
  · exact hgrows.owns.origin x (List.mem_append_left _ (List.mem_filter.mp hx).1)
  · rcases List.mem_append.mp hx with hx | hx
    · exact hgrows.owns.origin x (List.mem_append_right _ hx)
    · cases List.mem_singleton.mp hx
      exact Or.inr ⟨c, List.mem_append_left _ hmem, hid, hmove, .of_framed hframed hcur⟩

/-! ## Timers -/

theorem cltMgrBurst_grows {ok : ℕ → AllocOk} {fuel : ℕ} :
    ∀ {i : ℤ} {j : ℕ} {m m' : CltMgr}, m.ledger.RosterOk →
      cltMgrBurst ok fuel i j m = some m' → Grows m m' := by
  induction fuel with
  | zero =>
      intro i j m m' _ h
      cases h
      exact Grows.refl m
  | succ fuel ih =>
      intro i j m m' hroster h
      obtain ⟨-, rfl⟩ | ⟨-, m₁, rc, htry, hrest⟩ := cltMgrBurst_succ_eq_some h
      · exact Grows.refl _
      have hids := RosterOk.ne_nextId hroster
      have hgrows := cltMgrConnTryCreate_grows hids htry
      obtain ⟨-, rfl⟩ | ⟨-, hmore⟩ := hrest
      · exact hgrows
      · exact hgrows.trans
          (ih ((cltMgrConnTryCreate_tryOpen hids htry).rosterOk hroster) hmore)

theorem cltMgrTimerStateRunning_grows {ok : ℕ → AllocOk} {m m' : CltMgr}
    (hroster : m.ledger.RosterOk) (h : cltMgrTimerStateRunning ok m = some m') : Grows m m' := by
  obtain ⟨p, m₂, -, hburst, rfl⟩ := cltMgrTimerStateRunning_eq_some h
  have hgrows := cltMgrBurst_grows (m := { m with pacer := p }) hroster hburst
  by_cases hfin : cltMgrCheckFinished m₂ = true
  · rw [if_pos hfin]
    exact ⟨hgrows.freed, hgrows.conns, hgrows.messages⟩
  · rw [if_neg hfin]
    exact ⟨hgrows.freed, hgrows.conns, hgrows.messages⟩

theorem cltMgrTimerStateWaiting_grows (m : CltMgr) : Grows m (cltMgrTimerStateWaiting m) := by
  unfold cltMgrTimerStateWaiting
  split
  · exact Grows.refl m
  · split
    · exact Grows.of_same rfl rfl (by simp)
    · exact Grows.of_same rfl rfl fun _ h => h

theorem cltMgrTimerStateCleanupWaiting_grows (m : CltMgr) :
    Grows m (cltMgrTimerStateCleanupWaiting m) := by
  unfold cltMgrTimerStateCleanupWaiting
  split
  · exact Grows.of_same rfl rfl (by simp)
  · split
    · exact Grows.refl m
    · exact Grows.of_same rfl rfl fun _ h => h

theorem cltMgrTimer_grows {ok : ℕ → AllocOk} {m m' : CltMgr} (hroster : m.ledger.RosterOk)
    (h : cltMgrTimer ok m = some m') : Grows m m' := by
  obtain ⟨m₁, hbody, rfl⟩ := cltMgrTimer_eq_some h
  have hgrows : Grows m m₁ := by
    cases hbody with
    | running _ hrun => exact cltMgrTimerStateRunning_grows hroster hrun
    | waiting => exact cltMgrTimerStateWaiting_grows m
    | cleanupWaiting => exact cltMgrTimerStateCleanupWaiting_grows m
    | idle => exact Grows.refl m
    | invalid => exact Grows.of_same rfl rfl (by simp)
  split
  · exact hgrows
  · exact ⟨hgrows.freed, hgrows.conns, hgrows.messages⟩

theorem cltMgrDestroyAll_reqs {conns conns' : List CltMgrConn}
    (h : cltMgrDestroyAll conns = some conns') :
    ∀ c' ∈ conns', ∃ c ∈ conns, c'.id = c.id ∧ c'.req = c.req ∧
      c'.curReqCount = c.curReqCount := by
  induction conns generalizing conns' with
  | nil =>
      cases h
      simp
  | cons c conns ih =>
      simp only [cltMgrDestroyAll, Option.bind_eq_bind, Option.bind_eq_some_iff] at h
      obtain ⟨ctl, hdestroy, rest, hrest, h⟩ := h
      cases h
      have hctl := cltMgrConnDestroy_spec hdestroy
      intro x hx
      rcases List.mem_cons.mp hx with rfl | hx
      · exact ⟨c, by simp, by rw [hctl], rfl, by rw [hctl]⟩
      · obtain ⟨y, hy, hsame⟩ := ih hrest x hx
        exact ⟨y, by simp [hy], hsame⟩

theorem cltMgrCleanupTimer_owns {m m' : CltMgr} (h : cltMgrCleanupTimer m = some m') :
    Owns m m' := by
  simp only [cltMgrCleanupTimer] at h
  split at h
  · cases h
    exact Grows.owns (Grows.of_same rfl rfl (by simp))
  · obtain ⟨conns, hconns, h⟩ := Option.bind_eq_some_iff.mp h
    cases h
    refine ⟨?_, fun _ h => h⟩
    intro x hx
    rcases List.mem_append.mp hx with hx | hx
    · obtain ⟨c, hc, hid, hreq, hcur⟩ := cltMgrDestroyAll_reqs hconns x hx
      refine Or.inr ⟨c, List.mem_append_left _ hc, hid, ?_, ?_⟩
      · rw [hreq]
        exact ReqMove.stay _
      · rw [Counts, hreq, hcur]
    · exact Or.inr ⟨x, List.mem_append_right _ hx, rfl, ReqMove.stay _, rfl⟩

/-- Every event keeps the requests of the manager's connections in the hands of
the calls above. -/
theorem cltMgrStep_owns {e : LoopEvent} {m m' : CltMgr} (hm : CltMgrOk m)
    (h : cltMgrStep e m = some m') : Owns m m' := by
  have hids := RosterOk.ne_nextId hm.roster
  cases e with
  | timer ok =>
      simp only [cltMgrStep] at h
      obtain ⟨-, h⟩ := Option.ite_none_right_eq_some.mp h
      have hgrows := cltMgrTimer_grows (m := { m with tTimerev := ⟨false⟩ }) hm.roster h
      exact Grows.owns ⟨hgrows.freed, hgrows.conns, hgrows.messages⟩
  | statTimer =>
      simp only [cltMgrStep, cltMgrStatTimer] at h
      obtain ⟨-, h⟩ := Option.ite_none_right_eq_some.mp h
      cases h
      split
      · exact Grows.owns (Grows.of_same rfl rfl fun _ h => h)
      · exact Grows.owns (Grows.of_same rfl rfl fun _ h => h)
  | runningTimer =>
      simp only [cltMgrStep] at h
      obtain ⟨-, h⟩ := Option.ite_none_right_eq_some.mp h
      cases h
      exact Grows.owns (Grows.of_same rfl rfl fun _ h => h)
  | waitTimer =>
      simp only [cltMgrStep, cltMgrWaitingTimer] at h
      obtain ⟨-, h⟩ := Option.ite_none_right_eq_some.mp h
      cases h
      split
      · exact Grows.owns (Grows.of_same rfl rfl (by simp))
      · exact Grows.owns (Grows.of_same rfl rfl fun _ h => h)
  | cleanupTimer =>
      simp only [cltMgrStep] at h
      obtain ⟨-, h⟩ := Option.ite_none_right_eq_some.mp h
      have howns := cltMgrCleanupTimer_owns h
      exact ⟨howns.origin, howns.messages⟩
  | newHttpReq id strdupOk newOk =>
      apply onConn_owns h
      intro pre c post m₁ c' hlist hc
      exact deliverNewHttpReq_delivered (hm.connOk hlist).linked (hm.entryOk hlist) hc
  | connDestroy id order ok =>
      simp only [cltMgrStep, Option.bind_eq_bind] at h
      obtain ⟨c, hfind, hdestroy⟩ := Option.bind_eq_some_iff.mp h
      have hmem := List.mem_of_find?_eq_some hfind
      exact deliverConnDestroy_owns hids hmem (hm.conns c hmem) hdestroy
  | connTimeout id =>
      apply onConn_owns h
      intro pre c post m₁ c' hlist hc
      exact deliverConnTimeout_delivered (hm.connOk hlist) hc
  | data id hook =>
      simp only [cltMgrStep] at h
      apply onConn_owns h
      intro pre c post m₁ c' hlist hc
      obtain ⟨c₁, hdata, hc⟩ := Option.bind_eq_some_iff.mp hc
      cases hc
      exact deliverData_delivered (hm.connOk hlist).linked hdata
  | complete id status =>
      apply onConn_owns h
      intro pre c post m₁ c' hlist hc
      exact deliverComplete_delivered (hm.connOk hlist).linked hc
  | close id cause order ok =>
      apply onConn_owns h
      intro pre c post m₁ c' hlist hc
      exact deliverClose_delivered hids (hm.connOk hlist) hc

/-! ## Runs -/

theorem FreshReq.linked {r : ClientReq} (h : FreshReq r) : Linked r := by
  obtain ⟨ok, addr, port, rfl⟩ := h.eq_new
  exact newClientReq_linked ok addr port

theorem conns_init (cfg : MgrConfig) : (cltMgrSystem cfg).init.mgrConnList = [] ∧
    (cltMgrSystem cfg).init.freedConns = [] := by
  obtain ⟨running, hledger⟩ := ledger_init cfg
  have hconns := congrArg Ledger.conns hledger
  have hgone := congrArg Ledger.gone hledger
  simp only [CltMgr.ledger, Ledger.start, List.map_eq_nil_iff] at hconns hgone
  exact ⟨hconns, hgone⟩

/-- A property of single requests that a new connection has, that asking for a
request keeps and that every other call keeps, holds of every connection of
every reachable manager. -/
theorem request_invariant {cfg : MgrConfig} {P : ClientReq → Prop}
    (hfresh : ∀ r, FreshReq r → P r)
    (hcreate : ∀ strdupOk newOk uri keepalive rc r r', r.con ≠ none → r.req = none → P r →
      cltReqCreate strdupOk newOk uri keepalive r = some (r', rc) → P r')
    (hcall : ∀ e r r', e.isCreate = false → Linked r → P r → ReqCall e r r' → P r')
    {m : CltMgr} (h : (cltMgrSystem cfg).Reachable m) :
    ∀ c ∈ m.mgrConnList ++ m.freedConns, Linked c.req ∧ P c.req := by
  have hcalls : ∀ es r r', ReqCalls es r r' → (∀ e ∈ es, e.isCreate = false) →
      Linked r ∧ P r → Linked r' ∧ P r' := by
    intro es r r' h
    induction h with
    | nil => exact fun _ hr => hr
    | cons hfirst _ ih =>
        rintro hes ⟨hr, hP⟩
        apply ih fun e he => hes e (List.mem_cons_of_mem _ he)
        exact ⟨hfirst.linked hr, hcall _ _ _ (hes _ List.mem_cons_self) hr hP hfirst⟩
  have hboth := (cltMgrSystem cfg).invariant
    (P := fun m => CltMgrOk m ∧ ∀ c ∈ m.mgrConnList ++ m.freedConns, Linked c.req ∧ P c.req)
    ?_ ?_ m h
  · exact hboth.2
  · refine ⟨cltMgrOk_init cfg, ?_⟩
    obtain ⟨hconns, hgone⟩ := conns_init cfg
    simp [hconns, hgone]
  · rintro m e m' ⟨hm, hreqs⟩ he
    refine ⟨(cltMgrStep_refines hm he).1, ?_⟩
    intro c' hc'
    rcases (cltMgrStep_owns hm he).origin c' hc' with hnew | ⟨c, hc, -, hmove, -⟩
    · exact ⟨hnew.req.linked, hfresh _ hnew.req⟩
    · obtain ⟨hlinked, hP⟩ := hreqs c hc
      cases hmove with
      | calls hes h => exact hcalls _ _ _ h hes ⟨hlinked, hP⟩
      | create hopen hidle h =>
          exact ⟨(ReqCall.create h).linked hlinked,
            hcreate _ _ _ _ _ _ _ hopen hidle hP h⟩

/-- The count of a connection is the number of requests made on it. -/
theorem curReqCount_of_reachable {cfg : MgrConfig} {m : CltMgr}
    (h : (cltMgrSystem cfg).Reachable m) :
    ∀ c ∈ m.mgrConnList ++ m.freedConns, (c.req.requests.length : ℤ) = c.curReqCount := by
  have hboth := (cltMgrSystem cfg).invariant
    (P := fun m => CltMgrOk m ∧
      ∀ c ∈ m.mgrConnList ++ m.freedConns, (c.req.requests.length : ℤ) = c.curReqCount)
    ?_ ?_ m h
  · exact hboth.2
  · refine ⟨cltMgrOk_init cfg, ?_⟩
    obtain ⟨hconns, hgone⟩ := conns_init cfg
    simp [hconns, hgone]
  · rintro m e m' ⟨hm, hcounts⟩ he
    refine ⟨(cltMgrStep_refines hm he).1, ?_⟩
    intro c' hc'
    rcases (cltMgrStep_owns hm he).origin c' hc' with hnew | ⟨c, hc, -, -, hcounted⟩
    · obtain ⟨ok, addr, port, hreq⟩ := hnew.req.eq_new
      rw [hreq, hnew.curReqCount]
      rfl
    · have hold := hcounts c hc
      unfold Counts at hcounted
      omega

end EvhtpHttp.Client

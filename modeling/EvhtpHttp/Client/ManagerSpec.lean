import EvhtpHttp.Client.Ledger
import EvhtpHttp.Client.RequestSpec
import EvhtpHttp.Client.TryCreate

/-!
# What the functions of `mgr.c` do

The ledger that abstracts a manager, the invariant of a connection on the list,
and for each function of `mgr.c` its effect in terms of the ledger.
-/

namespace EvhtpHttp.Client

open EvhtpHttp.Support

/-! ## The abstraction -/

/-- The ledger's entry of a connection. -/
def CltMgrConn.entry (c : CltMgrConn) : Entry where
  id := c.id
  target := c.targetRequestCount
  cur := c.curReqCount
  dead := c.isDead
  queued := isPending c.evNewHttpReq
  inFlight := c.req.req.isSome
  closed := c.req.con.isNone
  timing := isPending c.req.evTimeout

/-- The limits among the manager's configuration. -/
def MgrConfig.limits (cfg : MgrConfig) : Limits where
  targetNconn := cfg.targetNconn
  targetTotalNconnCount := cfg.targetTotalNconnCount
  targetGlobalRequestCount := cfg.targetGlobalRequestCount
  targetRequestCount := cfg.targetRequestCount
  burstConn := cfg.burstConn
  targetRequestRate := cfg.targetRequestRate
  httpKeepalive := cfg.httpKeepalive

/-- Is the message a complaint about the state of the manager? -/
def MgrMessage.isUnexpected : MgrMessage → Bool
  | .unexpectedState _ _ => true
  | .notValidState _ => true
  | .reqInProgress _ => false
  | .createFailed _ => false

def CltMgr.timers (m : CltMgr) : Timers where
  timer := m.tTimerev.pending
  stat := m.tStatTimerev.pending
  running := m.tRunningTimerev.pending
  wait := m.tWaitTimerev.pending
  cleanup := m.tCleanupTimerev.pending

def CltMgr.ledger (m : CltMgr) : Ledger where
  state := m.mgrState
  timers := m.timers
  limits := m.cfg.limits
  pacer := m.pacer
  stats := m.stats
  prevStats := m.prevStats
  conns := m.mgrConnList.map CltMgrConn.entry
  gone := m.freedConns.map CltMgrConn.entry
  nextId := m.nextId
  unexpected := m.messages.countP MgrMessage.isUnexpected

/-- A connection on the list: its request is linked to libevhtp's, a queued
request is flagged as pending, and it is dead exactly when its destruction is
scheduled. -/
structure ConnOk (c : CltMgrConn) : Prop where
  linked : Linked c.req
  queued : isPending c.evNewHttpReq = true → c.pendingHttpReq = true
  dead : isPending c.evConnDestroy = c.isDead

/-! ## Checks -/

theorem cltMgrCheckCreateConn_eq_true {m : CltMgr} :
    cltMgrCheckCreateConn m = true ↔ m.ledger.MayOpen := by
  simp only [cltMgrCheckCreateConn, Ledger.MayOpen, CltMgr.ledger, MgrConfig.limits]
  split
  · rename_i hstate
    simp [hstate]
  · rename_i hstate
    have hopen : m.mgrState = .running ∨ m.mgrState = .init := by tauto
    split
    · rename_i htotal
      simp only [hopen, true_and, Bool.false_eq_true, false_iff]
      omega
    · rename_i htotal
      simp only [hopen, true_and, Bool.if_false_left, Bool.and_true,
        Bool.not_eq_true', decide_eq_false_iff_not]
      omega

theorem pacerCheck_eq_true {m : CltMgr} :
    m.pacerCheck = true ↔ m.ledger.MayPace :=
  Iff.rfl

theorem cltMgrCheckCreateHttpRequest_eq_true {m : CltMgr} :
    cltMgrCheckCreateHttpRequest m = true ↔ m.ledger.MayIssue := by
  unfold cltMgrCheckCreateHttpRequest Ledger.MayIssue
  simp only [CltMgr.ledger, MgrConfig.limits]
  split <;> simp <;> omega

theorem cltMgrConnCheckCreateHttpRequest_eq_true {m : CltMgr} {c : CltMgrConn} :
    cltMgrConnCheckCreateHttpRequest m c.toConnCtl = true ↔
      m.ledger.MayRequest c.entry := by
  simp only [cltMgrConnCheckCreateHttpRequest, Ledger.MayRequest, CltMgr.ledger,
    MgrConfig.limits, CltMgrConn.entry]
  cases c.isDead with
  | true => simp
  | false =>
      simp only [Bool.false_eq_true, if_false, true_and]
      split
      · rename_i hstate
        simp [hstate]
      · rename_i hstate
        have hrun : c.targetRequestCount ≤ 0 → m.mgrState = .running := by tauto
        split
        · rename_i hkeep
          simp [hkeep]
        · rename_i hkeep
          rw [and_iff_right hrun, and_iff_right hkeep]
          simp only [Bool.if_false_left, Bool.and_true, Bool.not_eq_true',
            decide_eq_false_iff_not]
          omega

theorem cltMgrCheckFinished_eq_true {m : CltMgr} :
    cltMgrCheckFinished m = true ↔ m.ledger.Finished := by
  unfold cltMgrCheckFinished Ledger.Finished
  simp only [CltMgr.ledger, MgrConfig.limits]
  split <;> [skip; split] <;> simp <;> omega

/-! ## One connection's events -/

theorem cltMgrConnCancelHttpReq_spec {c c' : ConnCtl}
    (hpending : isPending c.evNewHttpReq = true → c.pendingHttpReq = true)
    (h : cltMgrConnCancelHttpReq c = some c') :
    ∃ ev, isPending ev = false ∧ c' = { c with evNewHttpReq := ev } := by
  simp only [cltMgrConnCancelHttpReq, Option.bind_eq_bind] at h
  split at h
  · simp only [Option.bind_eq_some_iff, eventDel_eq_some] at h
    obtain ⟨ev, ⟨-, rfl⟩, h⟩ := h
    cases h
    exact ⟨some ⟨false⟩, rfl, rfl⟩
  · rename_i hflag
    cases h
    refine ⟨c.evNewHttpReq, ?_, rfl⟩
    cases hev : isPending c.evNewHttpReq with
    | false => rfl
    | true => exact absurd (hpending hev) hflag

theorem cltMgrConnDestroy_spec {c c' : ConnCtl} (h : cltMgrConnDestroy c = some c') :
    c' = { c with isDead := true, evConnDestroy := some ⟨true⟩ } := by
  simp only [cltMgrConnDestroy, Option.bind_eq_bind, Option.bind_eq_some_iff,
    eventAdd_eq_some, eventActive_eq_some] at h
  obtain ⟨ev, -, ev', ⟨-, rfl⟩, h⟩ := h
  cases h
  rfl

/-- `c'` is `c` with its queued request cancelled and its destruction
scheduled. -/
def CancelledAndDestroyed (c c' : ConnCtl) : Prop :=
  ∃ ev, isPending ev = false ∧
    c' = { c with isDead := true, evConnDestroy := some ⟨true⟩, evNewHttpReq := ev }

theorem cltMgrConnCancelDestroy_spec {c c₁ c' : ConnCtl}
    (hpending : isPending c.evNewHttpReq = true → c.pendingHttpReq = true)
    (hcancel : cltMgrConnCancelHttpReq c = some c₁)
    (hdestroy : cltMgrConnDestroy c₁ = some c') : CancelledAndDestroyed c c' := by
  obtain ⟨ev, hev, rfl⟩ := cltMgrConnCancelHttpReq_spec hpending hcancel
  exact ⟨ev, hev, cltMgrConnDestroy_spec hdestroy⟩

/-! ## Opening connections -/

/-- Connections were added at the end of the list and none was freed. -/
def Extends (m m' : CltMgr) : Prop :=
  m'.freedConns = m.freedConns ∧
    ∃ news, m'.mgrConnList = m.mgrConnList ++ news ∧ ∀ c ∈ news, ConnOk c

theorem Extends.refl (m : CltMgr) : Extends m m :=
  ⟨rfl, [], by simp, by simp⟩

theorem Extends.trans {m m₁ m₂ : CltMgr} (h : Extends m m₁) (h' : Extends m₁ m₂) :
    Extends m m₂ := by
  obtain ⟨hfreed, news, hlist, hnews⟩ := h
  obtain ⟨hfreed', news', hlist', hnews'⟩ := h'
  refine ⟨hfreed'.trans hfreed, news ++ news', by simp [hlist', hlist], ?_⟩
  intro c hc
  rcases List.mem_append.mp hc with hc | hc
  · exact hnews c hc
  · exact hnews' c hc

theorem isPending_eventNew (ok : Bool) : isPending (eventNew ok) = false := by
  cases ok with
  | false => rfl
  | true => rfl

theorem newClientReq_linked (ok : AllocOk) (addr : String) (port : ℤ) :
    Linked (newClientReq ok addr port) where
  finiHook con hcon := by
    obtain rfl := Option.some.inj hcon
    rfl
  request con hcon := by
    obtain rfl := Option.some.inj hcon
    rfl
  closed hcon := absurd hcon (Option.some_ne_none _)
  hooked q hq := absurd hq.symm (Option.some_ne_none q)

theorem startedConn_ok (ok : AllocOk) (addr : String) (m : CltMgr) :
    ConnOk (startedConn ok addr m) where
  linked := newClientReq_linked ok addr m.cfg.port
  queued := fun _ => rfl
  dead := isPending_eventNew (ok .evConnDestroy)

theorem startedConn_entry (ok : AllocOk) (addr : String) (m : CltMgr) :
    (startedConn ok addr m).entry = Entry.fresh m.nextId m.cfg.targetRequestCount := by
  simp [CltMgrConn.entry, Entry.fresh, startedConn, newConn, newClientReq, isPending_eventNew]

/-- The outcomes of `clt_mgr_conn_try_create`, told apart by the return code. -/
theorem cltMgrConnTryCreate_spec {ok : AllocOk} {m m' : CltMgr} {rc : ℤ}
    (hids : ∀ c ∈ m.mgrConnList, c.id ≠ m.nextId)
    (h : cltMgrConnTryCreate ok m = some (m', rc)) :
    Extends m m' ∧
      (rc = -1 ∧ (m' = m ∨
        m.ledger.MayOpen ∧ m.ledger.MayPace ∧ m'.ledger = m.ledger.openFailed) ∨
      rc = 0 ∧ m.ledger.MayOpen ∧ m.ledger.MayPace ∧
        m'.ledger = m.ledger.openOne) := by
  have hadmitted : cltMgrCheckCreateConn m = true → m.pacerCheck = true →
      m.ledger.MayOpen ∧ m.ledger.MayPace := fun hcheck hpace =>
    ⟨cltMgrCheckCreateConn_eq_true.mp hcheck, pacerCheck_eq_true.mp hpace⟩
  cases (cltMgrConnTryCreate_iff hids).mp h with
  | refused => exact ⟨Extends.refl m, Or.inl ⟨rfl, Or.inl rfl⟩⟩
  | noMemory hcheck hpace =>
      obtain ⟨hopen, hpace⟩ := hadmitted hcheck hpace
      exact ⟨⟨rfl, [], by simp [CltMgr.createFailed], by simp⟩,
        Or.inl ⟨rfl, Or.inr ⟨hopen, hpace, rfl⟩⟩⟩
  | failed hcheck hpace =>
      obtain ⟨hopen, hpace⟩ := hadmitted hcheck hpace
      exact ⟨⟨rfl, [], by simp [CltMgr.createFailed, CltMgr.withDst], by simp⟩,
        Or.inl ⟨rfl, Or.inr ⟨hopen, hpace, rfl⟩⟩⟩
  | @opened addr dst hcheck hpace =>
      obtain ⟨hopen, hpace⟩ := hadmitted hcheck hpace
      refine ⟨⟨rfl, [startedConn ok addr m], rfl, ?_⟩, Or.inr ⟨rfl, hopen, hpace, ?_⟩⟩
      · intro c hc
        obtain rfl := List.mem_singleton.mp hc
        exact startedConn_ok ok addr m
      · simp only [CltMgr.ledger, CltMgr.opened, CltMgr.withDst, Ledger.openOne, List.map_append,
          List.map_cons, List.map_nil, startedConn_entry]
        rfl

theorem cltMgrConnTryCreate_tryOpen {ok : AllocOk} {m m' : CltMgr} {rc : ℤ}
    (hids : ∀ c ∈ m.mgrConnList, c.id ≠ m.nextId)
    (h : cltMgrConnTryCreate ok m = some (m', rc)) :
    TryOpen m.ledger m'.ledger := by
  obtain ⟨-, ⟨-, rfl | ⟨hopen, hpace, hledger⟩⟩ | ⟨-, hopen, hpace, hledger⟩⟩ :=
    cltMgrConnTryCreate_spec hids h
  · exact TryOpen.refused _
  · exact hledger ▸ TryOpen.failed hopen hpace
  · exact hledger ▸ TryOpen.opened hopen hpace

/-! ## Notifications -/

section Notifications

variable {ok : AllocOk} {data : ℤ} {m m' : CltMgr} {c c' : ConnCtl}

theorem notify_requestDoneOk
    (h : cltMgrConnNotifyCb ok .requestDoneOk data (m, c) = some (m', c')) :
    m' = { m with stats := countOk data m.stats } ∧ c' = c := by
  cases h
  exact ⟨rfl, rfl⟩

theorem notify_requestDoneError
    (h : cltMgrConnNotifyCb ok .requestDoneError data (m, c) = some (m', c')) :
    m' = { m with stats := Outcome.err.count m.stats } ∧ c' = c := by
  cases h
  exact ⟨rfl, rfl⟩

theorem notify_requestTimeout
    (hpending : isPending c.evNewHttpReq = true → c.pendingHttpReq = true)
    (h : cltMgrConnNotifyCb ok .requestTimeout data (m, c) = some (m', c')) :
    m' = { m with stats := Outcome.timeout.count m.stats } ∧
      CancelledAndDestroyed c c' := by
  simp only [cltMgrConnNotifyCb, Option.bind_eq_bind, Option.bind_eq_some_iff] at h
  obtain ⟨c₁, hcancel, c₂, hdestroy, h⟩ := h
  cases h
  exact ⟨rfl, cltMgrConnCancelDestroy_spec hpending hcancel hdestroy⟩

/-- At the end of a request either another one is queued, after three checks,
or the connection is to be destroyed. -/
theorem notify_reqDestroying
    (h : cltMgrConnNotifyCb ok .reqDestroying data (m, c) = some (m', c')) :
    (cltMgrConnCheckCreateHttpRequest m c = true ∧
        cltMgrCheckCreateHttpRequest m = true ∧ m.pacerCheck = true ∧
        m' = m.pacerInc ∧
        c' = { c with pendingHttpReq := true, evNewHttpReq := some ⟨true⟩ }) ∨
      m' = m ∧ c' = { c with isDead := true, evConnDestroy := some ⟨true⟩ } := by
  simp only [cltMgrConnNotifyCb, Option.bind_eq_bind] at h
  split at h
  · rename_i hchecks
    simp only [Bool.and_eq_true] at hchecks
    obtain ⟨⟨hconn, hissue⟩, hpace⟩ := hchecks
    obtain ⟨c₁, hstart, h⟩ := Option.bind_eq_some_iff.mp h
    cases h
    exact Or.inl ⟨hconn, hissue, hpace, rfl, cltMgrConnStartHttpReq_spec hstart⟩
  · obtain ⟨c₁, hdestroy, h⟩ := Option.bind_eq_some_iff.mp h
    cases h
    exact Or.inr ⟨rfl, cltMgrConnDestroy_spec hdestroy⟩

theorem notify_connClosing
    (hpending : isPending c.evNewHttpReq = true → c.pendingHttpReq = true)
    (h : cltMgrConnNotifyCb ok .connClosing data (m, c) = some (m', c')) :
    CancelledAndDestroyed c c' ∧
      ∃ rc, cltMgrConnTryCreate ok { m with stats := countClosing m.stats } =
        some (m', rc) := by
  simp only [cltMgrConnNotifyCb, Option.bind_eq_bind, Option.bind_eq_some_iff] at h
  obtain ⟨c₁, hcancel, c₂, hdestroy, ⟨m₁, rc⟩, htry, h⟩ := h
  cases h
  exact ⟨cltMgrConnCancelDestroy_spec hpending hcancel hdestroy, rc, htry⟩

end Notifications

end EvhtpHttp.Client

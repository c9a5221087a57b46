import EvhtpHttp.Client.ManagerSpec
import EvhtpHttp.Client.Roster

/-!
# What the delivery of an event consists of

For each event the calls that its delivery makes when it comes to an end, and the
manager and the connection it leaves.
-/

namespace EvhtpHttp.Client

/-! ## Events of one connection -/

section Connection

variable {m m₁ : CltMgr} {c c' : CltMgrConn}

/-- A queued request waits on an open connection without a request. -/
theorem queued_idle (hc : EntryOk c.entry) (hqueued : isPending c.evNewHttpReq = true) :
    c.req.req = none ∧ c.req.con ≠ none := by
  constructor
  · by_contra hflight
    have hunqueued := hc.inFlight_unqueued (Option.isSome_iff_ne_none.mpr hflight)
    rw [CltMgrConn.entry, hqueued] at hunqueued
    cases hunqueued
  · intro hclosed
    have hunqueued := (hc.closed_idle (by simp [CltMgrConn.entry, hclosed])).1
    rw [CltMgrConn.entry, hqueued] at hunqueued
    cases hunqueued

theorem deliverNewHttpReq_eq_some {strdupOk newOk : Bool} (hc : EntryOk c.entry)
    (h : deliverNewHttpReq strdupOk newOk m c = some (m₁, c')) :
    isPending c.evNewHttpReq = true ∧ ∃ r' rc,
      cltReqCreate strdupOk newOk m.cfg.uri m.cfg.httpKeepalive c.req = some (r', rc) ∧
        (rc < 0 ∧
            m₁ = { m with
              messages := m.messages ++ [.createFailed c.id]
              stats := { m.stats with reqCountCreateErr := m.stats.reqCountCreateErr + 1 } } ∧
            c' = { c with
              evNewHttpReq := delivered c.evNewHttpReq
              pendingHttpReq := false
              req := r' } ∨
          ¬ rc < 0 ∧ m₁ = { m with stats := { m.stats with reqCount := m.stats.reqCount + 1 } } ∧
            c' = { c with
              evNewHttpReq := delivered c.evNewHttpReq
              pendingHttpReq := false
              req := r'
              curReqCount := c.curReqCount + 1 }) := by
  simp only [deliverNewHttpReq] at h
  obtain ⟨hqueued, h⟩ := Option.ite_none_right_eq_some.mp h
  simp only [cltMgrConnHttpReqEvent, (queued_idle hc hqueued).1, ne_eq, not_true_eq_false,
    if_false, Option.bind_eq_bind, Option.bind_eq_some_iff] at h
  obtain ⟨⟨r', rc⟩, hcreate, h⟩ := h
  refine ⟨hqueued, r', rc, hcreate, ?_⟩
  by_cases hrc : rc < 0
  · simp only [hrc, if_true] at h
    obtain ⟨rfl, rfl⟩ := Prod.mk.inj (Option.some.inj h)
    exact Or.inl ⟨hrc, rfl, rfl⟩
  · simp only [hrc, if_false] at h
    obtain ⟨rfl, rfl⟩ := Prod.mk.inj (Option.some.inj h)
    exact Or.inr ⟨hrc, rfl, rfl⟩

theorem deliverConnTimeout_eq_some (h : deliverConnTimeout m c = some (m₁, c')) :
    isPending c.req.evTimeout = true ∧ ∃ ctl,
      cltMgrConnNotifyCb allocAll .requestTimeout 0 (m, c.toConnCtl) = some (m₁, ctl) ∧
        c' = { toConnCtl := ctl
               req := { c.req with evTimeout := delivered c.req.evTimeout } } := by
  simp only [deliverConnTimeout] at h
  obtain ⟨htiming, h⟩ := Option.ite_none_right_eq_some.mp h
  simp only [cltConnTimeout, cltCallNotify, Option.bind_eq_bind, Option.bind_eq_some_iff] at h
  obtain ⟨⟨m₂, ctl⟩, hnotify, h⟩ := h
  obtain ⟨rfl, rfl⟩ := Prod.mk.inj (Option.some.inj h)
  exact ⟨htiming, ctl, hnotify, rfl⟩

theorem deliverData_eq_some {hook : DataHook} (h : deliverData hook c = some c') :
    ∃ q r', hookedRequest c.req = some q ∧ cltUpstreamData hook c.req = some r' ∧
      c' = { c with req := r' } := by
  simp only [deliverData] at h
  split at h
  · exact absurd h (by simp)
  · rename_i q hq
    obtain ⟨r', hdata, h⟩ := Option.bind_eq_some_iff.mp h
    obtain rfl := Option.some.inj h
    exact ⟨q, r', hq, hdata, rfl⟩

theorem deliverComplete_eq_some {status : ℤ}
    (h : deliverComplete status m c = some (m₁, c')) :
    ∃ con q r' ctl, c.req.con = some con ∧ con.request = some q ∧
      cltReqCb (cltMgrConnNotifyCb allocAll) q status c.req (m, c.toConnCtl) =
        some (r', m₁, ctl) ∧
      c' = { toConnCtl := ctl, req := r' } := by
  simp only [deliverComplete] at h
  split at h
  · exact absurd h (by simp)
  rename_i con hcon
  split at h
  · exact absurd h (by simp)
  rename_i q hq
  obtain ⟨⟨r', m₂, ctl⟩, hreqCb, h⟩ := Option.bind_eq_some_iff.mp h
  obtain ⟨rfl, rfl⟩ := Prod.mk.inj (Option.some.inj h)
  exact ⟨con, q, r', ctl, hcon, hq, hreqCb, rfl⟩

theorem deliverClose_eq_some {cause : CloseCause} {order : FreeOrder} {ok : AllocOk}
    (h : deliverClose cause order ok m c = some (m₁, c')) :
    ∃ con r₁ m₂ ctl₁ r' ctl', c.req.con = some con ∧
      evhtpErrorHook (cltMgrConnNotifyCb ok) cause c.req (m, c.toConnCtl) =
        some (r₁, m₂, ctl₁) ∧
      evhtpConnectionFree (cltMgrConnNotifyCb ok) order r₁ (m₂, ctl₁) =
        some (r', m₁, ctl') ∧
      c' = { toConnCtl := ctl', req := r' } := by
  simp only [deliverClose] at h
  split at h
  · exact absurd h (by simp)
  rename_i con hcon
  obtain ⟨⟨r₁, m₂, ctl₁⟩, herror, h⟩ := Option.bind_eq_some_iff.mp h
  obtain ⟨⟨r', m₃, ctl'⟩, hfree, h⟩ := Option.bind_eq_some_iff.mp h
  obtain ⟨rfl, rfl⟩ := Prod.mk.inj (Option.some.inj h)
  exact ⟨con, r₁, m₂, ctl₁, r', ctl', hcon, herror, hfree, rfl⟩

theorem deliverConnDestroy_eq_some {order : FreeOrder} {ok : AllocOk}
    (h : deliverConnDestroy order ok m c = some m₁) :
    isPending c.evConnDestroy = true ∧ ∃ r m₂ ctl,
      cltConnDestroy (cltMgrConnNotifyCb ok) order c.req
        (m, { c.toConnCtl with
          evNewHttpReq := some ⟨false⟩, evConnDestroy := some ⟨false⟩ }) =
        some (r, m₂, ctl) ∧
      m₁ = { m₂.removeConn ctl.id with
        stats := { m₂.stats with nconn := m₂.stats.nconn - 1 }
        freedConns := m₂.freedConns ++
          [{ ctl with
              evNewHttpReq := some ⟨false⟩
              evConnDestroy := some ⟨false⟩
              req := r }] } := by
  simp only [deliverConnDestroy] at h
  obtain ⟨hpending, h⟩ := Option.ite_none_right_eq_some.mp h
  simp only [cltMgrConnDestroyNow, Option.bind_eq_bind, Option.bind_eq_some_iff,
    eventDel_eq_some, eventFree_eq_some] at h
  obtain ⟨ev₁, ⟨-, rfl⟩, ev₂, ⟨-, rfl⟩, ⟨r, m₂, ctl⟩, hdestroy, ev₃, ⟨-, rfl⟩,
    ev₄, ⟨-, rfl⟩, h⟩ := h
  obtain rfl := Option.some.inj h
  exact ⟨hpending, r, m₂, ctl, hdestroy, rfl⟩

end Connection

/-! ## The periodic timer -/

section Timer

variable {m m' : CltMgr}

theorem cltMgrBurst_succ_eq_some {ok : ℕ → AllocOk} {fuel : ℕ} {i : ℤ} {j : ℕ}
    (h : cltMgrBurst ok (fuel + 1) i j m = some m') :
    ¬ (i < m.cfg.targetNconn ∧ (j : ℤ) ≤ m.cfg.burstConn) ∧ m' = m ∨
      (i < m.cfg.targetNconn ∧ (j : ℤ) ≤ m.cfg.burstConn) ∧ ∃ m₁ rc,
        cltMgrConnTryCreate (ok j) m = some (m₁, rc) ∧
          (rc < 0 ∧ m' = m₁ ∨
            ¬ rc < 0 ∧ cltMgrBurst ok fuel (i + 1) (j + 1) m₁ = some m') := by
  simp only [cltMgrBurst, Option.bind_eq_bind] at h
  by_cases hloop : i < m.cfg.targetNconn ∧ (j : ℤ) ≤ m.cfg.burstConn
  · rw [if_pos hloop] at h
    obtain ⟨⟨m₁, rc⟩, htry, h⟩ := Option.bind_eq_some_iff.mp h
    refine Or.inr ⟨hloop, m₁, rc, htry, ?_⟩
    by_cases hrc : rc < 0
    · simp only [hrc, if_true] at h
      exact Or.inl ⟨hrc, (Option.some.inj h).symm⟩
    · simp only [hrc, if_false] at h
      exact Or.inr ⟨hrc, h⟩
  · rw [if_neg hloop] at h
    exact Or.inl ⟨hloop, (Option.some.inj h).symm⟩

/-- The part of `clt_mgr_timer` that depends on the state. -/
inductive TimerBody (ok : ℕ → AllocOk) (m : CltMgr) : CltMgr → Prop
  | running {m₁ : CltMgr} (hstate : m.mgrState = .running)
      (h : cltMgrTimerStateRunning ok m = some m₁) : TimerBody ok m m₁
  | waiting (hstate : m.mgrState = .waiting) : TimerBody ok m (cltMgrTimerStateWaiting m)
  | cleanupWaiting (hstate : m.mgrState = .cleanupWaiting) :
      TimerBody ok m (cltMgrTimerStateCleanupWaiting m)
  | idle (hstate : m.mgrState = .cleanup ∨ m.mgrState = .completed) : TimerBody ok m m
  | invalid (hstate : m.mgrState = .none ∨ m.mgrState = .init) :
      TimerBody ok m { m with messages := m.messages ++ [.notValidState m.mgrState] }

/-- After the part that depends on the state the timer is armed again, except in
the last phase. -/
theorem cltMgrTimer_eq_some {ok : ℕ → AllocOk} (h : cltMgrTimer ok m = some m') :
    ∃ m₁, TimerBody ok m m₁ ∧
      m' = if m₁.mgrState = .completed then m₁ else { m₁ with tTimerev := ⟨true⟩ } := by
  have hend : ∀ {m₁ : CltMgr}, TimerBody ok m m₁ →
      (if m₁.mgrState = .completed then pure m₁
        else pure { m₁ with tTimerev := ⟨true⟩ }) = some m' →
      ∃ m₁, TimerBody ok m m₁ ∧
        m' = if m₁.mgrState = .completed then m₁ else { m₁ with tTimerev := ⟨true⟩ } := by
    intro m₁ hbody hm'
    refine ⟨m₁, hbody, ?_⟩
    rw [← apply_ite pure] at hm'
    exact (Option.some.inj hm').symm
  unfold cltMgrTimer at h
  split at h
  · rename_i hstate
    obtain ⟨m₁, hrun, h⟩ := Option.bind_eq_some_iff.mp h
    exact hend (.running hstate hrun) h
  · rename_i hstate
    exact hend (.waiting hstate) h
  · rename_i hstate
    exact hend (.idle (Or.inl hstate)) h
  · rename_i hstate
    exact hend (.cleanupWaiting hstate) h
  · rename_i hstate
    exact hend (.idle (Or.inr hstate)) h
  · refine hend (.invalid ?_) h
    cases hphase : m.mgrState <;> simp_all

end Timer

end EvhtpHttp.Client

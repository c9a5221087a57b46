import EvhtpHttp.Client.Evolution

/-!
# Replacing a connection

`clt_mgr_conn_notify_cb` tries to open a connection in the place of one that is
closing.  The closing connection is still counted at that time, on both ways to the
end of a connection, so that a manager with all its connections opens none.
-/

namespace EvhtpHttp.Client

open EvhtpHttp.Support

/-- Exactly one connection was opened. -/
structure OneMore (m m' : CltMgr) : Prop where
  conns : ∃ new, m'.mgrConnList = m.mgrConnList ++ [new]
  nconn : m'.stats.nconn = m.stats.nconn + 1
  connCount : m'.stats.connCount = m.stats.connCount + 1

/-- The notification that the connection `c` is closing is handled, and exactly one
connection is opened. -/
def Replaced (ok : AllocOk) (data : ℤ) (m : CltMgr) (c : ConnCtl) : Prop :=
  ∃ m' c', cltMgrConnNotifyCb ok .connClosing data (m, c) = some (m', c') ∧ OneMore m m'

/-- The limit on all connections is not reached. -/
def BelowTotal (m : CltMgr) : Prop :=
  0 < m.cfg.targetTotalNconnCount → (m.stats.connCount : ℤ) < m.cfg.targetTotalNconnCount

/-- libevhtp frees the connection `id`, or the manager destroys it. -/
def Ends (id : ℕ) (ok : AllocOk) (e : LoopEvent) : Prop :=
  (∃ cause order, e = .close id cause order ok) ∨ ∃ order, e = .connDestroy id order ok

/-! ## The attempt -/

section Attempt

variable {ok : AllocOk} {m m' : CltMgr} {rc : ℤ}

theorem cltMgrCheckCreateConn_iff (hstate : m.mgrState = .running) (htotal : BelowTotal m) :
    cltMgrCheckCreateConn m = true ↔ m.stats.nconn < m.cfg.targetNconn := by
  rw [cltMgrCheckCreateConn_eq_true]
  constructor
  · exact fun hopen => hopen.2.2
  · exact fun hroom => ⟨Or.inl hstate, htotal, hroom⟩

/-- With memory and the pacer's leave an attempt in `RUNNING` opens a connection
exactly when there is room for one. -/
theorem oneMore_iff (hids : ∀ c ∈ m.mgrConnList, c.id ≠ m.nextId)
    (hstate : m.mgrState = .running) (htotal : BelowTotal m) (hpace : m.pacerCheck = true)
    (hok : ∀ b, ok b = true) (htry : cltMgrConnTryCreate ok m = some (m', rc)) :
    OneMore m m' ↔ m.stats.nconn < m.cfg.targetNconn := by
  rw [← cltMgrCheckCreateConn_iff hstate htotal]
  cases (cltMgrConnTryCreate_iff hids).mp htry with
  | refused hchecks =>
      refine iff_of_false (fun hone => ?_) fun hcheck => hchecks ⟨hcheck, hpace⟩
      exact absurd hone.nconn.symm (by simp)
  | noMemory _ _ hmgr => exact absurd (hok .mgrConn) (by simp [hmgr])
  | failed _ _ _ _ hfail =>
      obtain ⟨b, -, hb⟩ := hfail
      exact absurd (hok b) (by simp [hb])
  | opened hcheck => exact iff_of_true ⟨⟨_, rfl⟩, rfl, rfl⟩ hcheck

theorem cltMgrConnTryCreate_exists (hok : ∀ b, ok b = true) (haddr : m.AddressOk) :
    ∃ m' rc, cltMgrConnTryCreate ok m = some (m', rc) := by
  obtain rfl : ok = allocAll := funext hok
  obtain ⟨m', rc, htry, -⟩ := cltMgrConnTryCreate_total haddr
  exact ⟨m', rc, htry⟩

end Attempt

/-! ## The notification -/

section Notification

variable {ok : AllocOk} {m m' : CltMgr} {c c' : ConnCtl} {rc : ℤ}

theorem cltMgrConnCancelHttpReq_total (hev : c.evNewHttpReq ≠ none) :
    ∃ c₁, cltMgrConnCancelHttpReq c = some c₁ ∧ c₁.evConnDestroy = c.evConnDestroy := by
  obtain ⟨ev, hev⟩ := Option.ne_none_iff_exists'.mp hev
  by_cases hpending : c.pendingHttpReq = true
  · refine ⟨{ c with evNewHttpReq := some ⟨false⟩ }, ?_, rfl⟩
    simp [cltMgrConnCancelHttpReq, hpending, hev, eventDel]
  · refine ⟨c, ?_, rfl⟩
    simp [cltMgrConnCancelHttpReq, hpending]

theorem cltMgrConnDestroy_isSome :
    (∃ c₁, cltMgrConnDestroy c = some c₁) ↔ c.evConnDestroy ≠ none := by
  constructor
  · rintro ⟨c₁, h⟩
    obtain ⟨ev, hadd, -⟩ := Option.bind_eq_some_iff.mp h
    exact (eventAdd_eq_some.mp hadd).1
  · intro hev
    obtain ⟨ev, hev⟩ := Option.ne_none_iff_exists'.mp hev
    exact ⟨_, by simp only [cltMgrConnDestroy, hev, eventAdd, eventActive]; rfl⟩

theorem notify_connClosing_total (data : ℤ) (hev : c.evNewHttpReq ≠ none)
    (hdestroy : c.evConnDestroy ≠ none)
    (htry : cltMgrConnTryCreate ok m.closing = some (m', rc)) :
    ∃ c', cltMgrConnNotifyCb ok .connClosing data (m, c) = some (m', c') := by
  obtain ⟨c₁, hcancel, hsame⟩ := cltMgrConnCancelHttpReq_total hev
  obtain ⟨c₂, hc₂⟩ := cltMgrConnDestroy_isSome.mpr (by rwa [hsame] : c₁.evConnDestroy ≠ none)
  refine ⟨c₂, ?_⟩
  have htry' : cltMgrConnTryCreate ok { m with
      stats := { m.stats with connClosingCount := m.stats.connClosingCount + 1 } } =
      some (m', rc) := htry
  simp [cltMgrConnNotifyCb, hcancel, hc₂, htry']

/-- Without the event for its destruction a connection does not survive to be
replaced. -/
theorem notify_connClosing_destroy {data : ℤ} (hev : c.evNewHttpReq ≠ none)
    (h : cltMgrConnNotifyCb ok .connClosing data (m, c) = some (m', c')) :
    c.evConnDestroy ≠ none := by
  obtain ⟨c₁, hcancel, h⟩ := Option.bind_eq_some_iff.mp h
  obtain ⟨c₂, hc₂, -⟩ := Option.bind_eq_some_iff.mp h
  obtain ⟨c₃, hcancel', hsame⟩ := cltMgrConnCancelHttpReq_total hev
  obtain rfl := Option.some.inj (hcancel.symm.trans hcancel')
  rw [← hsame]
  exact cltMgrConnDestroy_isSome.mp ⟨c₂, hc₂⟩

end Notification

/-- In any reachable manager in `RUNNING`, the handler replaces a connection of the
list exactly when there is room for another one beside it. -/
theorem replaced_iff {cfg : MgrConfig} {m : CltMgr} (h : (cltMgrSystem cfg).Reachable m)
    (hstate : m.mgrState = .running) (htotal : BelowTotal m) {ok : AllocOk}
    (hok : ∀ b, ok b = true) {c : CltMgrConn} (hc : c ∈ m.mgrConnList) (data : ℤ)
    (hpace : m.pacerCheck = true) :
    Replaced ok data m c.toConnCtl ↔
      m.stats.nconn < m.cfg.targetNconn ∧ c.evConnDestroy ≠ none := by
  have hm := cltMgrOk_of_reachable h
  have hsourced := sourced_of_reachable h
  have hmem : c ∈ m.mgrConnList ++ m.freedConns := List.mem_append_left _ hc
  have hev := hsourced.evNewHttpReq c hmem
  have hids : ∀ x ∈ m.closing.mgrConnList, x.id ≠ m.closing.nextId :=
    RosterOk.ne_nextId hm.roster
  have hone : ∀ {m' : CltMgr} {rc : ℤ}, cltMgrConnTryCreate ok m.closing = some (m', rc) →
      (OneMore m m' ↔ m.stats.nconn < m.cfg.targetNconn) := by
    intro m' rc htry
    have hclosing : OneMore m m' ↔ OneMore m.closing m' :=
      ⟨fun h => ⟨h.conns, h.nconn, h.connCount⟩, fun h => ⟨h.conns, h.nconn, h.connCount⟩⟩
    exact hclosing.trans (oneMore_iff (m := m.closing) hids hstate htotal hpace hok htry)
  constructor
  · rintro ⟨m', c', hnotify, hmore⟩
    obtain ⟨-, rc, htry⟩ := notify_connClosing (hm.conns c hc).queued hnotify
    exact ⟨(hone htry).mp hmore, notify_connClosing_destroy hev hnotify⟩
  · rintro ⟨hroom, hdestroy⟩
    obtain ⟨m', rc, htry⟩ :=
      cltMgrConnTryCreate_exists (m := m.closing) hok (hsourced.addressOk c hmem)
    obtain ⟨c', hnotify⟩ := notify_connClosing_total data hev hdestroy htry
    exact ⟨m', c', hnotify, (hone htry).mpr hroom⟩

/-! ## Both ways to the end of a connection -/

/-- The event that ends an open connection makes one attempt to replace it, in a
manager that has not let go of the connection yet. -/
theorem ends_attempt {cfg : MgrConfig} {m m' : CltMgr} (h : (cltMgrSystem cfg).Reachable m)
    {ok : AllocOk} {c : CltMgrConn} (hc : c ∈ m.mgrConnList) (hopen : c.req.con ≠ none)
    {e : LoopEvent} (he : Ends c.id ok e) (hstep : cltMgrStep e m = some m') :
    ∃ m₁ m₂ rc, attempts e m = [(ok, m₁)] ∧ Kept m m₁ ∧
      cltMgrConnTryCreate ok m₁ = some (m₂, rc) ∧
      m'.stats.connCount = m₂.stats.connCount := by
  have hm := cltMgrOk_of_reachable h
  have hfind : m.findConn c.id = some c := by
    obtain ⟨pre, post, hlist⟩ := List.append_of_mem hc
    have hnodup := RosterOk.ids_nodup hm.roster
    rw [hlist] at hnodup
    rw [CltMgr.findConn, hlist]
    exact find?_split (fun x : CltMgrConn => x.id) hnodup
  rcases he with ⟨cause, order, rfl⟩ | ⟨order, rfl⟩
  · simp only [cltMgrStep, CltMgr.onConn, hfind, Option.bind_eq_bind, Option.bind_some] at hstep
    obtain ⟨⟨m₂, c'⟩, hclose, hput⟩ := Option.bind_eq_some_iff.mp hstep
    obtain rfl := Option.some.inj hput
    obtain ⟨m₁, rc, hone, hkept, htry⟩ := deliverClose_attempt (hm.conns c hc) hclose
    exact ⟨m₁, m₂, rc, by simpa [attempts, hfind] using hone, hkept, htry, rfl⟩
  · simp only [cltMgrStep, hfind, Option.bind_eq_bind, Option.bind_some] at hstep
    obtain ⟨-, r, m₂, ctl, hdestroy, rfl⟩ := deliverConnDestroy_eq_some hstep
    rcases cltConnDestroy_attempt (hm.conns c hc).linked hdestroy with
      ⟨hclosed, -⟩ | ⟨-, rc, hone, htry⟩
    · exact absurd hclosed hopen
    · exact ⟨m.closing, m₂, rc, by simpa [attempts, hfind] using hone, Kept.closing m, htry, rfl⟩

/-- In every reachable state of `RUNNING` below the limit on all connections, with
the pacer's leave and memory, a closing connection is replaced exactly when there
are fewer connections than the target with it still counted, and it has the event
for its destruction.  On either way to the end of an open connection there is one
attempt to replace it, and it opens one connection exactly when there are fewer. -/
theorem closing_replaced_iff {cfg : MgrConfig} {m : CltMgr} (h : (cltMgrSystem cfg).Reachable m)
    (hstate : m.mgrState = .running) (htotal : BelowTotal m) {ok : AllocOk}
    (hok : ∀ b, ok b = true) {c : CltMgrConn} (hc : c ∈ m.mgrConnList) :
    (∀ data, m.pacerCheck = true →
        (Replaced ok data m c.toConnCtl ↔
          m.stats.nconn < m.cfg.targetNconn ∧ c.evConnDestroy ≠ none)) ∧
      ∀ e m', c.req.con ≠ none → Ends c.id ok e → cltMgrStep e m = some m' →
        ∃ m₁ m₂ rc, attempts e m = [(ok, m₁)] ∧ Kept m m₁ ∧
          cltMgrConnTryCreate ok m₁ = some (m₂, rc) ∧
          m'.stats.connCount = m₂.stats.connCount ∧
          (m₁.pacerCheck = true →
            (OneMore m₁ m₂ ↔ m.stats.nconn < m.cfg.targetNconn)) := by
  refine ⟨replaced_iff h hstate htotal hok hc, ?_⟩
  intro e m' hopen he hstep
  obtain ⟨m₁, m₂, rc, hone, hkept, htry, hcount⟩ := ends_attempt h hc hopen he hstep
  refine ⟨m₁, m₂, rc, hone, hkept, htry, hcount, fun hpace => ?_⟩
  have hids := hkept.ids (RosterOk.ne_nextId (cltMgrOk_of_reachable h).roster)
  have htotal₁ : BelowTotal m₁ := by
    rw [BelowTotal, hkept.cfg, hkept.connCount]
    exact htotal
  have hiff := oneMore_iff hids (hkept.mgrState.trans hstate) htotal₁ hpace hok htry
  rwa [hkept.nconn, hkept.cfg] at hiff

/-- With the defaults, where two of 128 connections are open after the first tick,
the first one is replaced, also when libevhtp frees it. -/
theorem closing_replaced_first :
    ∃ m, (cltMgrSystem oneHostConfig).run [.timer fun _ => allocAll] = some m ∧
      ∃ c ∈ m.mgrConnList, Replaced allocAll 0 m c.toConnCtl ∧
        ∃ m₁ m₂, attempts (.close 0 .quiet .requestFirst allocAll) m = [(allocAll, m₁)] ∧
          OneMore m₁ m₂ := by
  have hrun : ∃ m c m', (cltMgrSystem oneHostConfig).run [.timer fun _ => allocAll] = some m ∧
      c ∈ m.mgrConnList ∧ c.id = 0 ∧ c.req.con ≠ none ∧ c.evConnDestroy ≠ none ∧
      m.mgrState = .running ∧ m.cfg.targetTotalNconnCount = -1 ∧ m.pacerCheck = true ∧
      m.stats.nconn < m.cfg.targetNconn ∧ m.cfg.targetRequestRate = -1 ∧
      cltMgrStep (.close 0 .quiet .requestFirst allocAll) m = some m' :=
    ⟨_, _, _, rfl, List.mem_cons_self, rfl, by decide, by decide, rfl, rfl, rfl, by decide, rfl,
      rfl⟩
  obtain ⟨m, c, m', hm, hc, hid, hopen, hdestroy, hstate, hlimit, hpace, hroom, hrate, hstep⟩ :=
    hrun
  have htotal : BelowTotal m := fun h => absurd h (by rw [hlimit]; decide)
  obtain ⟨hreplaced, hends⟩ := closing_replaced_iff ⟨_, hm⟩ hstate htotal (fun _ => rfl) hc
  obtain ⟨m₁, m₂, rc, hone, hkept, -, -, hiff⟩ :=
    hends _ m' hopen (Or.inl ⟨.quiet, .requestFirst, rfl⟩) (by rw [hid]; exact hstep)
  have hpace₁ : m₁.pacerCheck = true := by
    rw [CltMgr.pacerCheck, hkept.cfg, hrate]
    rfl
  rw [hid] at hone
  exact ⟨m, hm, c, hc, (hreplaced 0 hpace).mpr ⟨hroom, hdestroy⟩, m₁, m₂, hone,
    (hiff hpace₁).mpr hroom⟩

/-- With a target of two connections both are open after the first tick, and a
closing one is not replaced. -/
theorem full_pool_not_replaced :
    ∃ m, (cltMgrSystem { oneHostConfig with targetNconn := 2 }).run [.timer fun _ => allocAll] =
        some m ∧
      m.mgrState = .running ∧ BelowTotal m ∧ m.pacerCheck = true ∧
      m.stats.nconn = m.cfg.targetNconn ∧ ∃ c ∈ m.mgrConnList, ∃ m' c',
        cltMgrConnNotifyCb allocAll .connClosing 0 (m, c.toConnCtl) = some (m', c') ∧
          m'.mgrConnList = m.mgrConnList ∧ m'.stats.connCount = m.stats.connCount :=
  ⟨_, rfl, rfl, fun h => absurd h (by decide), rfl, rfl, _, List.mem_cons_self, _, _, rfl, rfl,
    rfl⟩

end EvhtpHttp.Client

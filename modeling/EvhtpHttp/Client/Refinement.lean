import EvhtpHttp.Client.Delivery

/-!
# The manager refines the ledger

Every event that `cltMgrStep` delivers is a step of the ledger, and keeps the
invariant of the connections that the correspondence rests on.
-/

namespace EvhtpHttp.Client

open EvhtpHttp.Support

/-- The invariant of a manager between events. -/
structure CltMgrOk (m : CltMgr) : Prop where
  conns : ∀ c ∈ m.mgrConnList, ConnOk c
  freed : ∀ c ∈ m.freedConns, isPending c.evConnDestroy = false
  roster : m.ledger.RosterOk

/-- What a step of the manager has to show. -/
def Refines (e : LoopEvent) (m m' : CltMgr) : Prop :=
  CltMgrOk m' ∧ LedgerStep e m.ledger m'.ledger

section Lists

variable {m : CltMgr} {pre post : List CltMgrConn} {c c' : CltMgrConn}

theorem RosterOk.ids_nodup (h : m.ledger.RosterOk) :
    (m.mgrConnList.map fun c => c.id).Nodup := by
  have hnodup := h.nodup
  simp only [CltMgr.ledger, List.map_append, List.map_map] at hnodup
  exact (List.nodup_append.mp hnodup).1

theorem RosterOk.ne_nextId (h : m.ledger.RosterOk) :
    ∀ c ∈ m.mgrConnList, c.id ≠ m.nextId := by
  intro c hc heq
  have hlt : c.id < m.nextId :=
    h.below c.entry (List.mem_append_left _ (List.mem_map_of_mem hc))
  omega

theorem CltMgr.ledger_conns_split (hlist : m.mgrConnList = pre ++ c :: post) :
    m.ledger.conns = pre.map CltMgrConn.entry ++ c.entry :: post.map CltMgrConn.entry := by
  simp [CltMgr.ledger, hlist]

theorem CltMgrOk.entryOk (h : CltMgrOk m) (hlist : m.mgrConnList = pre ++ c :: post) :
    EntryOk c.entry := by
  have hroster : Roster m.ledger.conns m.ledger.gone m.ledger.nextId := h.roster
  rw [CltMgr.ledger_conns_split hlist] at hroster
  exact hroster.entry

theorem CltMgrOk.connOk (h : CltMgrOk m) (hlist : m.mgrConnList = pre ++ c :: post) :
    ConnOk c :=
  h.conns c (by simp [hlist])

theorem putConn_split (hnodup : (m.mgrConnList.map fun c => c.id).Nodup)
    (hlist : m.mgrConnList = pre ++ c :: post) (hid : c'.id = c.id) :
    m.putConn c' = { m with mgrConnList := pre ++ c' :: post } := by
  rw [hlist] at hnodup
  obtain ⟨hpre, hpost⟩ := key_ne_of_nodup (fun x : CltMgrConn => x.id) hnodup
  rw [CltMgr.putConn, hlist,
    map_replace_split (fun x : CltMgrConn => x.id) hid hpre hpost]

theorem removeConn_split (hnodup : (m.mgrConnList.map fun c => c.id).Nodup)
    (hlist : m.mgrConnList = pre ++ c :: post) :
    m.removeConn c.id = { m with mgrConnList := pre ++ post } := by
  rw [hlist] at hnodup
  obtain ⟨hpre, hpost⟩ := key_ne_of_nodup (fun x : CltMgrConn => x.id) hnodup
  rw [CltMgr.removeConn, hlist,
    filter_ne_split (fun x : CltMgrConn => x.id) hpre hpost]

/-- A step that only rewrites one connection and the manager's counters keeps
the invariant. -/
theorem CltMgrOk.replace {m' : CltMgr} (h : CltMgrOk m)
    (hlist : m.mgrConnList = pre ++ c :: post)
    (hlist' : m'.mgrConnList = pre ++ c' :: post) (hfreed : m'.freedConns = m.freedConns)
    (hc' : ConnOk c') (hroster : m'.ledger.RosterOk) : CltMgrOk m' where
  conns := by
    intro x hx
    have hold := h.conns
    rw [hlist'] at hx
    rw [hlist] at hold
    simp only [List.mem_append, List.mem_cons] at hx hold
    rcases hx with hx | rfl | hx
    · exact hold x (Or.inl hx)
    · exact hc'
    · exact hold x (Or.inr (Or.inr hx))
  freed := by rw [hfreed]; exact h.freed
  roster := hroster

theorem onConn_eq_some {id : ℕ} {f : CltMgr → CltMgrConn → Option (CltMgr × CltMgrConn)}
    {m m' : CltMgr} (h : m.onConn id f = some m') :
    ∃ pre c post m₁ c', m.mgrConnList = pre ++ c :: post ∧ c.id = id ∧
      f m c = some (m₁, c') ∧ m' = m₁.putConn c' := by
  simp only [CltMgr.onConn, Option.bind_eq_bind, Option.bind_eq_some_iff] at h
  obtain ⟨c, hfind, ⟨m₁, c'⟩, hf, h⟩ := h
  cases h
  obtain ⟨pre, post, hlist, hid⟩ :=
    exists_split_of_find? (fun x : CltMgrConn => x.id) hfind
  exact ⟨pre, c, post, m₁, c', hlist, hid, hf, rfl⟩

end Lists

/-! ## Events of one connection -/

section Delivery

variable {e : LoopEvent} {m m₁ : CltMgr} {pre post : List CltMgrConn}
  {c c' : CltMgrConn}

/-- A step that changes one connection and no other refines the ledger when
the ledger can make the same change. -/
theorem refines_putConn {L : Ledger} {x : Entry} (hm : CltMgrOk m)
    (hlist : m.mgrConnList = pre ++ c :: post) (hid : c'.id = c.id)
    (hlist₁ : m₁.mgrConnList = m.mgrConnList) (hfreed : m₁.freedConns = m.freedConns)
    (hledger : m₁.ledger = L) (hc' : ConnOk c') (hx : c'.entry = x)
    (hstep : LedgerStep e m.ledger
      { L with conns := pre.map CltMgrConn.entry ++ x :: post.map CltMgrConn.entry }) :
    Refines e m (m₁.putConn c') := by
  have hnodup : (m₁.mgrConnList.map fun c => c.id).Nodup := by
    rw [hlist₁]
    exact RosterOk.ids_nodup hm.roster
  rw [putConn_split hnodup (hlist₁.trans hlist) hid]
  have hledger' : ({ m₁ with mgrConnList := pre ++ c' :: post } : CltMgr).ledger =
      { L with conns := pre.map CltMgrConn.entry ++ x :: post.map CltMgrConn.entry } := by
    rw [← hledger, ← hx]
    simp [CltMgr.ledger, CltMgr.timers]
  rw [← hledger'] at hstep
  exact ⟨hm.replace hlist rfl hfreed hc' (hstep.rosterOk hm.roster), hstep⟩

theorem newHttpReq_refines {strdupOk newOk : Bool} (hm : CltMgrOk m)
    (hlist : m.mgrConnList = pre ++ c :: post)
    (h : deliverNewHttpReq strdupOk newOk m c = some (m₁, c')) :
    Refines (.newHttpReq c.id strdupOk newOk) m (m₁.putConn c') := by
  have hc := hm.connOk hlist
  have hentry := hm.entryOk hlist
  have hconns := CltMgr.ledger_conns_split hlist
  obtain ⟨hqueued, r', rc, hcreate, hout⟩ := deliverNewHttpReq_eq_some hentry h
  obtain ⟨hreq, hcon⟩ := queued_idle hentry hqueued
  have hopen : c.entry.closed = false := by
    simpa [CltMgrConn.entry, Option.isSome_iff_ne_none] using hcon
  have hidle : c.entry.inFlight = false := by simp [CltMgrConn.entry, hreq]
  obtain ⟨hlinked, hcon', htimer', ⟨hrc, hfail, hreq', -⟩ | ⟨rfl, hreq', -⟩⟩ :=
    cltReqCreate_spec hc.linked hcon hreq hcreate
  · obtain ⟨-, rfl, rfl⟩ := hout.resolve_right fun hmade => hmade.1 hrc
    have hgiveUp : CltMgrConn.entry
        { c with
          evNewHttpReq := delivered c.evNewHttpReq
          pendingHttpReq := false
          req := r' } = c.entry.giveUp := by
      simp [CltMgrConn.entry, Entry.giveUp, hreq, hreq', htimer', hcon']
    exact refines_putConn hm hlist rfl rfl rfl
      (L := { m.ledger with
        stats := { m.stats with reqCountCreateErr := m.stats.reqCountCreateErr + 1 } })
      (by simp [CltMgr.ledger, CltMgr.timers, MgrMessage.isUnexpected])
      ⟨hlinked, by simp, hc.dead⟩ hgiveUp
      (LedgerStep.issueFailed hconns hqueued hfail)
  · obtain ⟨-, rfl, rfl⟩ := hout.resolve_left fun hfailed => absurd hfailed.1 (by decide)
    have hissue : CltMgrConn.entry
        { c with
          evNewHttpReq := delivered c.evNewHttpReq
          pendingHttpReq := false
          req := r'
          curReqCount := c.curReqCount + 1 } = c.entry.issue := by
      simp [CltMgrConn.entry, Entry.issue, hreq', htimer', hcon',
        Option.isSome_iff_ne_none]
    exact refines_putConn hm hlist rfl rfl rfl rfl ⟨hlinked, by simp, hc.dead⟩ hissue
      (LedgerStep.issue hconns hqueued hidle hopen)

theorem connTimeout_refines (hm : CltMgrOk m)
    (hlist : m.mgrConnList = pre ++ c :: post)
    (h : deliverConnTimeout m c = some (m₁, c')) :
    Refines (.connTimeout c.id) m (m₁.putConn c') := by
  have hc := hm.connOk hlist
  have hconns := CltMgr.ledger_conns_split hlist
  obtain ⟨htiming, ctl, hnotify, rfl⟩ := deliverConnTimeout_eq_some h
  obtain ⟨rfl, ev, hev, rfl⟩ := notify_requestTimeout hc.queued hnotify
  have hexpire : CltMgrConn.entry
      { c with
        isDead := true
        evConnDestroy := some ⟨true⟩
        evNewHttpReq := ev
        req := { c.req with evTimeout := delivered c.req.evTimeout } } =
      c.entry.expire := by
    simp [CltMgrConn.entry, Entry.expire, hev]
  exact refines_putConn hm hlist rfl rfl rfl rfl
    ⟨hc.linked.congr rfl rfl rfl, by simp [hev], rfl⟩ hexpire
    (LedgerStep.connTimeout hconns htiming)

theorem hookedRequest_isSome {r : ClientReq} (hr : Linked r) {q : ReqPtr}
    (h : hookedRequest r = some q) : r.con ≠ none ∧ r.req = some q := by
  simp only [hookedRequest, Option.bind_eq_bind, Option.bind_eq_some_iff] at h
  obtain ⟨con, hcon, p, hp, h⟩ := h
  split at h
  · cases h
    exact ⟨by simp [hcon], (hr.request con hcon).symm.trans hp⟩
  · cases h

theorem hookedRequest_of_inFlight {r : ClientReq} (hr : Linked r)
    (h : r.req.isSome = true) : ∃ q, hookedRequest r = some q := by
  obtain ⟨q, hq⟩ := Option.isSome_iff_exists.mp h
  cases hcon : r.con with
  | none =>
      rw [hr.closed hcon] at hq
      cases hq
  | some con =>
      have hrequest : con.request = some q := (hr.request con hcon).trans hq
      exact ⟨q, by simp [hookedRequest, hcon, hrequest, hr.hooked q hq]⟩

theorem data_refines {hook : DataHook} (hm : CltMgrOk m)
    (hlist : m.mgrConnList = pre ++ c :: post)
    (h : deliverData hook c = some c') :
    Refines (.data c.id hook) m (m.putConn c') := by
  have hc := hm.connOk hlist
  have hconns := CltMgr.ledger_conns_split hlist
  obtain ⟨q, r', hq, hdata, rfl⟩ := deliverData_eq_some h
  obtain ⟨-, hreq⟩ := hookedRequest_isSome hc.linked hq
  obtain ⟨hcon', hreq', hrequests', htimer'⟩ := cltUpstreamData_spec hdata
  have hflight : c.entry.inFlight = true := by simp [CltMgrConn.entry, hreq]
  have hhear : CltMgrConn.entry { c with req := r' } = c.entry.hear := by
    simp [CltMgrConn.entry, Entry.hear, hcon', hreq', htimer']
  exact refines_putConn hm hlist rfl rfl rfl rfl
    ⟨hc.linked.congr hcon' hreq' hrequests', hc.queued, hc.dead⟩ hhear
    (LedgerStep.data hconns hflight)

theorem complete_refines {status : ℤ} (hm : CltMgrOk m)
    (hlist : m.mgrConnList = pre ++ c :: post)
    (h : deliverComplete status m c = some (m₁, c')) :
    Refines (.complete c.id status) m (m₁.putConn c') := by
  have hc := hm.connOk hlist
  have hconns := CltMgr.ledger_conns_split hlist
  obtain ⟨con, q, r', ctl, hcon, hq, hreqCb, rfl⟩ := deliverComplete_eq_some h
  have hreq : c.req.req = some q := (hc.linked.request con hcon).symm.trans hq
  have hflight : c.entry.inFlight = true := by simp [CltMgrConn.entry, hreq]
  obtain ⟨⟨m₃, ctl₁⟩, con', hok, hdestroying, hcon', hr'con, hr'req, hr'timer⟩ :=
    cltReqCb_spec hreqCb
  have hlinked : Linked r' := Linked.of_idle hr'con
    (hc.linked.finiHook con' hcon') rfl hr'req
  obtain ⟨rfl, rfl⟩ := notify_requestDoneOk hok
  rcases notify_reqDestroying hdestroying with
    ⟨hconn, hissue, hpace, rfl, rfl⟩ | ⟨rfl, rfl⟩
  · have hnext : CltMgrConn.entry
        { c with pendingHttpReq := true, evNewHttpReq := some ⟨true⟩, req := r' } =
        c.entry.next := by
      simp [CltMgrConn.entry, Entry.next, hcon', hr'con, hr'req, hr'timer]
    have hrequest : m.ledger.MayRequest c.entry :=
      cltMgrConnCheckCreateHttpRequest_eq_true.mp hconn
    have hissue' : m.ledger.MayIssue := by
      have hmay := cltMgrCheckCreateHttpRequest_eq_true.mp hissue
      rw [countOk_eq] at hmay
      exact hmay
    exact refines_putConn hm hlist rfl rfl rfl rfl ⟨hlinked, fun _ => rfl, hc.dead⟩
      hnext (LedgerStep.completeNext hconns hflight hrequest hissue' hpace)
  · have hfinish : CltMgrConn.entry
        { c with isDead := true, evConnDestroy := some ⟨true⟩, req := r' } =
        c.entry.finish := by
      simp [CltMgrConn.entry, Entry.finish, hcon', hr'con, hr'req, hr'timer]
    exact refines_putConn hm hlist rfl rfl rfl rfl ⟨hlinked, hc.queued, rfl⟩
      hfinish (LedgerStep.completeLast hconns hflight)

end Delivery

/-! ## The end of a connection -/

section Teardown

variable {m m₁ : CltMgr} {pre post : List CltMgrConn} {c c' : CltMgrConn}

/-- The fields of a connection that no notification changes, and the flag that
lets a queued request be cancelled. -/
structure Keeps (c : CltMgrConn) (ctl : ConnCtl) : Prop where
  id : ctl.id = c.id
  target : ctl.targetRequestCount = c.targetRequestCount
  cur : ctl.curReqCount = c.curReqCount
  queued : isPending ctl.evNewHttpReq = true → ctl.pendingHttpReq = true

/-- The error hook of a request in flight is called before the connection is
freed when there was an error, and then counts one outcome. -/
theorem evhtpErrorHook_spec {cause : CloseCause} {ok : AllocOk} {r : ClientReq}
    {ctl : ConnCtl} (hc : ConnOk c)
    (h : evhtpErrorHook (cltMgrConnNotifyCb ok) cause c.req (m, c.toConnCtl) =
      some (r, m₁, ctl)) :
    ∃ o : Outcome,
      (o = .none ∧ (c.entry.inFlight = false ∨ cause = .quiet) ∨
        o ≠ .none ∧ c.entry.inFlight = true ∧ ∃ errtype, cause = .error errtype) ∧
        m₁ = { m with stats := o.count m.stats } ∧ Keeps c ctl ∧ Linked r ∧
        r.con = c.req.con := by
  have hkeeps : Keeps c c.toConnCtl := ⟨rfl, rfl, rfl, hc.queued⟩
  cases cause with
  | quiet =>
      cases h
      exact ⟨.none, Or.inl ⟨rfl, Or.inr rfl⟩, rfl, hkeeps, hc.linked, rfl⟩
  | error errtype =>
      cases hq : hookedRequest c.req with
      | none =>
          simp only [evhtpErrorHook, hq] at h
          cases h
          refine ⟨.none, Or.inl ⟨rfl, Or.inl ?_⟩, rfl, hkeeps, hc.linked, rfl⟩
          by_contra hflight
          have hreq : c.req.req ≠ none := by simpa [CltMgrConn.entry] using hflight
          obtain ⟨q, hsome⟩ := hookedRequest_of_inFlight hc.linked
            (Option.isSome_iff_ne_none.mpr hreq)
          rw [hq] at hsome
          cases hsome
      | some q =>
          simp only [evhtpErrorHook, hq] at h
          have hflight : c.entry.inFlight = true := by
            simp [CltMgrConn.entry, (hookedRequest_isSome hc.linked hq).2]
          obtain ⟨hnotify, rfl⟩ := cltUpstreamError_spec h
          have hlinked : Linked { c.req with evTimeout := some ⟨false⟩ } :=
            hc.linked.congr rfl rfl rfl
          split at hnotify
          · obtain ⟨rfl, ev, hev, rfl⟩ := notify_requestTimeout hc.queued hnotify
            exact ⟨.timeout, Or.inr ⟨by simp, hflight, errtype, rfl⟩, rfl,
              ⟨rfl, rfl, rfl, by simp [hev]⟩, hlinked, rfl⟩
          · obtain ⟨rfl, rfl⟩ := notify_requestDoneError hnotify
            exact ⟨.err, Or.inr ⟨by simp, hflight, errtype, rfl⟩, rfl, hkeeps, hlinked, rfl⟩

/-- Freeing a connection may queue one more request first, and then announces
that the connection is closing. -/
theorem evhtpConnectionFree_notify {order : FreeOrder} {ok : AllocOk}
    {r r' : ClientReq} {m' : CltMgr} {ctl ctl' : ConnCtl} (hkeeps : Keeps c ctl)
    (hlinked : Linked r) (hopen : r.con ≠ none)
    (h : evhtpConnectionFree (cltMgrConnNotifyCb ok) order r (m, ctl) =
      some (r', m', ctl')) :
    ∃ p rc, (p = m.pacer ∨ m.ledger.MayPace ∧ p = m.ledger.paceInc) ∧
      cltMgrConnTryCreate ok
        { m with pacer := p, stats := countClosing m.stats } = some (m', rc) ∧
      r'.con = none ∧ r'.req = none ∧ r'.evTimeout = some ⟨true⟩ ∧
      Keeps c ctl' ∧ isPending ctl'.evNewHttpReq = false ∧
      isPending ctl'.evConnDestroy = true ∧ ctl'.isDead = true := by
  obtain ⟨con, hcon⟩ := Option.ne_none_iff_exists'.mp hopen
  obtain ⟨hcon', hreq', htimer', ⟨m₂, ctl₂⟩, hclosing, horigin⟩ :=
    evhtpConnectionFree_spec hcon (hlinked.finiHook con hcon)
      (hlinked.request con hcon) h
  have hmiddle : ∃ p, (p = m.pacer ∨ m.ledger.MayPace ∧ p = m.ledger.paceInc) ∧
      m₂ = { m with pacer := p } ∧ Keeps c ctl₂ := by
    rcases horigin with heq | ⟨-, hdestroying⟩
    · cases heq
      exact ⟨m.pacer, Or.inl rfl, rfl, hkeeps⟩
    · rcases notify_reqDestroying hdestroying with ⟨-, -, hpace, rfl, rfl⟩ | ⟨rfl, rfl⟩
      · exact ⟨m.ledger.paceInc, Or.inr ⟨hpace, rfl⟩, rfl,
          ⟨hkeeps.id, hkeeps.target, hkeeps.cur, fun _ => rfl⟩⟩
      · exact ⟨m₂.pacer, Or.inl rfl, rfl,
          ⟨hkeeps.id, hkeeps.target, hkeeps.cur, hkeeps.queued⟩⟩
  obtain ⟨p, hp, rfl, hkeeps₂⟩ := hmiddle
  obtain ⟨⟨ev, hev, rfl⟩, rc, htry⟩ := notify_connClosing hkeeps₂.queued hclosing
  exact ⟨p, rc, hp, htry, hcon', hreq', htimer',
    ⟨hkeeps₂.id, hkeeps₂.target, hkeeps₂.cur, by simp [hev]⟩, hev, rfl, rfl⟩

/-- What a connection attempt does to a list that stands around `c`. -/
theorem tryCreate_split {ok : AllocOk} {m' : CltMgr} {rc : ℤ}
    (hroster : m.ledger.RosterOk) (hlist : m.mgrConnList = pre ++ c :: post)
    (h : cltMgrConnTryCreate ok m = some (m', rc)) :
    ∃ news, m'.mgrConnList = pre ++ c :: (post ++ news) ∧
      (∀ x ∈ news, ConnOk x) ∧ m'.freedConns = m.freedConns ∧ m'.ledger.RosterOk ∧
      ∀ l, TryOpen { m.ledger with conns := l }
        { m'.ledger with conns := l ++ news.map CltMgrConn.entry } := by
  have hids := RosterOk.ne_nextId hroster
  obtain ⟨⟨hfreed, news, hnews, hok⟩, -⟩ := cltMgrConnTryCreate_spec hids h
  have htry := cltMgrConnTryCreate_tryOpen hids h
  obtain ⟨entries, hentries, hframe⟩ := htry.conns_append
  have hsame : entries = news.map CltMgrConn.entry := by
    have hmap : m'.ledger.conns =
        m.ledger.conns ++ news.map CltMgrConn.entry := by
      simp [CltMgr.ledger, hnews]
    exact List.append_cancel_left (hentries.symm.trans hmap)
  subst hsame
  exact ⟨news, by simp [hnews, hlist], hok, hfreed, htry.rosterOk hroster, hframe⟩

theorem close_refines {cause : CloseCause} {order : FreeOrder} {ok : AllocOk}
    (hm : CltMgrOk m) (hlist : m.mgrConnList = pre ++ c :: post)
    (h : deliverClose cause order ok m c = some (m₁, c')) :
    Refines (.close c.id cause order ok) m (m₁.putConn c') := by
  have hc := hm.connOk hlist
  have hconns := CltMgr.ledger_conns_split hlist
  obtain ⟨con, r₁, m₂, ctl₁, r', ctl', hcon, herror, hfree, rfl⟩ := deliverClose_eq_some h
  have hopen : c.entry.closed = false := by simp [CltMgrConn.entry, hcon]
  obtain ⟨o, ho, rfl, hkeeps, hlinked, hcon₁⟩ := evhtpErrorHook_spec hc herror
  obtain ⟨p, rc, hp, htry, hcon', hreq', htimer', hkeeps', hnew, hdestroy, hdead⟩ :=
    evhtpConnectionFree_notify hkeeps hlinked (by simp [hcon₁, hcon]) hfree
  obtain ⟨news, hlist₁, hnews, hfreed, hroster₁, hframe⟩ :=
    tryCreate_split (m := { m with
      pacer := p
      stats := countClosing (o.count m.stats) }) hm.roster hlist htry
  have hclose : CltMgrConn.entry { toConnCtl := ctl', req := r' } = c.entry.close := by
    simp [CltMgrConn.entry, Entry.close, hkeeps'.id, hkeeps'.target, hkeeps'.cur, hnew,
      hdead, hcon', hreq', htimer']
  rw [putConn_split (RosterOk.ids_nodup hroster₁) hlist₁ hkeeps'.id]
  have hstep : LedgerStep (.close c.id cause order ok) m.ledger
      ({ m₁ with mgrConnList :=
          pre ++ { toConnCtl := ctl', req := r' } :: (post ++ news) } : CltMgr).ledger := by
    refine LedgerStep.close hconns hopen ho hp ?_
    have hopened := hframe (pre.map CltMgrConn.entry ++
      c.entry.close :: post.map CltMgrConn.entry)
    have hledger : ({ m₁ with mgrConnList :=
          pre ++ { toConnCtl := ctl', req := r' } :: (post ++ news) } : CltMgr).ledger =
        { m₁.ledger with conns := pre.map CltMgrConn.entry ++
            c.entry.close :: post.map CltMgrConn.entry ++ news.map CltMgrConn.entry } := by
      simp [CltMgr.ledger, CltMgr.timers, hclose]
    rw [hledger]
    exact hopened
  refine ⟨⟨?_, ?_, hstep.rosterOk hm.roster⟩, hstep⟩
  · intro x hx
    have hold := hm.conns
    rw [hlist] at hold
    simp only [List.mem_append, List.mem_cons] at hx hold
    rcases hx with hx | rfl | hx | hx
    · exact hold x (Or.inl hx)
    · exact ⟨Linked.of_closed hcon' hreq', hkeeps'.queued, hdestroy.trans hdead.symm⟩
    · exact hold x (Or.inr (Or.inr hx))
    · exact hnews x hx
  · rw [hfreed]
    exact hm.freed

theorem freed_entry {ctl : ConnCtl} {r : ClientReq}
    (hkeeps : Keeps c ctl) (hdead : ctl.isDead = true) (hcon : r.con = none)
    (hreq : r.req = none) (htimer : isPending r.evTimeout = false) :
    CltMgrConn.entry
      { ctl with
        evNewHttpReq := some ⟨false⟩
        evConnDestroy := some ⟨false⟩
        req := r } = c.entry.free := by
  simp [CltMgrConn.entry, Entry.free, hkeeps.id, hkeeps.target, hkeeps.cur, hdead,
    hcon, hreq, htimer]

theorem CltMgrOk.free {m' : CltMgr} {news : List CltMgrConn} {x : CltMgrConn}
    (hm : CltMgrOk m) (hlist : m.mgrConnList = pre ++ c :: post)
    (hnews : ∀ y ∈ news, ConnOk y) (hlist' : m'.mgrConnList = pre ++ (post ++ news))
    (hfreed : m'.freedConns = m.freedConns ++ [x])
    (hx : isPending x.evConnDestroy = false) (hroster : m'.ledger.RosterOk) :
    CltMgrOk m' where
  conns := by
    intro y hy
    have hold := hm.conns
    rw [hlist'] at hy
    rw [hlist] at hold
    simp only [List.mem_append, List.mem_cons] at hy hold
    rcases hy with hy | hy | hy
    · exact hold y (Or.inl hy)
    · exact hold y (Or.inr (Or.inr hy))
    · exact hnews y hy
  freed := by
    intro y hy
    rw [hfreed] at hy
    rcases List.mem_append.mp hy with hy | hy
    · exact hm.freed y hy
    · cases List.mem_singleton.mp hy
      exact hx
  roster := hroster

theorem ledger_freeConn {l : List CltMgrConn} {x : CltMgrConn} {conns before after : List Entry}
    {y : Entry} (hl : l.map CltMgrConn.entry = before ++ after) (hx : x.entry = y.free) :
    ({ m with
        mgrConnList := l
        stats := { m.stats with nconn := m.stats.nconn - 1 }
        freedConns := m.freedConns ++ [x] } : CltMgr).ledger =
      ({ m.ledger with conns := conns } : Ledger).freeConn before y after := by
  simp [CltMgr.ledger, CltMgr.timers, Ledger.freeConn, hl, hx]

theorem connDestroy_refines {order : FreeOrder} {ok : AllocOk}
    (hm : CltMgrOk m) (hlist : m.mgrConnList = pre ++ c :: post)
    (h : deliverConnDestroy order ok m c = some m₁) :
    Refines (.connDestroy c.id order ok) m m₁ := by
  have hc := hm.connOk hlist
  have hconns := CltMgr.ledger_conns_split hlist
  obtain ⟨hpending, r, m₂, ctl, hdestroy, rfl⟩ := deliverConnDestroy_eq_some h
  have hdead : c.entry.dead = true := hc.dead.symm.trans hpending
  by_cases hcon : c.req.con = none
  · obtain ⟨heq, hcon', hreq', htimer'⟩ :=
      cltConnDestroy_closed hc.linked hcon hdestroy
    cases heq
    have hclosed : c.entry.closed = true := by simp [CltMgrConn.entry, hcon]
    have hkeeps : Keeps c { c.toConnCtl with
        evNewHttpReq := some ⟨false⟩, evConnDestroy := some ⟨false⟩ } :=
      ⟨rfl, rfl, rfl, by simp⟩
    have hentry := freed_entry hkeeps hdead hcon' hreq' htimer'
    rw [removeConn_split (RosterOk.ids_nodup hm.roster) hlist]
    have hstep : LedgerStep (.connDestroy c.id order ok) m.ledger _ :=
      LedgerStep.destroyClosed hconns hdead hclosed
    rw [← ledger_freeConn List.map_append hentry] at hstep
    have hnone : ∀ y ∈ ([] : List CltMgrConn), ConnOk y := by simp
    exact ⟨hm.free hlist hnone (by simp) rfl rfl (hstep.rosterOk hm.roster), hstep⟩
  · obtain ⟨con, hcon⟩ := Option.ne_none_iff_exists'.mp hcon
    obtain ⟨hclosing, hcon', hreq', htimer'⟩ :=
      cltConnDestroy_open hc.linked hcon hdestroy
    obtain ⟨⟨ev, hev, rfl⟩, rc, htry⟩ := notify_connClosing (by simp) hclosing
    have hopen : c.entry.closed = false := by simp [CltMgrConn.entry, hcon]
    obtain ⟨news, hlist₂, hnews, hfreed, hroster₂, hframe⟩ :=
      tryCreate_split (m := { m with stats := countClosing m.stats })
        hm.roster hlist htry
    have hkeeps : Keeps c { c.toConnCtl with
        isDead := true, evNewHttpReq := ev, evConnDestroy := some ⟨true⟩ } :=
      ⟨rfl, rfl, rfl, by simp [hev]⟩
    have hentry := freed_entry hkeeps rfl hcon' hreq' htimer'
    rw [removeConn_split (RosterOk.ids_nodup hroster₂) hlist₂]
    have hopened : TryOpen (m.ledger.closeConn (pre.map CltMgrConn.entry) c.entry
          (post.map CltMgrConn.entry) .none m.ledger.pacer)
        { m₂.ledger with conns := pre.map CltMgrConn.entry ++ c.entry.close ::
          (post ++ news).map CltMgrConn.entry } := by
      have happend : pre.map CltMgrConn.entry ++ c.entry.close ::
            (post ++ news).map CltMgrConn.entry =
          pre.map CltMgrConn.entry ++ c.entry.close :: post.map CltMgrConn.entry ++
            news.map CltMgrConn.entry := by
        simp
      rw [happend]
      exact hframe _
    have hstep : LedgerStep (.connDestroy c.id order ok) m.ledger _ :=
      LedgerStep.destroyOpen hconns hdead hopen hopened rfl
    rw [← ledger_freeConn (y := c.entry.close) List.map_append hentry] at hstep
    exact ⟨hm.free hlist hnews rfl (by rw [hfreed]) rfl
      (hstep.rosterOk hm.roster), hstep⟩

end Teardown

/-! ## The manager's timers -/

section TimerEvents

variable {m m' : CltMgr}

theorem CltMgrOk.congr (hm : CltMgrOk m) (hlist : m'.mgrConnList = m.mgrConnList)
    (hfreed : m'.freedConns = m.freedConns) (hid : m'.nextId = m.nextId) :
    CltMgrOk m' where
  conns := by rw [hlist]; exact hm.conns
  freed := by rw [hfreed]; exact hm.freed
  roster := by
    have hroster := hm.roster
    simpa only [Ledger.RosterOk, CltMgr.ledger, hlist, hfreed, hid] using hroster

theorem cltMgrBurst_burst {ok : ℕ → AllocOk} {fuel : ℕ} :
    ∀ {i : ℤ} {j : ℕ} {m m' : CltMgr}, m.ledger.RosterOk →
      cltMgrBurst ok fuel i j m = some m' →
        Extends m m' ∧ ∃ k ≤ fuel, Burst m.ledger k m'.ledger := by
  induction fuel with
  | zero =>
      intro i j m m' _ h
      cases h
      exact ⟨Extends.refl m, 0, le_refl 0, Burst.done _⟩
  | succ fuel ih =>
      intro i j m m' hroster h
      obtain ⟨-, rfl⟩ | ⟨-, m₁, rc, htry, hrest⟩ := cltMgrBurst_succ_eq_some h
      · exact ⟨Extends.refl _, 0, Nat.zero_le _, Burst.done _⟩
      have hids := RosterOk.ne_nextId hroster
      have hroster₁ := (cltMgrConnTryCreate_tryOpen hids htry).rosterOk hroster
      obtain ⟨hextends, ⟨rfl, hstop⟩ | ⟨rfl, hopen, hpace, hledger⟩⟩ :=
        cltMgrConnTryCreate_spec hids htry
      · obtain ⟨-, rfl⟩ := hrest.resolve_right fun hmore => hmore.1 (by decide)
        refine ⟨hextends, 0, Nat.zero_le _, ?_⟩
        rcases hstop with rfl | ⟨hopen, hpace, hledger⟩
        · exact Burst.done _
        · exact hledger ▸ Burst.failed hopen hpace
      · obtain ⟨-, hmore⟩ := hrest.resolve_left fun hend => absurd hend.1 (by decide)
        obtain ⟨hextends', k, hk, hburst⟩ := ih hroster₁ hmore
        rw [hledger] at hburst
        exact ⟨hextends.trans hextends', k + 1, Nat.succ_le_succ hk,
          Burst.opened hopen hpace hburst⟩

/-- The loop variable `j` ends the connection loop: more iterations than
`burst_conn` leaves room for change nothing. -/
theorem cltMgrBurst_fuel {ok : ℕ → AllocOk} {fuel more : ℕ} :
    ∀ {i : ℤ} {j : ℕ} {m : CltMgr}, m.ledger.RosterOk → m.cfg.burstConn < j + fuel →
      cltMgrBurst ok (fuel + more) i j m = cltMgrBurst ok fuel i j m := by
  induction fuel with
  | zero =>
      intro i j m _ hj
      have hend : ¬ (i < m.cfg.targetNconn ∧ (j : ℤ) ≤ m.cfg.burstConn) := by omega
      cases more with
      | zero => rfl
      | succ more => simp [cltMgrBurst, hend]
  | succ fuel ih =>
      intro i j m hroster hj
      rw [Nat.succ_add]
      simp only [cltMgrBurst]
      by_cases hloop : i < m.cfg.targetNconn ∧ (j : ℤ) ≤ m.cfg.burstConn
      · simp only [if_pos hloop]
        cases htry : cltMgrConnTryCreate (ok j) m with
        | none => rfl
        | some result =>
            obtain ⟨m₁, rc⟩ := result
            have hopen := cltMgrConnTryCreate_tryOpen (RosterOk.ne_nextId hroster) htry
            have hburst : m₁.cfg.burstConn = m.cfg.burstConn :=
              congrArg Limits.burstConn hopen.limits_eq
            have hrest := ih (i := i + 1) (j := j + 1) (hopen.rosterOk hroster) (by
              rw [hburst]
              push_cast at hj ⊢
              omega)
            simp only [Option.bind_eq_bind, Option.bind_some, hrest]
      · simp only [if_neg hloop]

theorem statTimer_refines (hm : CltMgrOk m)
    (h : cltMgrStep .statTimer m = some m') : Refines .statTimer m m' := by
  simp only [cltMgrStep] at h
  obtain ⟨hpending, h⟩ := Option.ite_none_right_eq_some.mp h
  have hstep := LedgerStep.statTimer (s := m.ledger) hpending
  simp only [cltMgrStatTimer] at h
  split at h
  · rename_i hstate
    cases h
    have hcompleted : m.mgrState = .completed := hstate
    refine ⟨hm.congr rfl rfl rfl, ?_⟩
    simpa [CltMgr.ledger, CltMgr.timers, mgrStatsCopy, hcompleted] using hstep
  · rename_i hstate
    cases h
    have hcompleted : m.mgrState ≠ .completed := hstate
    refine ⟨hm.congr rfl rfl rfl, ?_⟩
    simpa [CltMgr.ledger, CltMgr.timers, mgrStatsCopy, hcompleted] using hstep

theorem runningTimer_refines (hm : CltMgrOk m)
    (h : cltMgrStep .runningTimer m = some m') : Refines .runningTimer m m' := by
  simp only [cltMgrStep] at h
  obtain ⟨hpending, h⟩ := Option.ite_none_right_eq_some.mp h
  cases h
  exact ⟨hm.congr rfl rfl rfl, LedgerStep.runningTimer (s := m.ledger) hpending⟩

theorem waitTimer_refines (hm : CltMgrOk m)
    (h : cltMgrStep .waitTimer m = some m') : Refines .waitTimer m m' := by
  simp only [cltMgrStep] at h
  obtain ⟨hpending, h⟩ := Option.ite_none_right_eq_some.mp h
  simp only [cltMgrWaitingTimer] at h
  split at h
  · rename_i hstate
    cases h
    have hstep := LedgerStep.waitTimerUnexpected (s := m.ledger) hpending hstate
    refine ⟨hm.congr rfl rfl rfl, ?_⟩
    simpa [CltMgr.ledger, CltMgr.timers, MgrMessage.isUnexpected] using hstep
  · rename_i hstate
    cases h
    exact ⟨hm.congr rfl rfl rfl,
      LedgerStep.waitTimer (s := m.ledger) hpending (not_not.mp hstate)⟩

theorem cltMgrDestroyAll_spec {conns conns' : List CltMgrConn}
    (h : cltMgrDestroyAll conns = some conns') (hconns : ∀ c ∈ conns, ConnOk c) :
    conns'.map CltMgrConn.entry = (conns.map CltMgrConn.entry).map Entry.kill ∧
      ∀ c ∈ conns', ConnOk c := by
  induction conns generalizing conns' with
  | nil =>
      cases h
      simp
  | cons c conns ih =>
      simp only [cltMgrDestroyAll, Option.bind_eq_bind, Option.bind_eq_some_iff] at h
      obtain ⟨ctl, hdestroy, rest, hrest, h⟩ := h
      cases h
      have hc := hconns c (by simp)
      obtain ⟨hentries, hrestOk⟩ := ih hrest fun x hx => hconns x (by simp [hx])
      rw [cltMgrConnDestroy_spec hdestroy]
      constructor
      · simp [hentries, CltMgrConn.entry, Entry.kill]
      · intro x hx
        rcases List.mem_cons.mp hx with rfl | hx
        · exact ⟨hc.linked, hc.queued, rfl⟩
        · exact hrestOk x hx

theorem cleanupTimer_refines (hm : CltMgrOk m)
    (h : cltMgrStep .cleanupTimer m = some m') : Refines .cleanupTimer m m' := by
  simp only [cltMgrStep] at h
  obtain ⟨hpending, h⟩ := Option.ite_none_right_eq_some.mp h
  simp only [cltMgrCleanupTimer] at h
  split at h
  · rename_i hstate
    cases h
    have hstep := LedgerStep.cleanupTimerUnexpected (s := m.ledger) hpending hstate
    refine ⟨hm.congr rfl rfl rfl, ?_⟩
    simpa [CltMgr.ledger, CltMgr.timers, MgrMessage.isUnexpected] using hstep
  · rename_i hstate
    obtain ⟨conns, hconns, h⟩ := Option.bind_eq_some_iff.mp h
    cases h
    obtain ⟨hentries, hok⟩ := cltMgrDestroyAll_spec hconns hm.conns
    have hstep : LedgerStep .cleanupTimer m.ledger
        (cltMgrStateChange .cleanupWaiting { m with
          tCleanupTimerev := ⟨false⟩, mgrConnList := conns }).ledger := by
      have hledger := LedgerStep.cleanupTimer (s := m.ledger) hpending
        (not_not.mp hstate)
      simp only [CltMgr.ledger, cltMgrStateChange, hentries] at hledger ⊢
      exact hledger
    exact ⟨⟨hok, hm.freed, hstep.rosterOk hm.roster⟩, hstep⟩

theorem Burst.timers {s s' : Ledger} {k : ℕ} (h : Burst s k s') (t : Timers) :
    Burst { s with timers := t } k { s' with timers := t } := by
  induction h with
  | done => exact Burst.done _
  | failed hopen hpace => exact Burst.failed hopen hpace
  | opened hopen hpace _ ih => exact Burst.opened hopen hpace ih

/-- The parts of a tick in `RUNNING`: the pacer, the connections, the limits. -/
theorem cltMgrTimerStateRunning_eq_some {ok : ℕ → AllocOk}
    (h : cltMgrTimerStateRunning ok m = some m') :
    ∃ p m₂, { m.ledger with pacer := p } = m.ledger.paced ∧
      cltMgrBurst ok (m.cfg.burstConn + 1).toNat m.stats.nconn 0
        { m with pacer := p } = some m₂ ∧
      m' = if cltMgrCheckFinished m₂ then cltMgrStateSetWaiting m₂ else m₂ := by
  have hend : ∀ m₁ : CltMgr,
      (do
        let m₂ ← cltMgrBurst ok (m₁.cfg.burstConn + 1).toNat m₁.stats.nconn 0 m₁
        if cltMgrCheckFinished m₂ then return cltMgrStateSetWaiting m₂
        else return m₂) = some m' →
      ∃ m₂, cltMgrBurst ok (m₁.cfg.burstConn + 1).toNat m₁.stats.nconn 0 m₁ = some m₂ ∧
        m' = if cltMgrCheckFinished m₂ then cltMgrStateSetWaiting m₂ else m₂ := by
    intro m₁ h₁
    obtain ⟨m₂, hburst, h₁⟩ := Option.bind_eq_some_iff.mp h₁
    refine ⟨m₂, hburst, ?_⟩
    by_cases hfin : cltMgrCheckFinished m₂ = true
    · simp only [hfin, if_true] at h₁ ⊢
      exact (Option.some.inj h₁).symm
    · simp only [hfin, if_false, Bool.false_eq_true] at h₁ ⊢
      exact (Option.some.inj h₁).symm
  unfold cltMgrTimerStateRunning at h
  by_cases hrate : m.cfg.targetRequestRate > 0
  · rw [if_pos hrate] at h
    obtain ⟨m₂, hburst, hm'⟩ := hend _ h
    exact ⟨_, m₂, (Ledger.paced_of_pos m.ledger hrate).symm, hburst, hm'⟩
  · rw [if_neg hrate] at h
    obtain ⟨m₂, hburst, hm'⟩ := hend _ h
    exact ⟨m.pacer, m₂, (Ledger.paced_of_not_pos m.ledger hrate).symm, hburst, hm'⟩

theorem cltMgrTimerStateRunning_spec {ok : ℕ → AllocOk} (hm : CltMgrOk m)
    (h : cltMgrTimerStateRunning ok m = some m') :
    CltMgrOk m' ∧ ∃ (k : ℕ) (s' : Ledger), (k : ℤ) ≤ max (m.cfg.burstConn + 1) 0 ∧
      Burst m.ledger.paced k s' ∧ m'.ledger = s'.tickEnd := by
  obtain ⟨p, m₂, hpaced, hburst, rfl⟩ := cltMgrTimerStateRunning_eq_some h
  have hm₁ : CltMgrOk { m with pacer := p } := hm.congr rfl rfl rfl
  obtain ⟨⟨hfreed, news, hlist, hnews⟩, k, hk, hB⟩ := cltMgrBurst_burst hm₁.roster hburst
  have hm₂ : CltMgrOk m₂ := by
    refine ⟨?_, ?_, hB.rosterOk hm₁.roster⟩
    · intro c hc
      rw [hlist] at hc
      rcases List.mem_append.mp hc with hc | hc
      · exact hm.conns c hc
      · exact hnews c hc
    · rw [hfreed]
      exact hm.freed
  have hcount : (k : ℤ) ≤ max (m.cfg.burstConn + 1) 0 := by omega
  rw [show ({ m with pacer := p } : CltMgr).ledger = m.ledger.paced from hpaced] at hB
  by_cases hfin : cltMgrCheckFinished m₂ = true
  · rw [if_pos hfin]
    have hfinished : m₂.ledger.Finished := cltMgrCheckFinished_eq_true.mp hfin
    refine ⟨hm₂.congr rfl rfl rfl, k, m₂.ledger, hcount, hB, ?_⟩
    rw [Ledger.tickEnd, if_pos hfinished]
    rfl
  · rw [if_neg hfin]
    have hunfinished : ¬ m₂.ledger.Finished := fun hfinished =>
      hfin (cltMgrCheckFinished_eq_true.mpr hfinished)
    refine ⟨hm₂, k, m₂.ledger, hcount, hB, ?_⟩
    rw [Ledger.tickEnd, if_neg hunfinished]

/-- The periodic timer may as well stay pending while a tick is handled. -/
theorem rearm_tickEnd_timers {s : Ledger} {t : Timers}
    (h : s.timers = { t with timer := false }) :
    s.tickEnd.rearm = ({ s with timers := t } : Ledger).tickEnd.rearm := by
  by_cases hfin : s.Finished
  · have hfin' : ({ s with timers := t } : Ledger).Finished := hfin
    rw [Ledger.tickEnd, if_pos hfin, Ledger.tickEnd, if_pos hfin']
    simp [Ledger.rearm, Ledger.toWaiting, h]
  · have hfin' : ¬ ({ s with timers := t } : Ledger).Finished := hfin
    rw [Ledger.tickEnd, if_neg hfin, Ledger.tickEnd, if_neg hfin']
    simp [Ledger.rearm, h]

theorem tickRunning_refines {ok : ℕ → AllocOk} (hm : CltMgrOk m)
    (hpending : m.tTimerev.pending = true) (hstate : m.mgrState = .running)
    (h : cltMgrTimer ok { m with tTimerev := ⟨false⟩ } = some m') :
    Refines (.timer ok) m m' := by
  simp only [cltMgrTimer, hstate, Option.bind_eq_bind] at h
  obtain ⟨m₂, hrun, h⟩ := Option.bind_eq_some_iff.mp h
  set m₀ : CltMgr := { m with tTimerev := ⟨false⟩ } with hdef
  have hm₀ : CltMgrOk m₀ := hm.congr rfl rfl rfl
  have hrun₀ : cltMgrTimerStateRunning ok m₀ = some m₂ := by
    simpa only [hdef, hstate] using hrun
  obtain ⟨hm₂, k, s', hk, hB, hledger⟩ := cltMgrTimerStateRunning_spec hm₀ hrun₀
  have hB' := hB.timers m.ledger.timers
  have hpaced : { m₀.ledger.paced with timers := m.ledger.timers } = m.ledger.paced := by
    by_cases hrate : 0 < m.cfg.targetRequestRate
    · simp [Ledger.paced, CltMgr.ledger, MgrConfig.limits, hdef, hrate]
    · simp [Ledger.paced, CltMgr.ledger, MgrConfig.limits, hdef, hrate]
  rw [hpaced] at hB'
  have hstep : LedgerStep (.timer ok) m.ledger _ :=
    LedgerStep.tickRunning hpending hstate hk hB'
  have hs' : s'.timers = { m.timers with timer := false } :=
    hB.timers_eq.trans (Ledger.paced_timers m₀.ledger)
  have hrunning : s'.state = .running :=
    hB.state_eq.trans ((Ledger.paced_state m₀.ledger).trans hstate)
  have hopen : m₂.mgrState ≠ .completed := by
    intro hcompleted
    have htick : s'.tickEnd.state = .completed :=
      (congrArg Ledger.state hledger).symm.trans hcompleted
    unfold Ledger.tickEnd at htick
    split at htick
    · cases htick
    · rw [hrunning] at htick
      cases htick
  rw [if_neg hopen] at h
  cases h
  have hend : ({ m₂ with tTimerev := ⟨true⟩ } : CltMgr).ledger =
      ({ s' with timers := m.ledger.timers } : Ledger).tickEnd.rearm := by
    have hrearm : ({ m₂ with tTimerev := ⟨true⟩ } : CltMgr).ledger = m₂.ledger.rearm := rfl
    rw [hrearm, hledger]
    exact rearm_tickEnd_timers hs'
  rw [← hend] at hstep
  exact ⟨hm₂.congr rfl rfl rfl, hstep⟩

theorem tickOther_refines {ok : ℕ → AllocOk} (hm : CltMgrOk m)
    (hpending : m.tTimerev.pending = true) (hstate : m.mgrState ≠ .running)
    (h : cltMgrTimer ok { m with tTimerev := ⟨false⟩ } = some m') :
    Refines (.timer ok) m m' := by
  have hinvalid : m.mgrState = .none ∨ m.mgrState = .init →
      m' = { m with tTimerev := ⟨true⟩, messages := m.messages ++ [.notValidState m.mgrState] } →
      Refines (.timer ok) m m' := by
    rintro hphase rfl
    have hstep : LedgerStep (.timer ok) m.ledger _ :=
      LedgerStep.tickInvalid hpending hphase
    refine ⟨hm.congr rfl rfl rfl, ?_⟩
    simpa [CltMgr.ledger, CltMgr.timers, MgrMessage.isUnexpected, hpending] using hstep
  cases hphase : m.mgrState with
  | running => exact absurd hphase hstate
  | none =>
      simp only [cltMgrTimer, hphase] at h
      cases h
      exact hinvalid (Or.inl hphase) (by rw [hphase])
  | init =>
      simp only [cltMgrTimer, hphase] at h
      cases h
      exact hinvalid (Or.inr hphase) (by rw [hphase])
  | waiting =>
      simp only [cltMgrTimer, hphase, cltMgrTimerStateWaiting] at h
      by_cases hconns : m.stats.nconn = 0
      · simp [cltMgrCheckWaitingFinished, hconns, cltMgrCleanupSchedule,
          cltMgrWaitingDeschedule, cltMgrStateChange] at h
        subst h
        have hstep : LedgerStep (.timer ok) m.ledger _ :=
          LedgerStep.tickWaitingDone hpending hphase hconns
        refine ⟨hm.congr rfl rfl rfl, ?_⟩
        simpa [CltMgr.ledger, CltMgr.timers, Ledger.toCleanup, hpending] using hstep
      · simp [cltMgrCheckWaitingFinished, hconns] at h
        subst h
        have hstep : LedgerStep (.timer ok) m.ledger _ :=
          LedgerStep.tickWaiting hpending hphase hconns
        refine ⟨hm.congr rfl rfl rfl, ?_⟩
        simpa [CltMgr.ledger, CltMgr.timers, hpending, hphase] using hstep
  | cleanup =>
      simp only [cltMgrTimer, hphase] at h
      cases h
      have hstep : LedgerStep (.timer ok) m.ledger _ :=
        LedgerStep.tickCleanup hpending hphase
      refine ⟨hm.congr rfl rfl rfl, ?_⟩
      simpa [CltMgr.ledger, CltMgr.timers, hpending, hphase] using hstep
  | cleanupWaiting =>
      simp only [cltMgrTimer, hphase, cltMgrTimerStateCleanupWaiting] at h
      by_cases hconns : m.stats.nconn = 0
      · simp [hconns, cltMgrStateChange] at h
        subst h
        have hstep : LedgerStep (.timer ok) m.ledger _ :=
          LedgerStep.tickCompleted hpending hphase hconns
        exact ⟨hm.congr rfl rfl rfl, hstep⟩
      · simp [hconns] at h
        subst h
        have hstep : LedgerStep (.timer ok) m.ledger _ :=
          LedgerStep.tickCleanupWaiting hpending hphase hconns
        refine ⟨hm.congr rfl rfl rfl, ?_⟩
        simpa [CltMgr.ledger, CltMgr.timers, hpending, hphase] using hstep
  | completed =>
      simp only [cltMgrTimer, hphase] at h
      cases h
      have hstep : LedgerStep (.timer ok) m.ledger _ :=
        LedgerStep.tickLate hpending hphase
      refine ⟨hm.congr rfl rfl rfl, ?_⟩
      simpa [CltMgr.ledger, CltMgr.timers, hphase] using hstep

end TimerEvents

/-! ## Every event -/

/-- Every event that is delivered is a step of the ledger. -/
theorem cltMgrStep_refines {e : LoopEvent} {m m' : CltMgr} (hm : CltMgrOk m)
    (h : cltMgrStep e m = some m') : Refines e m m' := by
  cases e with
  | timer ok =>
      simp only [cltMgrStep] at h
      obtain ⟨hpending, h⟩ := Option.ite_none_right_eq_some.mp h
      by_cases hstate : m.mgrState = .running
      · exact tickRunning_refines hm hpending hstate h
      · exact tickOther_refines hm hpending hstate h
  | statTimer => exact statTimer_refines hm h
  | runningTimer => exact runningTimer_refines hm h
  | waitTimer => exact waitTimer_refines hm h
  | cleanupTimer => exact cleanupTimer_refines hm h
  | newHttpReq id strdupOk newOk =>
      obtain ⟨pre, c, post, m₁, c', hlist, rfl, hf, rfl⟩ := onConn_eq_some h
      exact newHttpReq_refines hm hlist hf
  | connDestroy id order ok =>
      simp only [cltMgrStep, Option.bind_eq_bind] at h
      obtain ⟨c, hfind, hdestroy⟩ := Option.bind_eq_some_iff.mp h
      obtain ⟨pre, post, hlist, rfl⟩ :=
        exists_split_of_find? (fun x : CltMgrConn => x.id) hfind
      exact connDestroy_refines hm hlist hdestroy
  | connTimeout id =>
      obtain ⟨pre, c, post, m₁, c', hlist, rfl, hf, rfl⟩ := onConn_eq_some h
      exact connTimeout_refines hm hlist hf
  | data id hook =>
      simp only [cltMgrStep] at h
      obtain ⟨pre, c, post, m₁, c', hlist, rfl, hf, rfl⟩ := onConn_eq_some h
      obtain ⟨c₁, hdata, hf⟩ := Option.bind_eq_some_iff.mp hf
      cases hf
      exact data_refines hm hlist hdata
  | complete id status =>
      obtain ⟨pre, c, post, m₁, c', hlist, rfl, hf, rfl⟩ := onConn_eq_some h
      exact complete_refines hm hlist hf
  | close id cause order ok =>
      obtain ⟨pre, c, post, m₁, c', hlist, rfl, hf, rfl⟩ := onConn_eq_some h
      exact close_refines hm hlist hf

theorem cltMgrOk_init (cfg : MgrConfig) : CltMgrOk (cltMgrSystem cfg).init := by
  have hstart : ∀ m : CltMgr, CltMgrOk m → CltMgrOk (cltMgrStart m) := by
    intro m hm
    unfold cltMgrStart cltMgrSetRunningTimer
    split
    · exact hm.congr rfl rfl rfl
    · exact hm.congr rfl rfl rfl
  apply hstart
  exact ⟨by simp [cltMgrSetup], by simp [cltMgrSetup], Roster.empty⟩

theorem cltMgrOk_of_reachable {cfg : MgrConfig} {m : CltMgr}
    (h : (cltMgrSystem cfg).Reachable m) : CltMgrOk m :=
  (cltMgrSystem cfg).invariant (cltMgrOk_init cfg)
    (fun _ _ _ hm hstep => (cltMgrStep_refines hm hstep).1) m h

theorem ledger_init (cfg : MgrConfig) : ∃ running,
    (cltMgrSystem cfg).init.ledger = Ledger.start cfg.limits running := by
  unfold cltMgrSystem cltMgrStart cltMgrSetRunningTimer
  split
  · exact ⟨false, rfl⟩
  · exact ⟨true, rfl⟩

theorem limits_of_reachable {cfg : MgrConfig} {m : CltMgr}
    (h : (cltMgrSystem cfg).Reachable m) : m.ledger.limits = cfg.limits := by
  have hboth : CltMgrOk m ∧ m.ledger.limits = cfg.limits := by
    refine (cltMgrSystem cfg).invariant
      (P := fun m => CltMgrOk m ∧ m.ledger.limits = cfg.limits) ⟨cltMgrOk_init cfg, ?_⟩ ?_ m h
    · obtain ⟨running, hledger⟩ := ledger_init cfg
      rw [hledger]
      rfl
    · rintro m e m' ⟨hm, hlimits⟩ he
      obtain ⟨hm', hstep⟩ := cltMgrStep_refines hm he
      exact ⟨hm', hstep.limits_eq.trans hlimits⟩
  exact hboth.2

/-- The induction rule for guarded runs of the manager: each step is one of the
ledger, taken in a state and after a history that the guard admits. -/
theorem ledger_guarded_induction {cfg : MgrConfig}
    {G : List LoopEvent → LoopEvent → CltMgr → Prop} {P : List LoopEvent → Ledger → Prop}
    (hinit : ∀ running, P [] (Ledger.start cfg.limits running))
    (hstep : ∀ es e m s', (cltMgrSystem cfg).run es = some m → G es e m →
      P es m.ledger → LedgerStep e m.ledger s' → P (es ++ [e]) s') :
    ∀ es m, (cltMgrSystem cfg).Guarded G es → (cltMgrSystem cfg).run es = some m →
      P es m.ledger := by
  apply (cltMgrSystem cfg).guarded_induction (P := fun es m => P es m.ledger)
  · obtain ⟨running, hledger⟩ := ledger_init cfg
    rw [hledger]
    exact hinit running
  · intro es e m m' hrun hG hP he
    have hm := cltMgrOk_of_reachable ⟨es, hrun⟩
    obtain ⟨-, hledger⟩ := cltMgrStep_refines hm he
    exact hstep es e m _ hrun hG hP hledger

/-- The induction rule for all runs of the manager, in terms of the ledger.  The
limits are those of its configuration throughout. -/
theorem ledger_run_induction {cfg : MgrConfig} {P : List LoopEvent → Ledger → Prop}
    (hinit : ∀ running, P [] (Ledger.start cfg.limits running))
    (hstep : ∀ es e s s', s.RosterOk → s.limits = cfg.limits → P es s →
      LedgerStep e s s' → P (es ++ [e]) s') :
    ∀ es m, (cltMgrSystem cfg).run es = some m → P es m.ledger := by
  intro es m hrun
  refine ledger_guarded_induction (G := fun _ _ _ => True) hinit ?_ es m ?_ hrun
  · intro es e m s' hrun _ hP hledger
    exact hstep es e _ s' (cltMgrOk_of_reachable ⟨es, hrun⟩).roster
      (limits_of_reachable ⟨es, hrun⟩) hP hledger
  · intro _ _ _ _ _ _
    trivial

/-- A property of ledgers that holds at the start and that every step keeps
holds of the ledger of every reachable manager. -/
theorem ledger_invariant {cfg : MgrConfig} {P : Ledger → Prop}
    (hinit : ∀ running, P (Ledger.start cfg.limits running))
    (hstep : ∀ e s s', s.RosterOk → s.limits = cfg.limits → P s → LedgerStep e s s' → P s')
    {m : CltMgr} (h : (cltMgrSystem cfg).Reachable m) : P m.ledger := by
  obtain ⟨es, hrun⟩ := h
  exact ledger_run_induction (P := fun _ s => P s) hinit
    (fun _ e s s' hroster hlimits hs => hstep e s s' hroster hlimits hs) es m hrun

end EvhtpHttp.Client

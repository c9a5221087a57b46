import EvhtpHttp.Client.Attempts
import EvhtpHttp.Client.ManagerCalls

/-!
# Events as sequences of attempts

Every event of a manager is a sequence of attempts to open a connection, between
which neither the configuration changes nor a connection turns up.
-/

namespace EvhtpHttp.Client

open EvhtpHttp.Support

/-- `c'` is the connection `c` at a later time: at the same address, and with the
event for its requests if it had one. -/
structure Later (c c' : CltMgrConn) : Prop where
  hostIp : c'.req.hostIp = c.req.hostIp
  evNewHttpReq : c.evNewHttpReq ≠ none → c'.evNewHttpReq ≠ none

theorem Later.refl (c : CltMgrConn) : Later c c :=
  ⟨rfl, id⟩

theorem Later.trans {c c₁ c' : CltMgrConn} (h : Later c c₁) (h' : Later c₁ c') : Later c c' :=
  ⟨h'.hostIp.trans h.hostIp, fun hev => h'.evNewHttpReq (h.evNewHttpReq hev)⟩

/-- From `m` to `m'` the configuration stays, and every connection comes from one
that was there. -/
structure Quiet (m m' : CltMgr) : Prop where
  cfg : m'.cfg = m.cfg
  conns : ∀ c' ∈ m'.mgrConnList ++ m'.freedConns,
    ∃ c ∈ m.mgrConnList ++ m.freedConns, Later c c'

theorem Quiet.of_same {m m' : CltMgr} (hcfg : m'.cfg = m.cfg)
    (hconns : m'.mgrConnList = m.mgrConnList) (hfreed : m'.freedConns = m.freedConns) :
    Quiet m m' where
  cfg := hcfg
  conns c' hc' := ⟨c', by rwa [hconns, hfreed] at hc', Later.refl c'⟩

theorem Quiet.refl (m : CltMgr) : Quiet m m :=
  Quiet.of_same rfl rfl rfl

theorem Kept.quiet {m m' : CltMgr} (h : Kept m m') : Quiet m m' :=
  Quiet.of_same h.cfg h.conns h.freed

theorem Quiet.trans {m m₁ m' : CltMgr} (h : Quiet m m₁) (h' : Quiet m₁ m') : Quiet m m' where
  cfg := h'.cfg.trans h.cfg
  conns c' hc' := by
    obtain ⟨c₁, hc₁, hlater₁⟩ := h'.conns c' hc'
    obtain ⟨c, hc, hlater⟩ := h.conns c₁ hc₁
    exact ⟨c, hc, hlater.trans hlater₁⟩

theorem Quiet.putConn {m : CltMgr} {c c' : CltMgrConn} (hc : c ∈ m.mgrConnList)
    (hlater : Later c c') : Quiet m (m.putConn c') where
  cfg := rfl
  conns x hx := by
    rcases List.mem_append.mp hx with hx | hx
    · obtain ⟨y, hy, rfl⟩ := List.mem_map.mp hx
      by_cases hid : y.id = c'.id
      · rw [if_pos hid]
        exact ⟨c, List.mem_append_left _ hc, hlater⟩
      · rw [if_neg hid]
        exact ⟨y, List.mem_append_left _ hy, Later.refl y⟩
    · exact ⟨x, List.mem_append_right _ hx, Later.refl x⟩

/-- From `m` to `m'` by way of these attempts, each made in the manager that the
record names. -/
inductive Evolves : CltMgr → List (AllocOk × CltMgr) → CltMgr → Prop
  | quiet {m m' : CltMgr} (h : Quiet m m') : Evolves m [] m'
  | attempt {m m₁ m₂ m' : CltMgr} {ok : AllocOk} {rc : ℤ} {tries : List (AllocOk × CltMgr)}
      (hbefore : Quiet m m₁) (htry : TryCreate ok m₁ m₂ rc) (hrest : Evolves m₂ tries m') :
      Evolves m ((ok, m₁) :: tries) m'

theorem Evolves.before {m m₁ m' : CltMgr} {tries : List (AllocOk × CltMgr)}
    (hquiet : Quiet m m₁) (h : Evolves m₁ tries m') : Evolves m tries m' := by
  cases h with
  | quiet h => exact .quiet (hquiet.trans h)
  | attempt hbefore htry hrest => exact .attempt (hquiet.trans hbefore) htry hrest

theorem Evolves.after {m m₁ m' : CltMgr} {tries : List (AllocOk × CltMgr)}
    (h : Evolves m tries m₁) (hquiet : Quiet m₁ m') : Evolves m tries m' := by
  induction h with
  | quiet h => exact .quiet (h.trans hquiet)
  | attempt hbefore htry _ ih => exact .attempt hbefore htry (ih hquiet)

/-! ## Events of a connection -/

theorem cltMgrConnCancelHttpReq_event {c c' : ConnCtl} (h : cltMgrConnCancelHttpReq c = some c')
    (hev : c.evNewHttpReq ≠ none) : c'.evNewHttpReq ≠ none := by
  simp only [cltMgrConnCancelHttpReq, Option.bind_eq_bind] at h
  split at h
  · simp only [Option.bind_eq_some_iff, eventDel_eq_some] at h
    obtain ⟨ev, ⟨-, rfl⟩, h⟩ := h
    obtain rfl := Option.some.inj h
    simp
  · obtain rfl := Option.some.inj h
    exact hev

theorem notify_event {ok : AllocOk} (what : CltNotifyCmd) (data : ℤ) (s s' : MgrCall)
    (hev : s.2.evNewHttpReq ≠ none) (h : cltMgrConnNotifyCb ok what data s = some s') :
    s'.2.evNewHttpReq ≠ none := by
  obtain ⟨m, c⟩ := s
  obtain ⟨m', c'⟩ := s'
  have hdestroyed : ∀ {c₁ c₂ : ConnCtl}, cltMgrConnDestroy c₁ = some c₂ →
      c₁.evNewHttpReq ≠ none → c₂.evNewHttpReq ≠ none := by
    intro c₁ c₂ hdestroy hev₁
    rw [cltMgrConnDestroy_spec hdestroy]
    exact hev₁
  cases what with
  | requestTimeout =>
      simp only [cltMgrConnNotifyCb, Option.bind_eq_bind, Option.bind_eq_some_iff] at h
      obtain ⟨c₁, hcancel, c₂, hdestroy, h⟩ := h
      obtain ⟨-, rfl⟩ := Prod.mk.inj (Option.some.inj h)
      exact hdestroyed hdestroy (cltMgrConnCancelHttpReq_event hcancel hev)
  | connClosing =>
      simp only [cltMgrConnNotifyCb, Option.bind_eq_bind, Option.bind_eq_some_iff] at h
      obtain ⟨c₁, hcancel, c₂, hdestroy, x, -, h⟩ := h
      obtain ⟨-, rfl⟩ := Prod.mk.inj (Option.some.inj h)
      exact hdestroyed hdestroy (cltMgrConnCancelHttpReq_event hcancel hev)
  | reqDestroying =>
      rcases notify_reqDestroying h with ⟨-, -, -, -, rfl⟩ | ⟨-, rfl⟩
      · simp
      · exact hev
  | _ =>
      obtain ⟨-, rfl⟩ := Prod.mk.inj (Option.some.inj h)
      exact hev

section Delivery

variable {m m₁ : CltMgr} {c c' : CltMgrConn}

/-- Calls on a request other than `clt_req_create`, and that one too, leave its
connection's address. -/
theorem ReqMove.hostIp {r r' : ClientReq} (h : ReqMove r r') (hr : Linked r) :
    r'.hostIp = r.hostIp := by
  cases h with
  | calls hes h => exact (h.framed hr hes).hostIp
  | create hopen hidle h =>
      unfold cltReqCreate at h
      split at h
      · obtain ⟨rfl, -⟩ := Prod.mk.inj (Option.some.inj h)
        rfl
      · obtain ⟨rfl, -⟩ := Prod.mk.inj (Option.some.inj h)
        rfl
      · exact absurd h (by simp)
      · split at h
        · obtain ⟨rfl, -⟩ := Prod.mk.inj (Option.some.inj h)
          rfl
        · split at h
          · obtain ⟨rfl, -⟩ := Prod.mk.inj (Option.some.inj h)
            rfl
          · obtain ⟨rfl, -⟩ := Prod.mk.inj (Option.some.inj h)
            rfl

theorem deliverNewHttpReq_kept {strdupOk newOk : Bool} (hc : ConnOk c) (hentry : EntryOk c.entry)
    (h : deliverNewHttpReq strdupOk newOk m c = some (m₁, c')) : Kept m m₁ ∧ Later c c' := by
  have hhost := (deliverNewHttpReq_delivered hc.linked hentry h).move.hostIp hc.linked
  obtain ⟨hqueued, r', rc, -, hout⟩ := deliverNewHttpReq_eq_some hentry h
  have hevent : delivered c.evNewHttpReq ≠ none := by
    obtain ⟨ev, hev⟩ : ∃ ev, c.evNewHttpReq = some ev := by
      apply Option.ne_none_iff_exists'.mp
      intro hnone
      simp [hnone] at hqueued
    simp [hev, delivered]
  obtain ⟨-, rfl, rfl⟩ | ⟨-, rfl, rfl⟩ := hout
  · exact ⟨⟨rfl, rfl, rfl, rfl, rfl, rfl, rfl⟩, hhost, fun _ => hevent⟩
  · exact ⟨⟨rfl, rfl, rfl, rfl, rfl, rfl, rfl⟩, hhost, fun _ => hevent⟩

theorem deliverConnTimeout_kept (hc : ConnOk c)
    (h : deliverConnTimeout m c = some (m₁, c')) : Kept m m₁ ∧ Later c c' := by
  have hhost := (deliverConnTimeout_delivered hc h).move.hostIp hc.linked
  obtain ⟨-, ctl, hnotify, rfl⟩ := deliverConnTimeout_eq_some h
  obtain ⟨rfl, -⟩ := notify_requestTimeout hc.queued hnotify
  exact ⟨Kept.outcome .timeout m, hhost, fun hev => notify_event _ _ (m, c.toConnCtl) _ hev hnotify⟩

theorem deliverData_later {hook : DataHook} (hc : ConnOk c) (h : deliverData hook c = some c') :
    Later c c' := by
  obtain ⟨q, r', hq, hdata, rfl⟩ := deliverData_eq_some h
  exact ⟨((ReqCall.data hq hdata).framed hc.linked rfl).hostIp, id⟩

theorem deliverComplete_kept {status : ℤ} (hc : ConnOk c)
    (h : deliverComplete status m c = some (m₁, c')) : Kept m m₁ ∧ Later c c' := by
  have hhost := (deliverComplete_delivered hc.linked h).move.hostIp hc.linked
  obtain ⟨con, q, r', ctl, -, -, hreqCb, rfl⟩ := deliverComplete_eq_some h
  obtain ⟨⟨m₃, ctl₁⟩, -, hok, hdestroying, -⟩ := cltReqCb_spec hreqCb
  have hlater : Later c { toConnCtl := ctl, req := r' } := ⟨hhost, fun hev =>
    notify_event _ _ (m₃, ctl₁) _ (notify_event _ _ (m, c.toConnCtl) _ hev hok) hdestroying⟩
  obtain ⟨rfl, rfl⟩ := notify_requestDoneOk hok
  have hcounted : Kept m { m with stats := countOk status m.stats } := by
    rw [countOk_eq]
    exact ⟨rfl, rfl, rfl, rfl, rfl, rfl, rfl⟩
  refine ⟨hcounted.trans ?_, hlater⟩
  rcases notify_reqDestroying hdestroying with ⟨-, -, -, rfl, -⟩ | ⟨rfl, -⟩
  · exact ⟨rfl, rfl, rfl, rfl, rfl, rfl, rfl⟩
  · exact Kept.refl _

theorem TryCreate.mem {ok : AllocOk} {m' : CltMgr} {rc : ℤ} (h : TryCreate ok m m' rc)
    (hc : c ∈ m.mgrConnList) : c ∈ m'.mgrConnList := by
  cases h with
  | opened => exact List.mem_append_left _ hc
  | _ => exact hc

theorem Kept.ids (h : Kept m m₁) (hids : ∀ c ∈ m.mgrConnList, c.id ≠ m.nextId) :
    ∀ c ∈ m₁.mgrConnList, c.id ≠ m₁.nextId := by
  rw [h.conns, h.nextId]
  exact hids

theorem deliverClose_evolves {cause : CloseCause} {order : FreeOrder} {ok : AllocOk}
    (hids : ∀ c ∈ m.mgrConnList, c.id ≠ m.nextId) (hmem : c ∈ m.mgrConnList) (hc : ConnOk c)
    (h : deliverClose cause order ok m c = some (m₁, c')) :
    Evolves m (closeAttempts cause order ok m c) (m₁.putConn c') := by
  have hhost := (deliverClose_delivered hids hc h).move.hostIp hc.linked
  have hevent : c.evNewHttpReq ≠ none → c'.evNewHttpReq ≠ none := by
    intro hev
    obtain ⟨-, r₁, m₂, ctl₁, r', ctl', -, herror, hfree, rfl⟩ := deliverClose_eq_some h
    have hev₁ := prop_of_forget ((forget_evhtpErrorHook
      (restricted_extending notify_event) cause c.req ⟨(m, c.toConnCtl), hev⟩).trans herror)
    have hev' := prop_of_forget ((forget_evhtpConnectionFree
      (restricted_extending notify_event) order r₁ ⟨(m₂, ctl₁), hev₁⟩).trans hfree)
    exact hev'
  obtain ⟨m₀, rc, hrecord, hkept, htry⟩ := deliverClose_attempt hc h
  rw [hrecord]
  have htried := (cltMgrConnTryCreate_iff (hkept.ids hids)).mp htry
  refine .attempt hkept.quiet htried (.quiet (Quiet.putConn ?_ ⟨hhost, hevent⟩))
  exact htried.mem (by rwa [hkept.conns])

theorem deliverConnDestroy_evolves {order : FreeOrder} {ok : AllocOk} {m' : CltMgr}
    (hids : ∀ c ∈ m.mgrConnList, c.id ≠ m.nextId) (hmem : c ∈ m.mgrConnList) (hc : ConnOk c)
    (h : deliverConnDestroy order ok m c = some m') :
    Evolves m (destroyAttempts order ok m c) m' := by
  obtain ⟨-, r, m₂, ctl, hdestroy, rfl⟩ := deliverConnDestroy_eq_some h
  have hmove : ReqMove c.req r := ReqMove.call rfl (ReqCall.destroy hdestroy)
  have hquiet : c ∈ m₂.mgrConnList → Quiet m₂ { m₂.removeConn ctl.id with
      stats := { m₂.stats with nconn := m₂.stats.nconn - 1 }
      freedConns := m₂.freedConns ++ [{ ctl with
        evNewHttpReq := some ⟨false⟩, evConnDestroy := some ⟨false⟩, req := r }] } := by
    intro hc₂
    refine ⟨rfl, fun x hx => ?_⟩
    rcases List.mem_append.mp hx with hx | hx
    · exact ⟨x, List.mem_append_left _ (List.mem_filter.mp hx).1, Later.refl x⟩
    · rcases List.mem_append.mp hx with hx | hx
      · exact ⟨x, List.mem_append_right _ hx, Later.refl x⟩
      · obtain rfl := List.mem_singleton.mp hx
        exact ⟨c, List.mem_append_left _ hc₂, hmove.hostIp hc.linked, fun _ => by simp⟩
  rcases cltConnDestroy_attempt hc.linked hdestroy with
    ⟨-, hnone, rfl⟩ | ⟨-, rc, hone, htry⟩
  · rw [hnone]
    exact .quiet (hquiet hmem)
  · rw [hone]
    have htried := (cltMgrConnTryCreate_iff ((Kept.closing m).ids hids)).mp htry
    exact .attempt (Kept.closing m).quiet htried (.quiet (hquiet (htried.mem hmem)))

end Delivery

/-! ## Timers -/

section Timers

variable {m m' : CltMgr}

theorem cltMgrBurst_evolves {ok : ℕ → AllocOk} {fuel : ℕ} :
    ∀ {i : ℤ} {j : ℕ} {m m' : CltMgr}, m.ledger.RosterOk →
      cltMgrBurst ok fuel i j m = some m' → Evolves m (burstAttempts ok fuel i j m) m' := by
  induction fuel with
  | zero =>
      intro i j m m' _ h
      obtain rfl := Option.some.inj h
      exact .quiet (Quiet.refl m)
  | succ fuel ih =>
      intro i j m m' hroster h
      unfold burstAttempts
      obtain ⟨hend, rfl⟩ | ⟨hloop, m₁, rc, htry, hrest⟩ := cltMgrBurst_succ_eq_some h
      · rw [if_neg hend]
        exact .quiet (Quiet.refl _)
      have hids := RosterOk.ne_nextId hroster
      have htried := (cltMgrConnTryCreate_iff hids).mp htry
      rw [if_pos hloop, htry]
      refine .attempt (Quiet.refl m) htried ?_
      obtain ⟨hrc, rfl⟩ | ⟨hrc, hmore⟩ := hrest
      · simp only [Option.elim_some, hrc, if_true]
        exact .quiet (Quiet.refl _)
      · simp only [Option.elim_some, hrc, if_false]
        exact ih ((cltMgrConnTryCreate_tryOpen hids htry).rosterOk hroster) hmore

theorem cltMgrTimerStateRunning_evolves {ok : ℕ → AllocOk} (hroster : m.ledger.RosterOk)
    (h : cltMgrTimerStateRunning ok m = some m') :
    Evolves m (burstAttempts ok (m.cfg.burstConn + 1).toNat m.stats.nconn 0 m.ticked) m' := by
  obtain ⟨p, m₂, hpaced, hburst, rfl⟩ := cltMgrTimerStateRunning_eq_some h
  rw [← ticked_of_paced hpaced]
  have hloop := cltMgrBurst_evolves (m := { m with pacer := p }) hroster hburst
  have hpace : Quiet m { m with pacer := p } := Quiet.of_same rfl rfl rfl
  refine (hloop.before hpace).after ?_
  split
  · exact Quiet.of_same rfl rfl rfl
  · exact Quiet.refl m₂

theorem cltMgrTimerStateWaiting_quiet (m : CltMgr) : Quiet m (cltMgrTimerStateWaiting m) := by
  unfold cltMgrTimerStateWaiting
  split
  · exact Quiet.refl m
  · split
    · exact Quiet.of_same rfl rfl rfl
    · exact Quiet.of_same rfl rfl rfl

theorem cltMgrTimerStateCleanupWaiting_quiet (m : CltMgr) :
    Quiet m (cltMgrTimerStateCleanupWaiting m) := by
  unfold cltMgrTimerStateCleanupWaiting
  split
  · exact Quiet.of_same rfl rfl rfl
  · split
    · exact Quiet.refl m
    · exact Quiet.of_same rfl rfl rfl

theorem timer_evolves {ok : ℕ → AllocOk} (hroster : m.ledger.RosterOk)
    (h : cltMgrStep (.timer ok) m = some m') : Evolves m (attempts (.timer ok) m) m' := by
  simp only [cltMgrStep] at h
  obtain ⟨-, h⟩ := Option.ite_none_right_eq_some.mp h
  obtain ⟨m₁, hbody, rfl⟩ := cltMgrTimer_eq_some h
  have hdeliver : Quiet m { m with tTimerev := ⟨false⟩ } := Quiet.of_same rfl rfl rfl
  have hrearm : Quiet m₁
      (if m₁.mgrState = .completed then m₁ else { m₁ with tTimerev := ⟨true⟩ }) := by
    split
    · exact Quiet.refl m₁
    · exact Quiet.of_same rfl rfl rfl
  by_cases hrunning : m.mgrState = .running
  · rw [attempts, if_pos hrunning]
    cases hbody with
    | running _ hrun =>
        have hloop := cltMgrTimerStateRunning_evolves (m := { m with tTimerev := ⟨false⟩ })
          hroster hrun
        exact (hloop.before hdeliver).after hrearm
    | _ hstate => simp_all
  · rw [attempts, if_neg hrunning]
    have hquiet : Quiet { m with tTimerev := ⟨false⟩ } m₁ := by
      cases hbody with
      | running hstate => exact absurd hstate hrunning
      | waiting => exact cltMgrTimerStateWaiting_quiet _
      | cleanupWaiting => exact cltMgrTimerStateCleanupWaiting_quiet _
      | idle => exact Quiet.refl _
      | invalid => exact Quiet.of_same rfl rfl rfl
    exact .quiet (hdeliver.trans (hquiet.trans hrearm))

theorem cltMgrDestroyAll_later {conns conns' : List CltMgrConn}
    (h : cltMgrDestroyAll conns = some conns') : ∀ c' ∈ conns', ∃ c ∈ conns, Later c c' := by
  induction conns generalizing conns' with
  | nil =>
      obtain rfl := Option.some.inj h
      simp
  | cons c conns ih =>
      simp only [cltMgrDestroyAll, Option.bind_eq_bind, Option.bind_eq_some_iff] at h
      obtain ⟨ctl, hdestroy, rest, hrest, h⟩ := h
      obtain rfl := Option.some.inj h
      have hctl := cltMgrConnDestroy_spec hdestroy
      intro x hx
      rcases List.mem_cons.mp hx with rfl | hx
      · exact ⟨c, List.mem_cons_self, rfl, fun hev => by rw [hctl]; exact hev⟩
      · obtain ⟨y, hy, hlater⟩ := ih hrest x hx
        exact ⟨y, List.mem_cons_of_mem _ hy, hlater⟩

theorem cltMgrCleanupTimer_quiet (h : cltMgrCleanupTimer m = some m') : Quiet m m' := by
  simp only [cltMgrCleanupTimer] at h
  split at h
  · obtain rfl := Option.some.inj h
    exact Quiet.of_same rfl rfl rfl
  · obtain ⟨conns, hconns, h⟩ := Option.bind_eq_some_iff.mp h
    obtain rfl := Option.some.inj h
    refine ⟨rfl, fun x hx => ?_⟩
    rcases List.mem_append.mp hx with hx | hx
    · obtain ⟨c, hc, hlater⟩ := cltMgrDestroyAll_later hconns x hx
      exact ⟨c, List.mem_append_left _ hc, hlater⟩
    · exact ⟨x, List.mem_append_right _ hx, Later.refl x⟩

end Timers

/-! ## Events -/

/-- An event during which nothing is attempted leaves the configuration. -/
theorem onConn_quiet {id : ℕ} {f : CltMgr → CltMgrConn → Option (CltMgr × CltMgrConn)}
    {m m' : CltMgr} (h : m.onConn id f = some m')
    (hf : ∀ pre c post m₁ c', m.mgrConnList = pre ++ c :: post → f m c = some (m₁, c') →
      Kept m m₁ ∧ Later c c') : Quiet m m' := by
  obtain ⟨pre, c, post, m₁, c', hlist, -, hc, rfl⟩ := onConn_eq_some h
  obtain ⟨hkept, hlater⟩ := hf pre c post m₁ c' hlist hc
  have hmem : c ∈ m₁.mgrConnList := by
    rw [hkept.conns, hlist]
    simp
  exact hkept.quiet.trans (Quiet.putConn hmem hlater)

/-- Every event is the sequence of its attempts. -/
theorem cltMgrStep_evolves {e : LoopEvent} {m m' : CltMgr} (hm : CltMgrOk m)
    (h : cltMgrStep e m = some m') : Evolves m (attempts e m) m' := by
  have hids := RosterOk.ne_nextId hm.roster
  cases e with
  | timer ok => exact timer_evolves hm.roster h
  | statTimer =>
      simp only [cltMgrStep, cltMgrStatTimer] at h
      obtain ⟨-, h⟩ := Option.ite_none_right_eq_some.mp h
      obtain rfl := Option.some.inj h
      refine .quiet ?_
      split
      · exact Quiet.of_same rfl rfl rfl
      · exact Quiet.of_same rfl rfl rfl
  | runningTimer =>
      obtain ⟨-, h⟩ := Option.ite_none_right_eq_some.mp h
      obtain rfl := Option.some.inj h
      exact .quiet (Quiet.of_same rfl rfl rfl)
  | waitTimer =>
      simp only [cltMgrStep, cltMgrWaitingTimer] at h
      obtain ⟨-, h⟩ := Option.ite_none_right_eq_some.mp h
      obtain rfl := Option.some.inj h
      refine .quiet ?_
      split
      · exact Quiet.of_same rfl rfl rfl
      · exact Quiet.of_same rfl rfl rfl
  | cleanupTimer =>
      obtain ⟨-, h⟩ := Option.ite_none_right_eq_some.mp h
      have hdeliver : Quiet m { m with tCleanupTimerev := ⟨false⟩ } := Quiet.of_same rfl rfl rfl
      exact .quiet (hdeliver.trans (cltMgrCleanupTimer_quiet h))
  | newHttpReq id strdupOk newOk =>
      refine .quiet (onConn_quiet h ?_)
      intro pre c post m₁ c' hlist hc
      exact deliverNewHttpReq_kept (hm.connOk hlist) (hm.entryOk hlist) hc
  | connDestroy id order ok =>
      obtain ⟨c, hfind, hdestroy⟩ := Option.bind_eq_some_iff.mp h
      have hmem := List.mem_of_find?_eq_some hfind
      have hone := deliverConnDestroy_evolves hids hmem (hm.conns c hmem) hdestroy
      simpa [attempts, hfind] using hone
  | connTimeout id =>
      refine .quiet (onConn_quiet h ?_)
      intro pre c post m₁ c' hlist hc
      exact deliverConnTimeout_kept (hm.connOk hlist) hc
  | data id hook =>
      simp only [cltMgrStep] at h
      refine .quiet (onConn_quiet h ?_)
      intro pre c post m₁ c' hlist hc
      obtain ⟨c₁, hdata, hc⟩ := Option.bind_eq_some_iff.mp hc
      obtain ⟨rfl, rfl⟩ := Prod.mk.inj (Option.some.inj hc)
      exact ⟨Kept.refl m, deliverData_later (hm.connOk hlist) hdata⟩
  | complete id status =>
      refine .quiet (onConn_quiet h ?_)
      intro pre c post m₁ c' hlist hc
      exact deliverComplete_kept (hm.connOk hlist) hc
  | close id cause order ok =>
      obtain ⟨c, hfind, h⟩ := Option.bind_eq_some_iff.mp h
      obtain ⟨⟨m₁, c'⟩, hclose, h⟩ := Option.bind_eq_some_iff.mp h
      obtain rfl := Option.some.inj h
      have hmem := List.mem_of_find?_eq_some hfind
      have hone := deliverClose_evolves hids hmem (hm.conns c hmem) hclose
      simpa [attempts, hfind] using hone

/-! ## Runs -/

/-- What attempts keep, and the times between them, every event keeps. -/
theorem Evolves.keeps {P : CltMgr → Prop} {m m' : CltMgr} {tries : List (AllocOk × CltMgr)}
    (hquiet : ∀ m m', Quiet m m' → P m → P m')
    (htry : ∀ ok m m' rc, TryCreate ok m m' rc → P m → P m') (h : Evolves m tries m')
    (hm : P m) : P m' := by
  induction h with
  | quiet h => exact hquiet _ _ h hm
  | attempt hbefore hcreate _ ih => exact ih (htry _ _ _ _ hcreate (hquiet _ _ hbefore hm))

theorem evolution_invariant {cfg : MgrConfig} {P : CltMgr → Prop}
    (hinit : P (cltMgrSystem cfg).init) (hquiet : ∀ m m', Quiet m m' → P m → P m')
    (htry : ∀ ok m m' rc, TryCreate ok m m' rc → P m → P m') {m : CltMgr}
    (h : (cltMgrSystem cfg).Reachable m) : P m := by
  have hboth := (cltMgrSystem cfg).invariant (P := fun m => CltMgrOk m ∧ P m)
    ⟨cltMgrOk_init cfg, hinit⟩ ?_ m h
  · exact hboth.2
  · rintro m e m' ⟨hm, hP⟩ he
    exact ⟨(cltMgrStep_refines hm he).1, (cltMgrStep_evolves hm he).keeps hquiet htry hP⟩

/-- Every connection was opened to one of the addresses `addrs` and has the event
for its requests, and once there was one the cursor is inside the array. -/
structure Sourced (addrs : List String) (m : CltMgr) : Prop where
  ipv4 : m.cfg.ipv4Dst.ipv4 = addrs
  hostIp : ∀ c ∈ m.mgrConnList ++ m.freedConns, c.req.hostIp ∈ addrs
  evNewHttpReq : ∀ c ∈ m.mgrConnList ++ m.freedConns, c.evNewHttpReq ≠ none
  addressOk : ∀ c ∈ m.mgrConnList ++ m.freedConns, m.AddressOk

theorem Sourced.quiet {addrs : List String} {m m' : CltMgr} (h : Quiet m m')
    (hm : Sourced addrs m) : Sourced addrs m' where
  ipv4 := by rw [h.cfg, hm.ipv4]
  hostIp c' hc' := by
    obtain ⟨c, hc, hlater⟩ := h.conns c' hc'
    rw [hlater.hostIp]
    exact hm.hostIp c hc
  evNewHttpReq c' hc' := by
    obtain ⟨c, hc, hlater⟩ := h.conns c' hc'
    exact hlater.evNewHttpReq (hm.evNewHttpReq c hc)
  addressOk c' hc' := by
    obtain ⟨c, hc, -⟩ := h.conns c' hc'
    have haddr := hm.addressOk c hc
    rw [CltMgr.AddressOk, h.cfg]
    exact haddr

theorem getNext_spec {r r' : CfgIpv4Array} {addr : String}
    (h : cfgIpv4ArrayGetNext r = some (addr, r')) :
    addr ∈ r.ipv4 ∧ r'.ipv4 = r.ipv4 ∧ r'.cur < r'.ipv4.length := by
  obtain ⟨haddr, rfl⟩ := cfgIpv4ArrayGetNext_eq_some.mp h
  obtain ⟨hcur, -⟩ := List.getElem?_eq_some_iff.mp haddr
  exact ⟨List.mem_of_getElem? haddr, rfl, Nat.mod_lt _ ((Nat.zero_le r.cur).trans_lt hcur)⟩

theorem Sourced.attempt {addrs : List String} {ok : AllocOk} {m m' : CltMgr} {rc : ℤ}
    (h : TryCreate ok m m' rc) (hm : Sourced addrs m) : Sourced addrs m' := by
  cases h with
  | refused => exact hm
  | noMemory => exact ⟨hm.ipv4, hm.hostIp, hm.evNewHttpReq, hm.addressOk⟩
  | failed _ _ _ hnext =>
      obtain ⟨-, hipv4, hcur⟩ := getNext_spec hnext
      exact ⟨hipv4.trans hm.ipv4, hm.hostIp, hm.evNewHttpReq, fun _ _ => hcur⟩
  | @opened addr dst _ _ _ _ hnext =>
      obtain ⟨haddr, hipv4, hcur⟩ := getNext_spec hnext
      have hconns : ∀ {P : CltMgrConn → Prop}, (∀ c ∈ m.mgrConnList ++ m.freedConns, P c) →
          P (startedConn ok addr m) →
          ∀ c ∈ (m.mgrConnList ++ [startedConn ok addr m]) ++ m.freedConns, P c := by
        intro P hold hnew c hc
        rw [List.append_assoc, List.singleton_append] at hc
        rcases List.mem_append.mp hc with hc | hc
        · exact hold c (List.mem_append_left _ hc)
        · rcases List.mem_cons.mp hc with rfl | hc
          · exact hnew
          · exact hold c (List.mem_append_right _ hc)
      have hnew : (startedConn ok addr m).req.hostIp ∈ addrs := by
        rw [← hm.ipv4]
        exact haddr
      exact ⟨hipv4.trans hm.ipv4, hconns hm.hostIp hnew,
        hconns hm.evNewHttpReq (Option.some_ne_none _), fun _ _ => hcur⟩

theorem init_spec (cfg : MgrConfig) :
    (cltMgrSystem cfg).init.cfg = cfg ∧ (cltMgrSystem cfg).init.mgrConnList = [] ∧
      (cltMgrSystem cfg).init.freedConns = [] := by
  simp only [cltMgrSystem, cltMgrStart, cltMgrStateChange, cltMgrSetRunningTimer]
  split
  · exact ⟨rfl, rfl, rfl⟩
  · exact ⟨rfl, rfl, rfl⟩

theorem sourced_of_reachable {cfg : MgrConfig} {m : CltMgr}
    (h : (cltMgrSystem cfg).Reachable m) : Sourced cfg.ipv4Dst.ipv4 m := by
  refine evolution_invariant ?_ (fun _ _ => Sourced.quiet) (fun _ _ _ _ => Sourced.attempt) h
  obtain ⟨hcfg, hconns, hfreed⟩ := init_spec cfg
  have hnone : ∀ {P : CltMgrConn → Prop}, ∀ c ∈ (cltMgrSystem cfg).init.mgrConnList ++
      (cltMgrSystem cfg).init.freedConns, P c := by
    intro P c hc
    simp [hconns, hfreed] at hc
  exact ⟨by rw [hcfg], hnone, hnone, hnone⟩

end EvhtpHttp.Client

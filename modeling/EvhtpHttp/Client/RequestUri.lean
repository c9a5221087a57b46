import EvhtpHttp.Client.Evolution

/-!
# The path of the requests

`clt_req_create` copies the path of the configuration into `uri`, whatever was
there before, and `clt_req_destroy` frees the copy.  No copy is lost in between:
when a request is due, the one before it has been freed.
-/

namespace EvhtpHttp.Client

open EvhtpHttp.Support

/-- A connection with a queued request holds no copy of the path, and one with a
request in flight holds the copy that was made for it, and asks for this path. -/
structure HoldsUri (uri : Option String) (c : CltMgrConn) : Prop where
  queued : isPending c.evNewHttpReq = true → c.req.uri = none
  inFlight : ∀ q, c.req.req = some q →
    c.req.uri = uri ∧ c.req.requests[q]?.map EvhtpRequest.uri = uri

/-! ## One request -/

section Request

variable {σ : Type} {cb : CltNotifyCb σ} {r r' : ClientReq} {s s' : σ}

theorem FreshReq.uri (h : FreshReq r) : r.uri = none ∧ r.req = none := by
  obtain ⟨ok, addr, port, rfl⟩ := h.eq_new
  exact ⟨rfl, rfl⟩

theorem cltReqCreate_uri {strdupOk newOk : Bool} {uri : Option String} {keepalive rc : ℤ}
    (hopen : r.con ≠ none) (hidle : r.req = none)
    (h : cltReqCreate strdupOk newOk uri keepalive r = some (r', rc)) {q : ReqPtr}
    (hmade : r'.req = some q) :
    r'.uri = uri ∧ r'.requests[q]?.map EvhtpRequest.uri = uri := by
  obtain ⟨con, hcon⟩ := Option.ne_none_iff_exists'.mp hopen
  obtain rfl | ⟨path, rfl⟩ := Option.eq_none_or_eq_some uri
  · simp [cltReqCreate, hcon, hidle] at h
  · simp only [cltReqCreate, hcon, hidle] at h
    split at h
    · obtain ⟨rfl, -⟩ := Prod.mk.inj (Option.some.inj h)
      exact absurd hmade.symm (Option.some_ne_none q)
    split at h
    · obtain ⟨rfl, -⟩ := Prod.mk.inj (Option.some.inj h)
      exact absurd hmade.symm (Option.some_ne_none q)
    · obtain ⟨rfl, -⟩ := Prod.mk.inj (Option.some.inj h)
      obtain rfl := Option.some.inj hmade
      exact ⟨rfl, by rw [List.getElem?_concat_length, Option.map_some]⟩

theorem cltReqCb_uri {q : ReqPtr} {status : ℤ} (h : cltReqCb cb q status r s = some (r', s')) :
    r'.uri = none := by
  simp only [cltReqCb, cltReqDestroy, Option.bind_eq_bind, Option.bind_eq_some_iff] at h
  obtain ⟨s₁, -, r₁, -, p, -, con, -, s₂, -, h⟩ := h
  obtain ⟨rfl, -⟩ := Prod.mk.inj (Option.some.inj h)
  rfl

theorem use_uri (q : ReqPtr) (r : ClientReq) : (r.use q).uri = r.uri := by
  unfold ClientReq.use
  split
  · rfl
  · rfl

theorem cltUpstreamData_uri {hook : DataHook} (h : cltUpstreamData hook r = some r') :
    r'.uri = r.uri := by
  cases hook with
  | headersStart =>
      obtain ⟨-, rfl⟩ := cltConnTimeoutRearm_eq_some.mp h
      rfl
  | chunksDone =>
      obtain ⟨-, rfl⟩ := cltConnTimeoutRearm_eq_some.mp h
      rfl
  | newChunk =>
      obtain ⟨q, -, h⟩ := Option.bind_eq_some_iff.mp h
      obtain ⟨-, rfl⟩ := cltConnTimeoutRearm_eq_some.mp h
      exact use_uri q r
  | chunkDone =>
      obtain ⟨q, -, h⟩ := Option.bind_eq_some_iff.mp h
      obtain ⟨-, rfl⟩ := cltConnTimeoutRearm_eq_some.mp h
      exact use_uri q r

end Request

/-! ## Events of a connection -/

section Connection

variable {uri : Option String} {m m₁ : CltMgr} {c c' : CltMgrConn}

theorem HoldsUri.of_fresh (h : FreshReq c.req) : HoldsUri uri c :=
  ⟨fun _ => h.uri.1, fun q hq => absurd hq (by simp [h.uri.2])⟩

theorem HoldsUri.of_idle (hqueued : isPending c.evNewHttpReq = false) (hidle : c.req.req = none) :
    HoldsUri uri c :=
  ⟨fun hpending => absurd hpending (by simp [hqueued]), fun q hq => absurd hq (by simp [hidle])⟩

theorem deliverNewHttpReq_holdsUri {strdupOk newOk : Bool} (hc : EntryOk c.entry)
    (h : deliverNewHttpReq strdupOk newOk m c = some (m₁, c')) : HoldsUri m.cfg.uri c' := by
  obtain ⟨hqueued, r', rc, hcreate, hout⟩ := deliverNewHttpReq_eq_some hc h
  obtain ⟨hidle, hopen⟩ := queued_idle hc hqueued
  obtain ⟨-, -, rfl⟩ | ⟨-, -, rfl⟩ := hout
  · exact ⟨by simp, fun q => cltReqCreate_uri hopen hidle hcreate⟩
  · exact ⟨by simp, fun q => cltReqCreate_uri hopen hidle hcreate⟩

theorem deliverConnTimeout_holdsUri (hc : ConnOk c) (hs : HoldsUri uri c)
    (h : deliverConnTimeout m c = some (m₁, c')) : HoldsUri uri c' := by
  obtain ⟨-, ctl, hnotify, rfl⟩ := deliverConnTimeout_eq_some h
  obtain ⟨-, ev, hev, rfl⟩ := notify_requestTimeout hc.queued hnotify
  exact ⟨fun hpending => absurd hpending (by simp [hev]), hs.inFlight⟩

theorem deliverData_holdsUri {hook : DataHook} (hs : HoldsUri uri c)
    (h : deliverData hook c = some c') : HoldsUri uri c' := by
  obtain ⟨q, r', -, hdata, rfl⟩ := deliverData_eq_some h
  obtain ⟨-, hreq, hrequests, -⟩ := cltUpstreamData_spec hdata
  have huri := cltUpstreamData_uri hdata
  refine ⟨fun hpending => huri.trans (hs.queued hpending), fun p hp => ?_⟩
  simp only [huri, hreq, hrequests] at hp ⊢
  exact hs.inFlight p hp

theorem deliverComplete_holdsUri {status : ℤ}
    (h : deliverComplete status m c = some (m₁, c')) : HoldsUri uri c' := by
  obtain ⟨con, q, r', ctl, -, -, hreqCb, rfl⟩ := deliverComplete_eq_some h
  obtain ⟨-, -, -, -, -, -, hidle, -⟩ := cltReqCb_spec hreqCb
  exact ⟨fun _ => cltReqCb_uri hreqCb, fun p hp => absurd hp (by simp [hidle])⟩

theorem deliverClose_holdsUri {cause : CloseCause} {order : FreeOrder} {ok : AllocOk}
    (hc : ConnOk c) (h : deliverClose cause order ok m c = some (m₁, c')) : HoldsUri uri c' := by
  obtain ⟨con, r₁, m₂, ctl₁, r', ctl', hcon, herror, hfree, rfl⟩ := deliverClose_eq_some h
  obtain ⟨o, -, rfl, hkeeps, hlinked, hcon₁⟩ := evhtpErrorHook_spec hc herror
  obtain ⟨p, rc, -, -, -, hidle, -, -, hqueued, -⟩ :=
    evhtpConnectionFree_notify hkeeps hlinked (by simp [hcon₁, hcon]) hfree
  exact HoldsUri.of_idle hqueued hidle

end Connection

/-! ## The manager -/

section Manager

variable {uri : Option String} {m m' : CltMgr}

theorem Grows.holdsUri (h : Grows m m') (hs : ∀ c ∈ m.mgrConnList, HoldsUri uri c) :
    ∀ c ∈ m'.mgrConnList, HoldsUri uri c := by
  obtain ⟨news, hlist, hnews⟩ := h.conns
  intro c hc
  rw [hlist] at hc
  rcases List.mem_append.mp hc with hold | hnew
  · exact hs c hold
  · exact HoldsUri.of_fresh (hnews c hnew).req

theorem onConn_holdsUri {id : ℕ} {f : CltMgr → CltMgrConn → Option (CltMgr × CltMgrConn)}
    (hs : ∀ c ∈ m.mgrConnList, HoldsUri uri c) (h : m.onConn id f = some m')
    (hf : ∀ pre c post m₁ c', m.mgrConnList = pre ++ c :: post → f m c = some (m₁, c') →
      Delivered m c m₁ c' ∧ HoldsUri uri c') :
    ∀ c ∈ m'.mgrConnList, HoldsUri uri c := by
  obtain ⟨pre, c, post, m₁, c', hlist, -, hc, rfl⟩ := onConn_eq_some h
  obtain ⟨hdelivered, hc'⟩ := hf pre c post m₁ c' hlist hc
  intro x hx
  obtain ⟨y, hy, rfl⟩ := List.mem_map.mp hx
  by_cases hid : y.id = c'.id
  · rw [if_pos hid]
    exact hc'
  · rw [if_neg hid]
    exact hdelivered.grows.holdsUri hs y hy

theorem deliverConnDestroy_holdsUri {c : CltMgrConn} {order : FreeOrder} {ok : AllocOk}
    (hids : ∀ c ∈ m.mgrConnList, c.id ≠ m.nextId) (hc : ConnOk c)
    (hs : ∀ c ∈ m.mgrConnList, HoldsUri uri c)
    (h : deliverConnDestroy order ok m c = some m') : ∀ c ∈ m'.mgrConnList, HoldsUri uri c := by
  obtain ⟨-, r, m₂, ctl, hdestroy, rfl⟩ := deliverConnDestroy_eq_some h
  have hs₂ : ∀ c ∈ m₂.mgrConnList, HoldsUri uri c := by
    rcases cltConnDestroy_attempt hc.linked hdestroy with ⟨-, -, rfl⟩ | ⟨-, rc, -, htry⟩
    · exact hs
    · exact (cltMgrConnTryCreate_grows (m := m.closing) hids htry).holdsUri hs
  exact fun x hx => hs₂ x (List.mem_filter.mp hx).1

theorem cltMgrDestroyAll_holdsUri {conns conns' : List CltMgrConn}
    (hs : ∀ c ∈ conns, HoldsUri uri c) (h : cltMgrDestroyAll conns = some conns') :
    ∀ c ∈ conns', HoldsUri uri c := by
  induction conns generalizing conns' with
  | nil =>
      obtain rfl := Option.some.inj h
      exact hs
  | cons c conns ih =>
      simp only [cltMgrDestroyAll, Option.bind_eq_bind, Option.bind_eq_some_iff] at h
      obtain ⟨ctl, hdestroy, rest, hrest, h⟩ := h
      obtain rfl := Option.some.inj h
      obtain rfl := cltMgrConnDestroy_spec hdestroy
      obtain ⟨hfirst, hothers⟩ := List.forall_mem_cons.mp hs
      exact List.forall_mem_cons.mpr ⟨⟨hfirst.queued, hfirst.inFlight⟩, ih hothers hrest⟩

theorem cltMgrCleanupTimer_holdsUri (hs : ∀ c ∈ m.mgrConnList, HoldsUri uri c)
    (h : cltMgrCleanupTimer m = some m') : ∀ c ∈ m'.mgrConnList, HoldsUri uri c := by
  simp only [cltMgrCleanupTimer] at h
  split at h
  · obtain rfl := Option.some.inj h
    exact hs
  · obtain ⟨conns, hconns, h⟩ := Option.bind_eq_some_iff.mp h
    obtain rfl := Option.some.inj h
    exact cltMgrDestroyAll_holdsUri hs hconns

/-- Every event keeps the copies of all connections in order. -/
theorem cltMgrStep_holdsUri {e : LoopEvent} (hm : CltMgrOk m)
    (hs : ∀ c ∈ m.mgrConnList, HoldsUri m.cfg.uri c) (h : cltMgrStep e m = some m') :
    ∀ c ∈ m'.mgrConnList, HoldsUri m.cfg.uri c := by
  have hids := RosterOk.ne_nextId hm.roster
  have hmem : ∀ {pre c post}, m.mgrConnList = pre ++ c :: post → c ∈ m.mgrConnList := by
    intro pre c post hlist
    rw [hlist]
    exact List.mem_append_right _ List.mem_cons_self
  cases e with
  | timer ok =>
      obtain ⟨-, h⟩ := Option.ite_none_right_eq_some.mp h
      exact (cltMgrTimer_grows (m := { m with tTimerev := ⟨false⟩ }) hm.roster h).holdsUri hs
  | statTimer =>
      simp only [cltMgrStep, cltMgrStatTimer] at h
      obtain ⟨-, h⟩ := Option.ite_none_right_eq_some.mp h
      obtain rfl := Option.some.inj h
      split
      · exact hs
      · exact hs
  | runningTimer =>
      obtain ⟨-, h⟩ := Option.ite_none_right_eq_some.mp h
      obtain rfl := Option.some.inj h
      exact hs
  | waitTimer =>
      simp only [cltMgrStep, cltMgrWaitingTimer] at h
      obtain ⟨-, h⟩ := Option.ite_none_right_eq_some.mp h
      obtain rfl := Option.some.inj h
      split
      · exact hs
      · exact hs
  | cleanupTimer =>
      obtain ⟨-, h⟩ := Option.ite_none_right_eq_some.mp h
      exact cltMgrCleanupTimer_holdsUri (m := { m with tCleanupTimerev := ⟨false⟩ }) hs h
  | newHttpReq id strdupOk newOk =>
      refine onConn_holdsUri hs h fun pre c post m₁ c' hlist hc => ?_
      exact ⟨deliverNewHttpReq_delivered (hm.connOk hlist).linked (hm.entryOk hlist) hc,
        deliverNewHttpReq_holdsUri (hm.entryOk hlist) hc⟩
  | connDestroy id order ok =>
      obtain ⟨c, hfind, hdestroy⟩ := Option.bind_eq_some_iff.mp h
      have hc := hm.conns c (List.mem_of_find?_eq_some hfind)
      exact deliverConnDestroy_holdsUri hids hc hs hdestroy
  | connTimeout id =>
      refine onConn_holdsUri hs h fun pre c post m₁ c' hlist hc => ?_
      exact ⟨deliverConnTimeout_delivered (hm.connOk hlist) hc,
        deliverConnTimeout_holdsUri (hm.connOk hlist) (hs c (hmem hlist)) hc⟩
  | data id hook =>
      simp only [cltMgrStep] at h
      refine onConn_holdsUri hs h fun pre c post m₁ c' hlist hc => ?_
      obtain ⟨c₁, hdata, hc⟩ := Option.bind_eq_some_iff.mp hc
      obtain ⟨rfl, rfl⟩ := Prod.mk.inj (Option.some.inj hc)
      exact ⟨deliverData_delivered (hm.connOk hlist).linked hdata,
        deliverData_holdsUri (hs c (hmem hlist)) hdata⟩
  | complete id status =>
      refine onConn_holdsUri hs h fun pre c post m₁ c' hlist hc => ?_
      exact ⟨deliverComplete_delivered (hm.connOk hlist).linked hc, deliverComplete_holdsUri hc⟩
  | close id cause order ok =>
      refine onConn_holdsUri hs h fun pre c post m₁ c' hlist hc => ?_
      exact ⟨deliverClose_delivered hids (hm.connOk hlist) hc,
        deliverClose_holdsUri (hm.connOk hlist) hc⟩

end Manager

/-! ## Runs -/

theorem uri_of_reachable {cfg : MgrConfig} {m : CltMgr} (h : (cltMgrSystem cfg).Reachable m) :
    m.cfg.uri = cfg.uri := by
  refine evolution_invariant (P := fun m => m.cfg.uri = cfg.uri) ?_ ?_ ?_ h
  · rw [(init_spec cfg).1]
  · intro m m' hquiet huri
    rw [hquiet.cfg, huri]
  · intro ok m m' rc htry huri
    cases htry with
    | _ => exact huri

/-- In every run, a connection on which a request is due holds no copy of the path, so
that the copy made for it replaces none; and while a request is in flight, the
connection holds its copy, and the path that was asked for is the one of the
configuration. -/
theorem uri_held {cfg : MgrConfig} {m : CltMgr} (h : (cltMgrSystem cfg).Reachable m) :
    ∀ c ∈ m.mgrConnList, HoldsUri cfg.uri c := by
  have hboth := (cltMgrSystem cfg).invariant
    (P := fun m => (cltMgrSystem cfg).Reachable m ∧ ∀ c ∈ m.mgrConnList, HoldsUri cfg.uri c)
    ?_ ?_ m h
  · exact hboth.2
  · refine ⟨System.Reachable.init _, ?_⟩
    rw [(init_spec cfg).2.1]
    simp
  · rintro m e m' ⟨hm, hs⟩ he
    refine ⟨hm.step he, ?_⟩
    rw [← uri_of_reachable hm] at hs ⊢
    exact cltMgrStep_holdsUri (cltMgrOk_of_reachable hm) hs he

/-- The first request of a connection holds a copy of the path, and the second
connection, whose request is due, holds none. -/
theorem uri_held_first_request :
    ∃ m, (cltMgrSystem oneHostConfig).run
        [.timer fun _ => allocAll, .newHttpReq 0 true true] = some m ∧
      ∃ c ∈ m.mgrConnList, ∃ d ∈ m.mgrConnList, c.req.uri = some "/" ∧ d.req.uri = none := by
  have hrun : ∃ m, (cltMgrSystem oneHostConfig).run
        [.timer fun _ => allocAll, .newHttpReq 0 true true] = some m ∧
      ∃ c ∈ m.mgrConnList, ∃ d ∈ m.mgrConnList, c.req.req = some 0 ∧
        isPending d.evNewHttpReq = true :=
    ⟨_, rfl, _, List.mem_cons_self, _, List.mem_cons_of_mem _ List.mem_cons_self, rfl, rfl⟩
  obtain ⟨m, hm, c, hc, d, hd, hflight, hqueued⟩ := hrun
  have hheld := uri_held ⟨_, hm⟩
  exact ⟨m, hm, c, hc, d, hd, ((hheld c hc).inFlight 0 hflight).1, (hheld d hd).queued hqueued⟩

end EvhtpHttp.Client

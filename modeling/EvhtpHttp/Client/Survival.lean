import EvhtpHttp.Client.Completion
import EvhtpHttp.Client.Creation
import EvhtpHttp.Client.Delivery
import EvhtpHttp.Client.HostHeader
import EvhtpHttp.Support.Total

/-!
# The client survives

The client calls libevent with event pointers it does not test, takes the next
address without looking whether there is one, and copies the path without looking
whether it is `NULL`.  None of this kills it when the configuration is one that
`main` accepts and every connection gets its three events: whatever libevent and
libevhtp deliver is then handled to the end.
-/

namespace EvhtpHttp.Client

open EvhtpHttp.Support

/-! ## Requests -/

section Requests

variable {σ : Type} {cb : CltNotifyCb σ} {I : σ → Prop} {r : ClientReq} {s : σ}

/-- What the owner's callback works on keeps `I`, and the request has its timer. -/
def Fine (I : σ → Prop) (x : ClientReq × σ) : Prop :=
  x.1.evTimeout ≠ none ∧ I x.2

theorem cltConnTimeoutRearm_total (h : r.evTimeout ≠ none) :
    Total (cltConnTimeoutRearm r) fun r' => r' = { r with evTimeout := some ⟨true⟩ } :=
  ⟨_, cltConnTimeoutRearm_eq_some.mpr ⟨h, rfl⟩, rfl⟩

theorem cltConnTimeoutStop_total (h : r.evTimeout ≠ none) :
    Total (cltConnTimeoutStop r) fun r' => r' = { r with evTimeout := some ⟨false⟩ } :=
  ⟨_, cltConnTimeoutStop_eq_some.mpr ⟨h, rfl⟩, rfl⟩

variable (hcb : ∀ what data s, I s → Total (cb what data s) I)

include hcb

theorem cltReqDestroy_total (hr : r.evTimeout ≠ none) (hs : I s) :
    Total (cltReqDestroy cb r s) (Fine I) := by
  apply Total.bind (hcb .reqDestroying 0 s hs)
  intro s' hs'
  refine Total.pure ⟨?_, hs'⟩
  cases hreq : r.req with
  | none => exact hr
  | some q => simpa [hreq] using hr

theorem cltUpstreamConnFini_total (hr : r.evTimeout ≠ none) (hs : I s) :
    Total (cltUpstreamConnFini cb r s) (Fine I) := by
  unfold cltUpstreamConnFini
  apply Total.bind (cltConnTimeoutRearm_total ?_)
  swap
  · cases hreq : r.req with
    | none => exact hr
    | some q => rwa [unset_evTimeout]
  rintro r' rfl
  apply Total.bind (hcb .connClosing 0 s hs)
  intro s' hs'
  exact Total.pure ⟨Option.some_ne_none _, hs'⟩

theorem cltUpstreamError_total (errtype : ℕ) (hr : r.evTimeout ≠ none) (hs : I s) :
    Total (cltUpstreamError cb errtype r s) (Fine I) := by
  unfold cltUpstreamError
  have hstop : ∀ s', I s' →
      Total ((cltConnTimeoutStop r).bind fun r' => some (r', s')) (Fine I) := by
    intro s' hs'
    apply Total.bind (cltConnTimeoutStop_total hr)
    rintro r' rfl
    exact Total.pure ⟨Option.some_ne_none _, hs'⟩
  apply Total.ite
  · exact fun _ => Total.bind (hcb .requestTimeout 0 s hs) hstop
  · exact fun _ => Total.bind (hcb .requestDoneError 0 s hs) hstop

theorem cltUpstreamFini_total {q : ReqPtr} (hreq : r.req = some q) (hr : r.evTimeout ≠ none)
    (hs : I s) : Total (cltUpstreamFini cb r s) (Fine I) := by
  apply Total.bind (Q := fun p => p = q) ⟨q, hreq, rfl⟩
  rintro p rfl
  apply Total.bind (cltConnTimeoutStop_total (by rwa [unset_evTimeout]))
  rintro r' rfl
  exact cltReqDestroy_total hcb (Option.some_ne_none _) hs

theorem evhtpRequestFree_total {q : ReqPtr} (hreq : r.hooked q = true → r.req = some q)
    (hr : r.evTimeout ≠ none) (hs : I s) : Total (evhtpRequestFree cb q r s) (Fine I) := by
  unfold evhtpRequestFree
  have hrelease : ∀ x : ClientReq × σ, Fine I x → Total (some (x.1.release q, x.2)) (Fine I) :=
    fun x hx => Total.pure ⟨hx.1, hx.2⟩
  apply Total.ite
  · exact fun hhook => Total.bind (cltUpstreamFini_total hcb (hreq hhook) hr hs) hrelease
  · exact fun _ => Total.bind (Total.pure ⟨hr, hs⟩) hrelease

/-- The part of `evhtp_connection_free` that runs the connection's hook, after which
the request `q` has no hooks or is still the one in progress. -/
theorem evhtpConnFiniHook_total (con : EvhtpConnection) {q : ReqPtr} (hreq : r.req = some q)
    (hr : r.evTimeout ≠ none) (hs : I s) :
    Total (evhtpConnFiniHook cb con r s) fun x =>
      Fine I x ∧ (x.1.hooked q = true → x.1.req = some q) := by
  apply Total.ite
  · intro _
    obtain ⟨⟨r', s'⟩, hfini, hfine⟩ := cltUpstreamConnFini_total hcb hr hs
    refine ⟨(r', s'), hfini, hfine, fun hhook => ?_⟩
    rw [cltUpstreamConnFini_hooked hreq hfini] at hhook
    cases hhook
  · exact fun _ => Total.pure ⟨⟨hr, hs⟩, fun _ => hreq⟩

theorem evhtpConnectionFree_total (order : FreeOrder)
    (hrequest : ∀ con, r.con = some con → con.request = r.req)
    (hr : r.evTimeout ≠ none) (hs : I s) :
    Total (evhtpConnectionFree cb order r s) (Fine I) := by
  have hfini : ∀ (con : EvhtpConnection) (x : ClientReq × σ), Fine I x →
      Total (evhtpConnFiniHook cb con x.1 x.2) (Fine I) := by
    intro con x hx
    exact Total.ite (fun _ => cltUpstreamConnFini_total hcb hx.1 hx.2) fun _ => Total.pure hx
  unfold evhtpConnectionFree
  cases hcon : r.con with
  | none => exact Total.pure ⟨hr, hs⟩
  | some con =>
      have hsame := hrequest con hcon
      cases hreq : r.req with
      | none =>
          have hfree : ∀ x : ClientReq × σ, evhtpFreeConnRequest cb con x.1 x.2 = some x := by
            intro x
            simp [evhtpFreeConnRequest, hsame, hreq]
          cases order with
          | requestFirst => exact Total.bind ⟨_, hfree (r, s), hr, hs⟩ (hfini con)
          | connectionFirst =>
              exact Total.bind (hfini con (r, s) ⟨hr, hs⟩) fun x hx => ⟨x, hfree x, hx⟩
      | some q =>
          have hfree : ∀ x : ClientReq × σ,
              Fine I x ∧ (x.1.hooked q = true → x.1.req = some q) →
              Total (evhtpFreeConnRequest cb con x.1 x.2) (Fine I) := by
            intro x hx
            simp only [evhtpFreeConnRequest, hsame, hreq]
            exact evhtpRequestFree_total hcb hx.2 hx.1.1 hx.1.2
          cases order with
          | requestFirst =>
              exact Total.bind (hfree (r, s) ⟨⟨hr, hs⟩, fun _ => hreq⟩) (hfini con)
          | connectionFirst =>
              exact Total.bind (evhtpConnFiniHook_total hcb con hreq hr hs) hfree

theorem cltConnDestroy_total (order : FreeOrder) (hlinked : Linked r) (hr : r.evTimeout ≠ none)
    (hs : I s) : Total (cltConnDestroy cb order r s) fun x => I x.2 := by
  have hfree : Total (evhtpConnectionFree cb order r.unhooked s) (Fine I) := by
    apply evhtpConnectionFree_total hcb order _ _ hs
    · intro con hcon
      rw [unhooked_req]
      exact hlinked.request con (unhooked_con r ▸ hcon)
    · cases hreq : r.req with
      | none => rwa [unhooked_of_idle hreq]
      | some q => rwa [unhooked_of_some hreq, unset_evTimeout]
  have hdone : ∀ x : ClientReq × σ, Fine I x →
      Total (connFreeTimeout x) fun x => I x.2 := by
    intro x hx
    unfold connFreeTimeout
    obtain ⟨ev, hev⟩ := Option.ne_none_iff_exists'.mp hx.1
    rw [hev]
    exact Total.pure hx.2
  have hrest := Total.bind hfree hdone
  cases hreq : r.req with
  | none =>
      rw [unhooked_of_idle hreq] at hrest
      simp only [cltConnDestroy, hreq]
      exact hrest
  | some q =>
      have hopen : r.con ≠ none := by
        intro hclosed
        rw [hlinked.closed hclosed] at hreq
        cases hreq
      obtain ⟨con, hcon⟩ := Option.ne_none_iff_exists'.mp hopen
      have hsame : con.request = some q := (hlinked.request con hcon).trans hreq
      rw [unhooked_of_some hreq] at hrest
      simp only [cltConnDestroy, hreq, unset_con, unset_req, hcon, hsame, if_true]
      exact hrest

theorem cltReqCb_total {q p : ReqPtr} {con : EvhtpConnection} (status : ℤ)
    (hreq : r.req = some p) (hcon : r.con = some con) (hr : r.evTimeout ≠ none) (hs : I s) :
    Total (cltReqCb cb q status r s) (Fine I) := by
  apply Total.bind (hcb .requestDoneOk status s hs)
  intro s' hs'
  apply Total.bind (cltConnTimeoutStop_total (by rwa [use_evTimeout]))
  rintro r' rfl
  apply Total.bind (Q := fun x => x = p) ⟨p, by simpa using hreq, rfl⟩
  rintro p' rfl
  apply Total.bind (Q := fun x => x = con) ⟨con, by simpa using hcon, rfl⟩
  rintro con' rfl
  exact cltReqDestroy_total hcb (by simp) hs'

end Requests

theorem cltReqCreate_total (strdupOk newOk : Bool) {uri : Option String} (huri : uri ≠ none)
    (keepalive : ℤ) (r : ClientReq) :
    Total (cltReqCreate strdupOk newOk uri keepalive r) fun x => x.1.evTimeout = r.evTimeout := by
  obtain ⟨path, rfl⟩ := Option.ne_none_iff_exists'.mp huri
  unfold cltReqCreate
  cases r.req with
  | some q => exact Total.pure rfl
  | none =>
      cases r.con with
      | none => exact Total.pure rfl
      | some con =>
          apply Total.ite
          · exact fun _ => Total.pure rfl
          · intro _
            exact Total.ite (fun _ => Total.pure rfl) fun _ => Total.pure rfl

theorem cltUpstreamData_total (hook : DataHook) {r : ClientReq} {q : ReqPtr}
    (hreq : r.req = some q) (hr : r.evTimeout ≠ none) :
    Total (cltUpstreamData hook r) fun r' => r'.evTimeout ≠ none := by
  have hrearm : ∀ {r : ClientReq}, r.evTimeout ≠ none →
      Total (cltConnTimeoutRearm r) fun r' => r'.evTimeout ≠ none := by
    intro r hr
    apply (cltConnTimeoutRearm_total hr).mono
    rintro r' rfl
    exact Option.some_ne_none _
  have hused : Total (r.req.bind fun q => cltConnTimeoutRearm (r.use q))
      fun r' => r'.evTimeout ≠ none := by
    rw [hreq]
    exact hrearm (by rwa [use_evTimeout])
  cases hook with
  | headersStart => exact hrearm hr
  | newChunk => exact hused
  | chunkDone => exact hused
  | chunksDone => exact hrearm hr

/-! ## Managers -/

/-- The events of a connection are allocated whenever the connection itself is. -/
def MakesEvents (ok : AllocOk) : Prop :=
  (∀ b ∈ connBlocks, ok b = true) →
    ok .evTimeout = true ∧ ok .evNewHttpReq = true ∧ ok .evConnDestroy = true

/-- The two events of a connection that its manager makes. -/
def ConnCtl.HasEvents (c : ConnCtl) : Prop :=
  c.evNewHttpReq ≠ none ∧ c.evConnDestroy ≠ none

/-- All three events of a connection. -/
def CltMgrConn.HasEvents (c : CltMgrConn) : Prop :=
  c.toConnCtl.HasEvents ∧ c.req.evTimeout ≠ none

/-- All that the handlers of a manager take for granted. -/
structure CltMgr.Equipped (m : CltMgr) : Prop where
  address : m.AddressOk
  uri : m.cfg.uri ≠ none
  ids : ∀ c ∈ m.mgrConnList, c.id < m.nextId
  events : ∀ c ∈ m.mgrConnList, c.HasEvents

section Manager

variable {m m' : CltMgr} {c : CltMgrConn} {ok : AllocOk}

theorem CltMgr.Equipped.congr (hm : m.Equipped) (hcfg : m'.cfg = m.cfg)
    (hconns : m'.mgrConnList = m.mgrConnList) (hnext : m'.nextId = m.nextId) : m'.Equipped where
  address := by
    rw [CltMgr.AddressOk, hcfg]
    exact hm.address
  uri := hcfg ▸ hm.uri
  ids := by
    rw [hconns, hnext]
    exact hm.ids
  events := by
    rw [hconns]
    exact hm.events

theorem CltMgr.Equipped.putConn (hm : m.Equipped) (hc : c.HasEvents) :
    (m.putConn c).Equipped where
  address := hm.address
  uri := hm.uri
  ids x hx := by
    obtain ⟨y, hy, rfl⟩ := List.mem_map.mp hx
    by_cases hid : y.id = c.id
    · rw [if_pos hid, ← hid]
      exact hm.ids y hy
    · rw [if_neg hid]
      exact hm.ids y hy
  events x hx := by
    obtain ⟨y, hy, rfl⟩ := List.mem_map.mp hx
    by_cases hid : y.id = c.id
    · rw [if_pos hid]
      exact hc
    · rw [if_neg hid]
      exact hm.events y hy

theorem CltMgr.Equipped.withDst {addr : String} {dst : CfgIpv4Array} (hm : m.Equipped)
    (hnext : cfgIpv4ArrayGetNext m.cfg.ipv4Dst = some (addr, dst)) : (m.withDst dst).Equipped where
  address := by
    obtain ⟨addr', dst', hnext', hdst⟩ := cfgIpv4ArrayGetNext_of_lt hm.address
    obtain ⟨-, rfl⟩ := Prod.mk.inj (Option.some.inj (hnext'.symm.trans hnext))
    exact hdst
  uri := hm.uri
  ids := hm.ids
  events := hm.events

theorem cltMgrConnTryCreate_survives (hm : m.Equipped) (hok : MakesEvents ok) :
    Total (cltMgrConnTryCreate ok m) fun x => x.1.Equipped := by
  have hids : ∀ c ∈ m.mgrConnList, c.id ≠ m.nextId := fun c hc => (hm.ids c hc).ne
  have hmade : ∀ {m' : CltMgr} {rc : ℤ}, TryCreate ok m m' rc → m'.Equipped →
      Total (cltMgrConnTryCreate ok m) fun x => x.1.Equipped :=
    fun htry hm' => ⟨_, htry.eq_some hids, hm'⟩
  by_cases hchecks : cltMgrCheckCreateConn m = true ∧ m.pacerCheck = true
  swap
  · exact hmade (.refused hchecks) hm
  obtain ⟨hcheck, hpace⟩ := hchecks
  by_cases hmgr : ok .mgrConn = true
  swap
  · exact hmade (.noMemory hcheck hpace (by simpa using hmgr)) (hm.congr rfl rfl rfl)
  obtain ⟨addr, dst, hnext, -⟩ := cfgIpv4ArrayGetNext_of_lt hm.address
  rcases connBlocks_or_fail hmgr with hall | hfail
  · obtain ⟨htimeout, hnew, hdestroy⟩ := hok hall
    apply hmade (.opened hcheck hpace hall hnew hnext)
    have hdst := hm.withDst hnext
    refine ⟨hdst.address, hdst.uri, ?_, ?_⟩
    · intro c hc
      rcases List.mem_append.mp hc with hc | hc
      · exact Nat.lt_succ_of_lt (hm.ids c hc)
      · obtain rfl := List.mem_singleton.mp hc
        exact Nat.lt_succ_self m.nextId
    · intro c hc
      rcases List.mem_append.mp hc with hc | hc
      · exact hm.events c hc
      · obtain rfl := List.mem_singleton.mp hc
        exact ⟨⟨Option.some_ne_none _, (eventNew_ne_none _).mpr hdestroy⟩,
          (eventNew_ne_none _).mpr htimeout⟩
  · exact hmade (.failed hcheck hpace hmgr hnext hfail) ((hm.withDst hnext).congr rfl rfl rfl)

/-! ## Notifications -/

theorem cancelHttpReq_total {c : ConnCtl} (hc : c.HasEvents) :
    Total (cltMgrConnCancelHttpReq c) ConnCtl.HasEvents := by
  apply Total.ite
  · intro _
    apply Total.bind (Q := fun ev => ev ≠ none)
      ⟨some ⟨false⟩, eventDel_eq_some.mpr ⟨hc.1, rfl⟩, Option.some_ne_none _⟩
    exact fun ev hev => Total.pure ⟨hev, hc.2⟩
  · exact fun _ => Total.pure hc

theorem cltMgrConnDestroy_total {c : ConnCtl} (hc : c.HasEvents) :
    Total (cltMgrConnDestroy c) ConnCtl.HasEvents := by
  apply Total.bind (Q := fun ev => ev ≠ none)
    ⟨some ⟨true⟩, eventAdd_eq_some.mpr ⟨hc.2, rfl⟩, Option.some_ne_none _⟩
  intro ev hev
  apply Total.bind (Q := fun ev => ev ≠ none)
    ⟨some ⟨true⟩, eventActive_eq_some.mpr ⟨hev, rfl⟩, Option.some_ne_none _⟩
  exact fun ev' hev' => Total.pure ⟨hc.1, hev'⟩

theorem cltMgrConnStartHttpReq_survives (msec : ℤ) {c : ConnCtl} (hc : c.HasEvents) :
    Total (cltMgrConnStartHttpReq msec c) ConnCtl.HasEvents := by
  obtain ⟨ev, hev⟩ := Option.ne_none_iff_exists'.mp hc.1
  obtain ⟨c', hc'⟩ := cltMgrConnStartHttpReq_total msec hev
  refine ⟨c', hc', ?_⟩
  rw [cltMgrConnStartHttpReq_spec hc']
  exact ⟨Option.some_ne_none _, hc.2⟩

/-- What a notification is about: a manager and a connection with their means. -/
def CallOk (s : MgrCall) : Prop :=
  s.1.Equipped ∧ s.2.HasEvents

theorem cltMgrConnNotifyCb_survives (hok : MakesEvents ok) (what : CltNotifyCmd) (data : ℤ)
    (s : MgrCall) (hs : CallOk s) : Total (cltMgrConnNotifyCb ok what data s) CallOk := by
  obtain ⟨m, c⟩ := s
  obtain ⟨hm, hc⟩ := hs
  have hdestroy : ∀ {m : CltMgr} {c : ConnCtl}, m.Equipped → c.HasEvents →
      Total ((cltMgrConnDestroy c).bind fun c => some (m, c)) CallOk :=
    fun hm hc => Total.bind (cltMgrConnDestroy_total hc) fun c' hc' => Total.pure ⟨hm, hc'⟩
  cases what with
  | requestDoneOk => exact Total.pure ⟨hm.congr rfl rfl rfl, hc⟩
  | requestDoneError => exact Total.pure ⟨hm.congr rfl rfl rfl, hc⟩
  | requestTimeout =>
      apply Total.bind (cancelHttpReq_total hc)
      exact fun c' hc' => hdestroy (hm.congr rfl rfl rfl) hc'
  | reqDestroying =>
      apply Total.ite
      · intro _
        apply Total.bind (cltMgrConnStartHttpReq_survives _ hc)
        exact fun c' hc' => Total.pure ⟨hm.congr rfl rfl rfl, hc'⟩
      · exact fun _ => hdestroy hm hc
  | connClosing =>
      apply Total.bind (cancelHttpReq_total hc)
      intro c₁ hc₁
      apply Total.bind (cltMgrConnDestroy_total hc₁)
      intro c₂ hc₂
      have hclosing : m.closing.Equipped := hm.congr rfl rfl rfl
      apply Total.bind (cltMgrConnTryCreate_survives hclosing hok)
      exact fun x hx => Total.pure ⟨hx, hc₂⟩
  | _ => exact Total.pure ⟨hm, hc⟩

end Manager

/-! ## Deliveries -/

section Deliveries

variable {m : CltMgr} {c : CltMgrConn} {ok : AllocOk}

theorem findConn_of_mem (hm : CltMgrOk m) (hc : c ∈ m.mgrConnList) :
    m.findConn c.id = some c := by
  obtain ⟨pre, post, hlist⟩ := List.append_of_mem hc
  have hnodup := RosterOk.ids_nodup hm.roster
  rw [hlist] at hnodup
  rw [CltMgr.findConn, hlist]
  exact find?_split (fun x : CltMgrConn => x.id) hnodup

/-- The manager and the connection that a delivery leaves have their means. -/
def DeliveryOk (x : CltMgr × CltMgrConn) : Prop :=
  x.1.Equipped ∧ x.2.HasEvents

theorem delivered_ne_none {ev : EventPtr} (h : ev ≠ none) : delivered ev ≠ none := by
  obtain ⟨e, rfl⟩ := Option.ne_none_iff_exists'.mp h
  exact Option.some_ne_none _

theorem deliverNewHttpReq_total (strdupOk newOk : Bool) (hentry : EntryOk c.entry)
    (hm : m.Equipped) (hc : c.HasEvents) (hpending : isPending c.evNewHttpReq = true) :
    Total (deliverNewHttpReq strdupOk newOk m c) DeliveryOk := by
  have hevents : ConnCtl.HasEvents
      { c.toConnCtl with evNewHttpReq := delivered c.evNewHttpReq, pendingHttpReq := false } :=
    ⟨delivered_ne_none hc.1.1, hc.1.2⟩
  simp only [deliverNewHttpReq, hpending, if_true, cltMgrConnHttpReqEvent,
    (queued_idle hentry hpending).1, ne_eq, not_true_eq_false, if_false]
  apply Total.bind (cltReqCreate_total strdupOk newOk hm.uri m.cfg.httpKeepalive c.req)
  rintro ⟨r, rc⟩ hr
  have htimeout : r.evTimeout ≠ none := by
    rw [hr]
    exact hc.2
  apply Total.ite
  · exact fun _ => Total.pure ⟨hm.congr rfl rfl rfl, hevents, htimeout⟩
  · exact fun _ => Total.pure ⟨hm.congr rfl rfl rfl, hevents, htimeout⟩

theorem deliverConnTimeout_total (hm : m.Equipped) (hc : c.HasEvents)
    (hpending : isPending c.req.evTimeout = true) :
    Total (deliverConnTimeout m c) DeliveryOk := by
  unfold deliverConnTimeout
  rw [if_pos hpending]
  have hok : MakesEvents allocAll := fun _ => ⟨rfl, rfl, rfl⟩
  apply Total.bind (cltMgrConnNotifyCb_survives hok .requestTimeout 0 (m, c.toConnCtl) ⟨hm, hc.1⟩)
  rintro ⟨m', ctl⟩ ⟨hm', hctl⟩
  exact Total.pure ⟨hm', hctl, delivered_ne_none hc.2⟩

theorem deliverData_total (hook : DataHook) (hlinked : Linked c.req) (hc : c.HasEvents)
    (hhooked : hookedRequest c.req ≠ none) :
    Total (deliverData hook c) CltMgrConn.HasEvents := by
  obtain ⟨q, hq⟩ := Option.ne_none_iff_exists'.mp hhooked
  unfold deliverData
  rw [hq]
  apply Total.bind (cltUpstreamData_total hook (hookedRequest_isSome hlinked hq).2 hc.2)
  exact fun r hr => Total.pure ⟨hc.1, hr⟩

theorem deliverComplete_total (status : ℤ) (hlinked : Linked c.req) (hm : m.Equipped)
    (hc : c.HasEvents) {con : EvhtpConnection} (hcon : c.req.con = some con)
    (hrequest : con.request ≠ none) : Total (deliverComplete status m c) DeliveryOk := by
  obtain ⟨q, hq⟩ := Option.ne_none_iff_exists'.mp hrequest
  have hreq : c.req.req = some q := (hlinked.request con hcon).symm.trans hq
  have hok : MakesEvents allocAll := fun _ => ⟨rfl, rfl, rfl⟩
  simp only [deliverComplete, hcon, hq]
  apply Total.bind (cltReqCb_total (I := CallOk) (cltMgrConnNotifyCb_survives hok) status hreq hcon
    hc.2 ⟨hm, hc.1⟩)
  rintro ⟨r, m', ctl⟩ ⟨hr, hm', hctl⟩
  exact Total.pure ⟨hm', hctl, hr⟩

theorem evhtpErrorHook_total {σ : Type} {cb : CltNotifyCb σ} {I : σ → Prop}
    (hcb : ∀ what data s, I s → Total (cb what data s) I) (cause : CloseCause) {r : ClientReq}
    {s : σ} (hr : r.evTimeout ≠ none) (hs : I s) :
    Total (evhtpErrorHook cb cause r s) fun x =>
      Fine I x ∧ x.1.con = r.con ∧ x.1.req = r.req := by
  have hquiet : Total (some (r, s)) fun x => Fine I x ∧ x.1.con = r.con ∧ x.1.req = r.req :=
    Total.pure ⟨⟨hr, hs⟩, rfl, rfl⟩
  cases cause with
  | quiet => exact hquiet
  | error errtype =>
      unfold evhtpErrorHook
      cases hookedRequest r with
      | none => exact hquiet
      | some q =>
          obtain ⟨⟨r', s'⟩, herror, hfine⟩ := cltUpstreamError_total hcb errtype hr hs
          obtain ⟨-, rfl⟩ := cltUpstreamError_spec herror
          exact ⟨_, herror, hfine, rfl, rfl⟩

theorem deliverClose_total (cause : CloseCause) (order : FreeOrder) (hok : MakesEvents ok)
    (hlinked : Linked c.req) (hm : m.Equipped) (hc : c.HasEvents) (hopen : c.req.con ≠ none) :
    Total (deliverClose cause order ok m c) DeliveryOk := by
  obtain ⟨con, hcon⟩ := Option.ne_none_iff_exists'.mp hopen
  have hcb := cltMgrConnNotifyCb_survives hok
  simp only [deliverClose, hcon]
  apply Total.bind (evhtpErrorHook_total (I := CallOk) hcb cause hc.2 ⟨hm, hc.1⟩)
  rintro ⟨r₁, s₁⟩ ⟨⟨hr₁, hs₁⟩, hcon₁, hreq₁⟩
  have hrequest : ∀ con, r₁.con = some con → con.request = r₁.req := by
    intro con' hcon'
    rw [hcon₁] at hcon'
    rw [hreq₁]
    exact hlinked.request con' hcon'
  apply Total.bind (evhtpConnectionFree_total hcb order hrequest hr₁ hs₁)
  rintro ⟨r', m', ctl'⟩ ⟨hr', hm', hctl'⟩
  exact Total.pure ⟨hm', hctl', hr'⟩

theorem deliverConnDestroy_total (order : FreeOrder) (hok : MakesEvents ok)
    (hlinked : Linked c.req) (hm : m.Equipped) (hc : c.HasEvents)
    (hpending : isPending c.evConnDestroy = true) :
    Total (deliverConnDestroy order ok m c) CltMgr.Equipped := by
  unfold deliverConnDestroy
  rw [if_pos hpending]
  apply Total.bind (Q := fun ev => ev = some ⟨false⟩)
    ⟨some ⟨false⟩, eventDel_eq_some.mpr ⟨hc.1.1, rfl⟩, rfl⟩
  rintro ev₁ rfl
  apply Total.bind (Q := fun ev => ev = some ⟨false⟩)
    ⟨some ⟨false⟩, eventDel_eq_some.mpr ⟨delivered_ne_none hc.1.2, rfl⟩, rfl⟩
  rintro ev₂ rfl
  apply Total.bind (cltConnDestroy_total (I := CallOk) (cltMgrConnNotifyCb_survives hok) order
    hlinked hc.2 ⟨hm, Option.some_ne_none _, Option.some_ne_none _⟩)
  rintro ⟨r, m', ctl⟩ ⟨hm', hctl⟩
  apply Total.bind (Q := fun ev => ev = some ⟨false⟩)
    ⟨some ⟨false⟩, eventFree_eq_some.mpr ⟨hctl.1, rfl⟩, rfl⟩
  rintro ev₃ rfl
  apply Total.bind (Q := fun ev => ev = some ⟨false⟩)
    ⟨some ⟨false⟩, eventFree_eq_some.mpr ⟨hctl.2, rfl⟩, rfl⟩
  rintro ev₄ rfl
  refine Total.pure ⟨hm'.address, hm'.uri, ?_, ?_⟩
  · exact fun x hx => hm'.ids x (List.mem_of_mem_filter hx)
  · exact fun x hx => hm'.events x (List.mem_of_mem_filter hx)

theorem onConn_total {f : CltMgr → CltMgrConn → Option (CltMgr × CltMgrConn)}
    (hm : CltMgrOk m) (hc : c ∈ m.mgrConnList) (hf : Total (f m c) DeliveryOk) :
    Total (m.onConn c.id f) CltMgr.Equipped := by
  have hfind : m.findConn c.id = some c := findConn_of_mem hm hc
  apply Total.bind (Q := fun d => d = c) ⟨c, hfind, rfl⟩
  rintro d rfl
  apply Total.bind hf
  exact fun x hx => Total.pure (hx.1.putConn hx.2)

end Deliveries

/-! ## Timers -/

section Timers

variable {m : CltMgr} {ok : ℕ → AllocOk}

theorem cltMgrBurst_survives (hok : ∀ j, MakesEvents (ok j)) (fuel : ℕ) :
    ∀ (i : ℤ) (j : ℕ) (m : CltMgr), m.Equipped →
      Total (cltMgrBurst ok fuel i j m) CltMgr.Equipped := by
  induction fuel with
  | zero => exact fun _ _ _ hm => Total.pure hm
  | succ fuel ih =>
      intro i j m hm
      apply Total.ite
      · intro _
        apply Total.bind (cltMgrConnTryCreate_survives hm (hok j))
        intro x hx
        exact Total.ite (fun _ => Total.pure hx) fun _ => ih _ _ _ hx
      · exact fun _ => Total.pure hm

theorem cltMgrTimerStateRunning_survives (hok : ∀ j, MakesEvents (ok j)) (hm : m.Equipped) :
    Total (cltMgrTimerStateRunning ok m) CltMgr.Equipped := by
  have hpaced : m.paced.Equipped := by
    obtain ⟨p, hp⟩ := m.paced_eq
    rw [hp]
    exact hm.congr rfl rfl rfl
  apply Total.bind (cltMgrBurst_survives hok _ _ _ _ hpaced)
  intro m' hm'
  exact Total.ite (fun _ => Total.pure (hm'.congr rfl rfl rfl)) fun _ => Total.pure hm'

theorem cltMgrTimerStateWaiting_survives (hm : m.Equipped) :
    (cltMgrTimerStateWaiting m).Equipped := by
  unfold cltMgrTimerStateWaiting
  split
  · exact hm
  · split
    · exact hm.congr rfl rfl rfl
    · exact hm.congr rfl rfl rfl

theorem cltMgrTimerStateCleanupWaiting_survives (hm : m.Equipped) :
    (cltMgrTimerStateCleanupWaiting m).Equipped := by
  unfold cltMgrTimerStateCleanupWaiting
  split
  · exact hm.congr rfl rfl rfl
  · split
    · exact hm
    · exact hm.congr rfl rfl rfl

theorem cltMgrTimer_survives (hok : ∀ j, MakesEvents (ok j)) (hm : m.Equipped) :
    Total (cltMgrTimer ok m) CltMgr.Equipped := by
  have hend : ∀ m' : CltMgr, m'.Equipped →
      Total (if m'.mgrState = .completed then some m' else some { m' with tTimerev := ⟨true⟩ })
        CltMgr.Equipped :=
    fun m' hm' => Total.ite (fun _ => Total.pure hm') fun _ => Total.pure (hm'.congr rfl rfl rfl)
  unfold cltMgrTimer
  split
  · exact Total.bind (cltMgrTimerStateRunning_survives hok hm) hend
  · exact Total.bind (Total.pure (cltMgrTimerStateWaiting_survives hm)) hend
  · exact Total.bind (Total.pure hm) hend
  · exact Total.bind (Total.pure (cltMgrTimerStateCleanupWaiting_survives hm)) hend
  · exact Total.bind (Total.pure hm) hend
  · exact Total.bind (Total.pure (hm.congr rfl rfl rfl)) hend

theorem cltMgrDestroyAll_total {conns : List CltMgrConn} (h : ∀ c ∈ conns, c.HasEvents) :
    Total (cltMgrDestroyAll conns) fun conns' =>
      conns'.map (fun c => c.id) = conns.map (fun c => c.id) ∧ ∀ c ∈ conns', c.HasEvents := by
  induction conns with
  | nil => exact Total.pure ⟨rfl, by simp⟩
  | cons c conns ih =>
      have hc := h c List.mem_cons_self
      obtain ⟨ctl, hctl, hevents⟩ := cltMgrConnDestroy_total hc.1
      apply Total.bind (Q := fun x => x = ctl) ⟨ctl, hctl, rfl⟩
      rintro ctl' rfl
      apply Total.bind (ih fun x hx => h x (List.mem_cons_of_mem c hx))
      rintro rest ⟨hids, hrest⟩
      refine Total.pure ⟨?_, ?_⟩
      · rw [cltMgrConnDestroy_spec hctl, List.map_cons, List.map_cons, hids]
      · intro x hx
        rcases List.mem_cons.mp hx with rfl | hx
        · exact ⟨hevents, hc.2⟩
        · exact hrest x hx

theorem cltMgrCleanupTimer_survives (hm : m.Equipped) :
    Total (cltMgrCleanupTimer m) CltMgr.Equipped := by
  apply Total.ite
  · exact fun _ => Total.pure (hm.congr rfl rfl rfl)
  · intro _
    apply Total.bind (cltMgrDestroyAll_total hm.events)
    rintro conns ⟨hids, hevents⟩
    refine Total.pure ⟨hm.address, hm.uri, ?_, hevents⟩
    intro c hc
    have hid : c.id ∈ m.mgrConnList.map fun c => c.id := by
      rw [← hids]
      exact List.mem_map_of_mem hc
    obtain ⟨d, hd, hid⟩ := List.mem_map.mp hid
    rw [← hid]
    exact hm.ids d hd

end Timers

/-! ## Every event -/

/-- libevent or libevhtp may deliver the event: it is pending, a hook of the request
in progress is registered, a response is awaited, or the connection is open. -/
def LoopEvent.Enabled (m : CltMgr) : LoopEvent → Prop
  | .timer _ => BaseEvent.timer.Pending m
  | .statTimer => BaseEvent.statTimer.Pending m
  | .runningTimer => BaseEvent.runningTimer.Pending m
  | .waitTimer => BaseEvent.waitTimer.Pending m
  | .cleanupTimer => BaseEvent.cleanupTimer.Pending m
  | .newHttpReq id _ _ => (BaseEvent.newHttpReq id).Pending m
  | .connDestroy id _ _ => (BaseEvent.connDestroy id).Pending m
  | .connTimeout id => (BaseEvent.connTimeout id).Pending m
  | .data id _ => ∃ c ∈ m.mgrConnList, c.id = id ∧ hookedRequest c.req ≠ none
  | .complete id _ => ∃ c ∈ m.mgrConnList, c.id = id ∧
      ∃ con, c.req.con = some con ∧ con.request ≠ none
  | .close id _ _ _ => ∃ c ∈ m.mgrConnList, c.id = id ∧ c.req.con ≠ none

/-- The allocations made while the event is handled make the events of every new
connection. -/
def LoopEvent.MakesEvents : LoopEvent → Prop
  | .timer ok => ∀ j, Client.MakesEvents (ok j)
  | .connDestroy _ _ ok => Client.MakesEvents ok
  | .close _ _ _ ok => Client.MakesEvents ok
  | _ => True

theorem mem_of_findConn {m : CltMgr} {id : ℕ} {c : CltMgrConn} (h : m.findConn id = some c) :
    c ∈ m.mgrConnList ∧ c.id = id :=
  ⟨List.mem_of_find?_eq_some h, by simpa using List.find?_some h⟩

/-- An event that was handled could be delivered. -/
theorem enabled_of_step {e : LoopEvent} {m m' : CltMgr} (h : cltMgrStep e m = some m') :
    e.Enabled m := by
  have hconn : ∀ {id : ℕ} {f : CltMgr → CltMgrConn → Option (CltMgr × CltMgrConn)},
      m.onConn id f = some m' → ∃ c x, c ∈ m.mgrConnList ∧ c.id = id ∧ f m c = some x := by
    intro id f hf
    obtain ⟨c, hfind, hrest⟩ := Option.bind_eq_some_iff.mp hf
    obtain ⟨x, hx, -⟩ := Option.bind_eq_some_iff.mp hrest
    obtain ⟨hc, hid⟩ := mem_of_findConn hfind
    exact ⟨c, x, hc, hid, hx⟩
  cases e with
  | timer ok => exact (Option.ite_none_right_eq_some.mp h).1
  | statTimer => exact (Option.ite_none_right_eq_some.mp h).1
  | runningTimer => exact (Option.ite_none_right_eq_some.mp h).1
  | waitTimer => exact (Option.ite_none_right_eq_some.mp h).1
  | cleanupTimer => exact (Option.ite_none_right_eq_some.mp h).1
  | newHttpReq id strdupOk newOk =>
      obtain ⟨c, x, hc, hid, hx⟩ := hconn h
      exact ⟨c, hc, hid, (Option.ite_none_right_eq_some.mp hx).1⟩
  | connDestroy id order ok =>
      obtain ⟨c, hfind, hx⟩ := Option.bind_eq_some_iff.mp h
      obtain ⟨hc, hid⟩ := mem_of_findConn hfind
      exact ⟨c, hc, hid, (Option.ite_none_right_eq_some.mp hx).1⟩
  | connTimeout id =>
      obtain ⟨c, x, hc, hid, hx⟩ := hconn h
      exact ⟨c, hc, hid, (Option.ite_none_right_eq_some.mp hx).1⟩
  | data id hook =>
      obtain ⟨c, hfind, hrest⟩ := Option.bind_eq_some_iff.mp h
      obtain ⟨x, hx, -⟩ := Option.bind_eq_some_iff.mp hrest
      obtain ⟨c', hdata, -⟩ := Option.bind_eq_some_iff.mp hx
      obtain ⟨hc, hid⟩ := mem_of_findConn hfind
      obtain ⟨q, r, hq, -⟩ := deliverData_eq_some hdata
      exact ⟨c, hc, hid, by simp [hq]⟩
  | complete id status =>
      obtain ⟨c, ⟨m₁, c'⟩, hc, hid, hx⟩ := hconn h
      obtain ⟨con, q, -, -, hcon, hq, -⟩ := deliverComplete_eq_some hx
      exact ⟨c, hc, hid, con, hcon, by simp [hq]⟩
  | close id cause order ok =>
      obtain ⟨c, ⟨m₁, c'⟩, hc, hid, hx⟩ := hconn h
      obtain ⟨con, -, -, -, -, -, hcon, -⟩ := deliverClose_eq_some hx
      exact ⟨c, hc, hid, by simp [hcon]⟩

/-- A manager with its means handles every event that may be delivered, and keeps
them. -/
theorem cltMgrStep_survives {e : LoopEvent} {m : CltMgr} (hm : CltMgrOk m)
    (hequipped : m.Equipped) (hok : e.MakesEvents) (he : e.Enabled m) :
    Total (cltMgrStep e m) CltMgr.Equipped := by
  have hentry : ∀ c ∈ m.mgrConnList, EntryOk c.entry := by
    intro c hc
    obtain ⟨pre, post, hlist⟩ := List.append_of_mem hc
    exact hm.entryOk hlist
  cases e with
  | timer ok =>
      have hpending : m.tTimerev.pending = true := he
      simp only [cltMgrStep, hpending, if_true]
      exact cltMgrTimer_survives hok (hequipped.congr rfl rfl rfl)
  | statTimer =>
      have hpending : m.tStatTimerev.pending = true := he
      simp only [cltMgrStep, hpending, if_true, cltMgrStatTimer]
      apply Total.pure
      split
      · exact hequipped.congr rfl rfl rfl
      · exact hequipped.congr rfl rfl rfl
  | runningTimer =>
      have hpending : m.tRunningTimerev.pending = true := he
      simp only [cltMgrStep, hpending, if_true]
      exact Total.pure (hequipped.congr rfl rfl rfl)
  | waitTimer =>
      have hpending : m.tWaitTimerev.pending = true := he
      simp only [cltMgrStep, hpending, if_true, cltMgrWaitingTimer]
      apply Total.pure
      split
      · exact hequipped.congr rfl rfl rfl
      · exact hequipped.congr rfl rfl rfl
  | cleanupTimer =>
      have hpending : m.tCleanupTimerev.pending = true := he
      simp only [cltMgrStep, hpending, if_true]
      exact cltMgrCleanupTimer_survives (hequipped.congr rfl rfl rfl)
  | newHttpReq id strdupOk newOk =>
      obtain ⟨c, hc, rfl, hpending⟩ := he
      exact onConn_total hm hc (deliverNewHttpReq_total strdupOk newOk (hentry c hc) hequipped
        (hequipped.events c hc) hpending)
  | connDestroy id order ok =>
      obtain ⟨c, hc, rfl, hpending⟩ := he
      apply Total.bind (Q := fun d => d = c) ⟨c, findConn_of_mem hm hc, rfl⟩
      rintro d rfl
      exact deliverConnDestroy_total order hok (hm.conns d hc).linked hequipped
        (hequipped.events d hc) hpending
  | connTimeout id =>
      obtain ⟨c, hc, rfl, hpending⟩ := he
      exact onConn_total hm hc (deliverConnTimeout_total hequipped (hequipped.events c hc) hpending)
  | data id hook =>
      obtain ⟨c, hc, rfl, hhooked⟩ := he
      apply onConn_total hm hc
      apply Total.bind (deliverData_total hook (hm.conns c hc).linked (hequipped.events c hc)
        hhooked)
      exact fun c' hc' => Total.pure ⟨hequipped, hc'⟩
  | complete id status =>
      obtain ⟨c, hc, rfl, con, hcon, hrequest⟩ := he
      exact onConn_total hm hc (deliverComplete_total status (hm.conns c hc).linked hequipped
        (hequipped.events c hc) hcon hrequest)
  | close id cause order ok =>
      obtain ⟨c, hc, rfl, hopen⟩ := he
      exact onConn_total hm hc (deliverClose_total cause order hok (hm.conns c hc).linked hequipped
        (hequipped.events c hc) hopen)

/-! ## Runs -/

theorem equipped_init {cfg : MgrConfig} (haddr : cfg.ipv4Dst.cur < cfg.ipv4Dst.ipv4.length)
    (huri : cfg.uri ≠ none) : (cltMgrSystem cfg).init.Equipped := by
  obtain ⟨hcfg, hconns, -⟩ := init_spec cfg
  constructor
  · rw [CltMgr.AddressOk, hcfg]
    exact haddr
  · rw [hcfg]
    exact huri
  · simp [hconns]
  · simp [hconns]

/-- The manager of a worker has what its handlers take for granted when `main` has
accepted the command line. -/
theorem equipped_worker {args : List Arg} {cfg : MgrConfig} (hargs : mainConfig args = some cfg) :
    (cltMgrSystem (workerConfig cfg)).init.Equipped := by
  obtain ⟨haddrs, -, -, huri, -⟩ := mainConfig_spec hargs
  have hlength : 0 < cfg.ipv4Dst.ipv4.length := List.length_pos_iff.mpr haddrs
  exact equipped_init hlength huri

end EvhtpHttp.Client

import EvhtpHttp.Client.Refinement

/-!
# The calls made on one client request

Seen from a single `struct client_req`, a run is a sequence of calls into
`clt.c`: by the owner, which issues requests and destroys the connection in the
end, and by libevent and libevhtp.  What the owner does when it is notified does
not matter here, since it never touches the request itself.
-/

namespace EvhtpHttp.Client

/-- What happens to one client request. -/
inductive ReqEvent
  | create (strdupOk newOk : Bool) (uri : Option String) (keepalive : ℤ)
  | data (hook : DataHook)
  | error (errtype : ℕ)
  | complete (status : ℤ)
  | timeout
  | close (order : FreeOrder)
  | destroy (order : FreeOrder)
deriving Repr, DecidableEq

/-- Is this one of the calls that make a request? -/
def ReqEvent.isCreate : ReqEvent → Bool
  | .create _ _ _ _ => true
  | _ => false

/-- One call, with an owner of any kind.  libevhtp calls only the hooks that are
still registered, and reports only the request in progress as complete. -/
inductive ReqCall : ReqEvent → ClientReq → ClientReq → Prop
  | create {strdupOk newOk : Bool} {uri : Option String} {keepalive rc : ℤ} {r r' : ClientReq}
      (h : cltReqCreate strdupOk newOk uri keepalive r = some (r', rc)) :
      ReqCall (.create strdupOk newOk uri keepalive) r r'
  | data {hook : DataHook} {q : ReqPtr} {r r' : ClientReq} (hq : hookedRequest r = some q)
      (h : cltUpstreamData hook r = some r') : ReqCall (.data hook) r r'
  | error {σ : Type} {cb : CltNotifyCb σ} {s s' : σ} {errtype : ℕ} {q : ReqPtr}
      {r r' : ClientReq} (hq : hookedRequest r = some q)
      (h : cltUpstreamError cb errtype r s = some (r', s')) : ReqCall (.error errtype) r r'
  | complete {σ : Type} {cb : CltNotifyCb σ} {s s' : σ} {status : ℤ} {con : EvhtpConnection}
      {q : ReqPtr} {r r' : ClientReq} (hcon : r.con = some con) (hq : con.request = some q)
      (h : cltReqCb cb q status r s = some (r', s')) : ReqCall (.complete status) r r'
  | timeout (r : ClientReq) : ReqCall .timeout r { r with evTimeout := delivered r.evTimeout }
  | close {σ : Type} {cb : CltNotifyCb σ} {s s' : σ} {order : FreeOrder} {r r' : ClientReq}
      (hopen : r.con ≠ none) (h : evhtpConnectionFree cb order r s = some (r', s')) :
      ReqCall (.close order) r r'
  | destroy {σ : Type} {cb : CltNotifyCb σ} {s s' : σ} {order : FreeOrder} {r r' : ClientReq}
      (h : cltConnDestroy cb order r s = some (r', s')) : ReqCall (.destroy order) r r'

/-- Several calls, one after the other. -/
inductive ReqCalls : List ReqEvent → ClientReq → ClientReq → Prop
  | nil (r : ClientReq) : ReqCalls [] r r
  | cons {e : ReqEvent} {es : List ReqEvent} {r r₁ r' : ClientReq} (h : ReqCall e r r₁)
      (hrest : ReqCalls es r₁ r') : ReqCalls (e :: es) r r'

theorem ReqCall.calls {e : ReqEvent} {r r' : ClientReq} (h : ReqCall e r r') :
    ReqCalls [e] r r' :=
  ReqCalls.cons h (ReqCalls.nil r')

theorem ReqCalls.concat {e : ReqEvent} {es : List ReqEvent} {r r₁ r' : ClientReq}
    (h : ReqCalls es r r₁) (he : ReqCall e r₁ r') : ReqCalls (es ++ [e]) r r' := by
  induction h with
  | nil => exact he.calls
  | cons hcall _ ih => exact ReqCalls.cons hcall (ih he)

/-- A client request as `clt_conn_create` returns it. -/
def FreshReq (r : ClientReq) : Prop :=
  ∃ ok hostIp hostHdr port ops, cltConnCreate ok hostIp hostHdr port = (some r, ops)

theorem newClientReq_fresh {ok : AllocOk} (hall : ∀ b ∈ reqBlocks, ok b = true) (addr : String)
    (port : ℤ) : FreshReq (newClientReq ok addr port) :=
  ⟨ok, addr, addr, port, _, Prod.ext (cltConnCreate_made hall addr addr port) rfl⟩

theorem FreshReq.eq_new {r : ClientReq} (h : FreshReq r) :
    ∃ ok addr port, r = newClientReq ok addr port := by
  obtain ⟨ok, addr, host, port, ops, h⟩ := h
  exact ⟨ok, addr, port, cltConnCreate_eq_some h⟩

/-! ## What no call but `clt_req_create` changes -/

/-- The details of the connection, the messages and what was asked for in the
requests so far are those of `r`. -/
structure Framed (r r' : ClientReq) : Prop where
  hostIp : r'.hostIp = r.hostIp
  hostHdr : r'.hostHdr = r.hostHdr
  messages : r'.messages = r.messages
  headersOut : r'.requests.map EvhtpRequest.headersOut = r.requests.map EvhtpRequest.headersOut

namespace Framed

theorem refl (r : ClientReq) : Framed r r :=
  ⟨rfl, rfl, rfl, rfl⟩

theorem trans {r r₁ r' : ClientReq} (h : Framed r r₁) (h' : Framed r₁ r') : Framed r r' where
  hostIp := h'.hostIp.trans h.hostIp
  hostHdr := h'.hostHdr.trans h.hostHdr
  messages := h'.messages.trans h.messages
  headersOut := h'.headersOut.trans h.headersOut

theorem length (h : Framed r r') : r'.requests.length = r.requests.length := by
  simpa using congrArg List.length h.headersOut

theorem use (q : ReqPtr) (r : ClientReq) : Framed r (r.use q) := by
  unfold ClientReq.use
  split
  · exact ⟨rfl, rfl, rfl, rfl⟩
  · exact refl r

theorem modify {r : ClientReq} {q : ReqPtr} {f : EvhtpRequest → EvhtpRequest}
    (hf : ∀ x, (f x).headersOut = x.headersOut) :
    Framed r { r with requests := r.requests.modify q f } where
  hostIp := rfl
  hostHdr := rfl
  messages := rfl
  headersOut := by
    apply List.ext_getElem?
    intro i
    simp only [List.getElem?_map, List.getElem?_modify]
    by_cases hi : q = i
    · simp [hi, Function.comp_def, hf]
    · simp [hi]

theorem release (q : ReqPtr) (r : ClientReq) : Framed r (r.release q) :=
  modify fun _ => rfl

theorem unset (q : ReqPtr) (r : ClientReq) : Framed r (evhtpUnsetAllHooks q r) := by
  have hused := use q r
  have hunset : Framed r { r with requests := r.requests.modify q fun x => { x with hooks := false } } :=
    modify fun _ => rfl
  exact ⟨hused.hostIp, hused.hostHdr, hused.messages, hunset.headersOut⟩

theorem unhooked (r : ClientReq) : Framed r r.unhooked := by
  cases hreq : r.req with
  | none =>
      rw [unhooked_of_idle hreq]
      exact refl r
  | some q =>
      rw [unhooked_of_some hreq]
      exact unset q r

end Framed

section Callback

variable {σ : Type} {cb : CltNotifyCb σ} {r r' : ClientReq} {s s' : σ}

theorem cltReqDestroy_framed (h : cltReqDestroy cb r s = some (r', s')) : Framed r r' := by
  simp only [cltReqDestroy, Option.bind_eq_bind, Option.bind_eq_some_iff] at h
  obtain ⟨s₁, -, h⟩ := h
  cases h
  cases r.req with
  | none => exact ⟨rfl, rfl, rfl, rfl⟩
  | some q =>
      have hfreed := (Framed.unset q r).trans (Framed.release q _)
      exact ⟨hfreed.hostIp, hfreed.hostHdr, hfreed.messages, hfreed.headersOut⟩

theorem cltUpstreamConnFini_framed (h : cltUpstreamConnFini cb r s = some (r', s')) :
    Framed r r' := by
  simp only [cltUpstreamConnFini, Option.bind_eq_bind, Option.bind_eq_some_iff] at h
  obtain ⟨r₁, hr₁, s₁, -, h⟩ := h
  cases h
  obtain ⟨-, rfl⟩ := cltConnTimeoutRearm_eq_some.mp hr₁
  have hunset := Framed.unhooked r
  exact ⟨hunset.hostIp, hunset.hostHdr, hunset.messages, hunset.headersOut⟩

theorem cltUpstreamFini_framed (h : cltUpstreamFini cb r s = some (r', s')) : Framed r r' := by
  simp only [cltUpstreamFini, Option.bind_eq_bind, Option.bind_eq_some_iff] at h
  obtain ⟨q, -, r₁, hr₁, h⟩ := h
  obtain ⟨-, rfl⟩ := cltConnTimeoutStop_eq_some.mp hr₁
  have hdestroy := cltReqDestroy_framed h
  exact (Framed.unset q r).trans
    ⟨hdestroy.hostIp, hdestroy.hostHdr, hdestroy.messages, hdestroy.headersOut⟩

theorem evhtpRequestFree_framed {q : ReqPtr}
    (h : evhtpRequestFree cb q r s = some (r', s')) : Framed r r' := by
  by_cases hq : r.hooked q = true
  · simp only [evhtpRequestFree, hq, if_true, Option.bind_eq_bind, Option.bind_eq_some_iff] at h
    obtain ⟨⟨r₁, s₁⟩, h₁, h⟩ := h
    have hfini := cltUpstreamFini_framed h₁
    cases h
    exact hfini.trans (Framed.release q _)
  · rw [evhtpRequestFree_of_not_hooked (by simpa using hq)] at h
    cases h
    exact Framed.release q r

theorem evhtpFreeConnRequest_framed {con : EvhtpConnection}
    (h : evhtpFreeConnRequest cb con r s = some (r', s')) : Framed r r' := by
  unfold evhtpFreeConnRequest at h
  split at h
  · exact evhtpRequestFree_framed h
  · cases h
    exact Framed.refl r

theorem evhtpConnFiniHook_framed {con : EvhtpConnection}
    (h : evhtpConnFiniHook cb con r s = some (r', s')) : Framed r r' := by
  unfold evhtpConnFiniHook at h
  split at h
  · exact cltUpstreamConnFini_framed h
  · cases h
    exact Framed.refl r

theorem evhtpConnectionFree_framed {order : FreeOrder}
    (h : evhtpConnectionFree cb order r s = some (r', s')) : Framed r r' := by
  unfold evhtpConnectionFree at h
  split at h
  · cases h
    exact Framed.refl r
  · cases order with
    | requestFirst =>
        obtain ⟨⟨r₁, s₁⟩, h₁, h⟩ := Option.bind_eq_some_iff.mp h
        exact (evhtpFreeConnRequest_framed h₁).trans (evhtpConnFiniHook_framed h)
    | connectionFirst =>
        obtain ⟨⟨r₁, s₁⟩, h₁, h⟩ := Option.bind_eq_some_iff.mp h
        exact (evhtpConnFiniHook_framed h₁).trans (evhtpFreeConnRequest_framed h)

theorem cltReqCb_framed {q : ReqPtr} {status : ℤ}
    (h : cltReqCb cb q status r s = some (r', s')) : Framed r r' := by
  simp only [cltReqCb, Option.bind_eq_bind, Option.bind_eq_some_iff] at h
  obtain ⟨s₁, -, r₁, hr₁, p, -, con, -, h⟩ := h
  obtain ⟨-, rfl⟩ := cltConnTimeoutStop_eq_some.mp hr₁
  have hused := Framed.use q r
  have hunset := Framed.unset p { r.use q with evTimeout := some ⟨false⟩ }
  have hdestroy := cltReqDestroy_framed h
  exact {
    hostIp := hdestroy.hostIp.trans (hunset.hostIp.trans hused.hostIp)
    hostHdr := hdestroy.hostHdr.trans (hunset.hostHdr.trans hused.hostHdr)
    messages := hdestroy.messages.trans (hunset.messages.trans hused.messages)
    headersOut := hdestroy.headersOut.trans (hunset.headersOut.trans hused.headersOut) }

theorem cltConnDestroy_framed {order : FreeOrder} (hr : Linked r)
    (h : cltConnDestroy cb order r s = some (r', s')) : Framed r r' := by
  obtain ⟨r₁, ev, hfree, -, rfl⟩ := cltConnDestroy_eq_some hr h
  have hfreed := (Framed.unhooked r).trans (evhtpConnectionFree_framed hfree)
  exact ⟨hfreed.hostIp, hfreed.hostHdr, hfreed.messages, hfreed.headersOut⟩

end Callback

/-- Only `clt_req_create` changes what is framed. -/
theorem ReqCall.framed {e : ReqEvent} {r r' : ClientReq} (h : ReqCall e r r') (hr : Linked r)
    (he : e.isCreate = false) : Framed r r' := by
  cases h with
  | create => cases he
  | @data hook q r r' hq h =>
      cases hook <;>
        simp only [cltUpstreamData, Option.bind_eq_bind, Option.bind_eq_some_iff,
          cltConnTimeoutRearm_eq_some] at h
      · obtain ⟨-, rfl⟩ := h
        exact ⟨rfl, rfl, rfl, rfl⟩
      · obtain ⟨p, -, -, rfl⟩ := h
        have hused := Framed.use p r
        exact ⟨hused.hostIp, hused.hostHdr, hused.messages, hused.headersOut⟩
      · obtain ⟨p, -, -, rfl⟩ := h
        have hused := Framed.use p r
        exact ⟨hused.hostIp, hused.hostHdr, hused.messages, hused.headersOut⟩
      · obtain ⟨-, rfl⟩ := h
        exact ⟨rfl, rfl, rfl, rfl⟩
  | error hq h =>
      obtain ⟨-, rfl⟩ := cltUpstreamError_spec h
      exact ⟨rfl, rfl, rfl, rfl⟩
  | complete hcon hq h => exact cltReqCb_framed h
  | timeout => exact ⟨rfl, rfl, rfl, rfl⟩
  | close hopen h => exact evhtpConnectionFree_framed h
  | destroy h => exact cltConnDestroy_framed hr h

theorem ReqCall.linked {e : ReqEvent} {r r' : ClientReq} (h : ReqCall e r r') (hr : Linked r) :
    Linked r' := by
  cases h with
  | create h =>
      by_cases hidle : r.req = none
      · by_cases hopen : r.con = none
        · simp only [cltReqCreate, hidle, hopen] at h
          cases h
          exact hr.congr hopen.symm hidle.symm rfl
        · exact (cltReqCreate_spec hr hopen hidle h).1
      · obtain ⟨q, hq⟩ := Option.ne_none_iff_exists'.mp hidle
        simp only [cltReqCreate, hq] at h
        cases h
        exact hr.congr rfl hq.symm rfl
  | data hq h =>
      obtain ⟨hcon, hreq, hrequests, -⟩ := cltUpstreamData_spec h
      exact hr.congr hcon hreq hrequests
  | error hq h =>
      obtain ⟨-, rfl⟩ := cltUpstreamError_spec h
      exact hr.congr rfl rfl rfl
  | complete hcon hq h =>
      obtain ⟨s₁, con, -, -, hcon, hcon', hreq', -⟩ := cltReqCb_spec h
      exact Linked.of_idle hcon' (hr.finiHook con hcon) rfl hreq'
  | timeout => exact hr.congr rfl rfl rfl
  | close hopen h =>
      obtain ⟨con, hcon⟩ := Option.ne_none_iff_exists'.mp hopen
      obtain ⟨hcon', hreq', -⟩ :=
        evhtpConnectionFree_spec hcon (hr.finiHook con hcon) (hr.request con hcon) h
      exact Linked.of_closed hcon' hreq'
  | destroy h =>
      by_cases hcon : r.con = none
      · obtain ⟨-, hcon', hreq', -⟩ := cltConnDestroy_closed hr hcon h
        exact Linked.of_closed hcon' hreq'
      · obtain ⟨con, hcon⟩ := Option.ne_none_iff_exists'.mp hcon
        obtain ⟨-, hcon', hreq', -⟩ := cltConnDestroy_open hr hcon h
        exact Linked.of_closed hcon' hreq'

theorem ReqCalls.framed {es : List ReqEvent} {r r' : ClientReq} (h : ReqCalls es r r')
    (hr : Linked r) (hes : ∀ e ∈ es, e.isCreate = false) : Framed r r' := by
  induction h with
  | nil => exact Framed.refl _
  | cons hfirst _ ih =>
      have hone := hfirst.framed hr (hes _ List.mem_cons_self)
      exact hone.trans (ih (hfirst.linked hr) fun e he => hes e (List.mem_cons_of_mem _ he))

end EvhtpHttp.Client

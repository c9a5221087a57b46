import EvhtpHttp.Client.Request
import Mathlib.Data.Option.Basic
import Mathlib.Data.List.Basic

/-!
# What the functions of `clt.c` do

For each function that calls the owner back: the notifications the owner gets,
in their order, and the state the request is left in.
-/

namespace EvhtpHttp.Client

/-! ## Requests and their hooks -/

@[simp] theorem use_con (q : ReqPtr) (r : ClientReq) : (r.use q).con = r.con := by
  unfold ClientReq.use; split <;> rfl

@[simp] theorem use_req (q : ReqPtr) (r : ClientReq) : (r.use q).req = r.req := by
  unfold ClientReq.use; split <;> rfl

@[simp] theorem use_evTimeout (q : ReqPtr) (r : ClientReq) :
    (r.use q).evTimeout = r.evTimeout := by
  unfold ClientReq.use; split <;> rfl

@[simp] theorem use_requests (q : ReqPtr) (r : ClientReq) :
    (r.use q).requests = r.requests := by
  unfold ClientReq.use; split <;> rfl

@[simp] theorem unset_con (q : ReqPtr) (r : ClientReq) :
    (evhtpUnsetAllHooks q r).con = r.con := by
  simp [evhtpUnsetAllHooks]

@[simp] theorem unset_req (q : ReqPtr) (r : ClientReq) :
    (evhtpUnsetAllHooks q r).req = r.req := by
  simp [evhtpUnsetAllHooks]

@[simp] theorem unset_evTimeout (q : ReqPtr) (r : ClientReq) :
    (evhtpUnsetAllHooks q r).evTimeout = r.evTimeout := by
  simp [evhtpUnsetAllHooks]

@[simp] theorem release_con (q : ReqPtr) (r : ClientReq) :
    (r.release q).con = r.con := rfl

@[simp] theorem release_req (q : ReqPtr) (r : ClientReq) :
    (r.release q).req = r.req := rfl

@[simp] theorem release_evTimeout (q : ReqPtr) (r : ClientReq) :
    (r.release q).evTimeout = r.evTimeout := rfl

theorem hooked_eq_of_requests_eq {r r' : ClientReq} (h : r'.requests = r.requests)
    (q : ReqPtr) : r'.hooked q = r.hooked q := by
  simp [ClientReq.hooked, h]

/-- Once its hooks are unset a request is called back no more. -/
@[simp] theorem hooked_unset (q : ReqPtr) (r : ClientReq) :
    (evhtpUnsetAllHooks q r).hooked q = false := by
  simp only [ClientReq.hooked, evhtpUnsetAllHooks, List.getElem?_modify_eq]
  cases r.requests[q]? <;> rfl

/-- The hooks of the request in progress are unset, if there is one. -/
def ClientReq.unhooked (r : ClientReq) : ClientReq :=
  match r.req with
  | some q => evhtpUnsetAllHooks q r
  | none => r

theorem unhooked_of_idle {r : ClientReq} (h : r.req = none) : r.unhooked = r := by
  simp [ClientReq.unhooked, h]

theorem unhooked_of_some {r : ClientReq} {q : ReqPtr} (h : r.req = some q) :
    r.unhooked = evhtpUnsetAllHooks q r := by
  simp [ClientReq.unhooked, h]

@[simp] theorem unhooked_con (r : ClientReq) : r.unhooked.con = r.con := by
  cases h : r.req with
  | none => rw [unhooked_of_idle h]
  | some q => rw [unhooked_of_some h, unset_con]

@[simp] theorem unhooked_req (r : ClientReq) : r.unhooked.req = r.req := by
  cases h : r.req with
  | none => rw [unhooked_of_idle h, h]
  | some q => rw [unhooked_of_some h, unset_req, h]

/-- The request in progress is the one libevhtp has on the connection, its
hooks are registered, and it has not been freed. -/
structure Linked (r : ClientReq) : Prop where
  finiHook : ∀ con, r.con = some con → con.finiHook = true
  request : ∀ con, r.con = some con → con.request = r.req
  closed : r.con = none → r.req = none
  hooked : ∀ q, r.req = some q → r.hooked q = true

namespace Linked

theorem of_closed {r : ClientReq} (hcon : r.con = none) (hreq : r.req = none) :
    Linked r := by
  constructor <;> simp [hcon, hreq]

theorem of_idle {r : ClientReq} {con : EvhtpConnection} (hcon : r.con = some con)
    (hfini : con.finiHook = true) (hrequest : con.request = none)
    (hreq : r.req = none) : Linked r := by
  constructor <;> simp [hcon, hreq, hfini, hrequest]

theorem congr {r r' : ClientReq} (h : Linked r) (hcon : r'.con = r.con)
    (hreq : r'.req = r.req) (hrequests : r'.requests = r.requests) : Linked r' where
  finiHook con hc := h.finiHook con (hcon ▸ hc)
  request con hc := by rw [hreq]; exact h.request con (hcon ▸ hc)
  closed hc := by rw [hreq]; exact h.closed (hcon ▸ hc)
  hooked q hq := by
    rw [hooked_eq_of_requests_eq hrequests]
    exact h.hooked q (hreq ▸ hq)

end Linked

/-! ## The request timer -/

theorem cltConnTimeoutRearm_eq_some {r r' : ClientReq} :
    cltConnTimeoutRearm r = some r' ↔
      r.evTimeout ≠ none ∧ r' = { r with evTimeout := some ⟨true⟩ } := by
  cases h : r.evTimeout with
  | none => simp [cltConnTimeoutRearm, h, eventAdd]
  | some ev => simp [cltConnTimeoutRearm, h, eventAdd, eq_comm]

theorem cltConnTimeoutStop_eq_some {r r' : ClientReq} :
    cltConnTimeoutStop r = some r' ↔
      r.evTimeout ≠ none ∧ r' = { r with evTimeout := some ⟨false⟩ } := by
  cases h : r.evTimeout with
  | none => simp [cltConnTimeoutStop, h, eventDel]
  | some ev => simp [cltConnTimeoutStop, h, eventDel, eq_comm]

/-! ## Callbacks -/

section Callback

variable {σ : Type} {cb : CltNotifyCb σ}

theorem cltReqDestroy_spec {r r' : ClientReq} {s s' : σ}
    (h : cltReqDestroy cb r s = some (r', s')) :
    cb .reqDestroying 0 s = some s' ∧
      r'.con = r.con ∧ r'.req = none ∧ r'.evTimeout = r.evTimeout := by
  simp only [cltReqDestroy, cltCallNotify, Option.bind_eq_bind,
    Option.bind_eq_some_iff] at h
  obtain ⟨s₁, hs₁, h⟩ := h
  cases hr : r.req with
  | none =>
      simp only [hr] at h
      cases h
      exact ⟨hs₁, rfl, rfl, rfl⟩
  | some q =>
      simp only [hr] at h
      cases h
      exact ⟨hs₁, by simp, rfl, by simp⟩

theorem cltUpstreamConnFini_spec {r r' : ClientReq} {s s' : σ}
    (h : cltUpstreamConnFini cb r s = some (r', s')) :
    cb .connClosing 0 s = some s' ∧
      r'.con = none ∧ r'.req = none ∧ r'.evTimeout = some ⟨true⟩ := by
  simp only [cltUpstreamConnFini, cltCallNotify, Option.bind_eq_bind,
    Option.bind_eq_some_iff] at h
  obtain ⟨r₁, hr₁, s₁, hs₁, h⟩ := h
  cases h
  obtain ⟨-, rfl⟩ := cltConnTimeoutRearm_eq_some.mp hr₁
  exact ⟨hs₁, rfl, rfl, rfl⟩

/-- After the connection's hook ran, the request it had in progress is called
back no more. -/
theorem cltUpstreamConnFini_hooked {r r' : ClientReq} {s s' : σ} {q : ReqPtr}
    (hq : r.req = some q)
    (h : cltUpstreamConnFini cb r s = some (r', s')) :
    r'.hooked q = false := by
  simp only [cltUpstreamConnFini, Option.bind_eq_bind,
    Option.bind_eq_some_iff, hq] at h
  obtain ⟨r₁, hr₁, s₁, hs₁, h⟩ := h
  cases h
  obtain ⟨-, rfl⟩ := cltConnTimeoutRearm_eq_some.mp hr₁
  exact hooked_unset q r

theorem cltUpstreamFini_spec {r r' : ClientReq} {s s' : σ}
    (h : cltUpstreamFini cb r s = some (r', s')) :
    cb .reqDestroying 0 s = some s' ∧
      r'.con = r.con ∧ r'.req = none := by
  simp only [cltUpstreamFini, Option.bind_eq_bind, Option.bind_eq_some_iff] at h
  obtain ⟨q, hq, r₁, hr₁, h⟩ := h
  obtain ⟨-, rfl⟩ := cltConnTimeoutStop_eq_some.mp hr₁
  obtain ⟨hs, hcon, hreq, -⟩ := cltReqDestroy_spec h
  exact ⟨hs, by simpa using hcon, hreq⟩

theorem evhtpRequestFree_of_not_hooked {r : ClientReq} {s : σ} {q : ReqPtr}
    (hq : r.hooked q = false) :
    evhtpRequestFree cb q r s = some (r.release q, s) := by
  simp [evhtpRequestFree, hq]

theorem evhtpRequestFree_of_hooked {r r' : ClientReq} {s s' : σ} {q : ReqPtr}
    (hq : r.hooked q = true)
    (h : evhtpRequestFree cb q r s = some (r', s')) :
    cb .reqDestroying 0 s = some s' ∧
      r'.con = r.con ∧ r'.req = none := by
  simp only [evhtpRequestFree, hq, if_true, Option.bind_eq_bind,
    Option.bind_eq_some_iff] at h
  obtain ⟨⟨r₁, s₁⟩, h₁, h⟩ := h
  cases h
  simpa using cltUpstreamFini_spec h₁

/-- Freeing a live connection ends with the notification that it is closing.
A request in progress whose hooks are registered is announced first, if the
request is freed before the connection's hook runs. -/
theorem evhtpConnectionFree_spec {r r' : ClientReq} {s s' : σ}
    {order : FreeOrder} {con : EvhtpConnection}
    (hcon : r.con = some con) (hfini : con.finiHook = true)
    (hrequest : con.request = r.req)
    (h : evhtpConnectionFree cb order r s = some (r', s')) :
    r'.con = none ∧ r'.req = none ∧ r'.evTimeout = some ⟨true⟩ ∧
      ∃ s₁, cb .connClosing 0 s₁ = some s' ∧
        (s₁ = s ∨ (∃ q, r.req = some q ∧ r.hooked q = true) ∧
          cb .reqDestroying 0 s = some s₁) := by
  cases order with
  | requestFirst =>
      simp only [evhtpConnectionFree, hcon, evhtpFreeConnRequest, evhtpConnFiniHook,
        hfini, hrequest, if_true, Option.bind_eq_bind, Option.bind_eq_some_iff] at h
      obtain ⟨⟨r₁, s₁⟩, h₁, h⟩ := h
      obtain ⟨hs', hcon', hreq', htimer'⟩ := cltUpstreamConnFini_spec h
      refine ⟨hcon', hreq', htimer', s₁, hs', ?_⟩
      cases hreq : r.req with
      | none =>
          simp only [hreq] at h₁
          cases h₁
          exact Or.inl rfl
      | some q =>
          simp only [hreq] at h₁
          cases hhook : r.hooked q with
          | false =>
              rw [evhtpRequestFree_of_not_hooked hhook] at h₁
              cases h₁
              exact Or.inl rfl
          | true =>
              exact Or.inr ⟨⟨q, rfl, hhook⟩, (evhtpRequestFree_of_hooked hhook h₁).1⟩
  | connectionFirst =>
      simp only [evhtpConnectionFree, hcon, evhtpFreeConnRequest, evhtpConnFiniHook,
        hfini, hrequest, if_true, Option.bind_eq_bind, Option.bind_eq_some_iff] at h
      obtain ⟨⟨r₁, s₁⟩, h₁, h⟩ := h
      obtain ⟨hs', hcon', hreq', htimer'⟩ := cltUpstreamConnFini_spec h₁
      cases hreq : r.req with
      | none =>
          simp only [hreq] at h
          cases h
          exact ⟨hcon', hreq', htimer', s, hs', Or.inl rfl⟩
      | some q =>
          simp only [hreq] at h
          rw [evhtpRequestFree_of_not_hooked (cltUpstreamConnFini_hooked hreq h₁)] at h
          cases h
          exact ⟨by simpa using hcon', by simpa using hreq', by simpa using htimer',
            s, hs', Or.inl rfl⟩

/-- What is left of `clt_conn_destroy` when the request in progress is the one
libevhtp has on the connection: its hooks are unset, the connection is freed and
the timer is deleted. -/
theorem cltConnDestroy_eq_some {r r' : ClientReq} {s s' : σ} {order : FreeOrder}
    (hr : Linked r) (h : cltConnDestroy cb order r s = some (r', s')) :
    ∃ r₁ ev, evhtpConnectionFree cb order r.unhooked s = some (r₁, s') ∧
      isPending ev = false ∧ r' = { r₁ with evTimeout := ev } := by
  have hfreed : ∃ r₁ s₁, evhtpConnectionFree cb order r.unhooked s = some (r₁, s₁) ∧
      (if r₁.evTimeout = none then some (r₁, s₁)
        else some ({ r₁ with evTimeout := some ⟨false⟩ }, s₁)) = some (r', s') := by
    cases hreq : r.req with
    | none =>
        simp only [cltConnDestroy, hreq, Option.bind_eq_bind, Option.bind_some,
          Option.bind_eq_some_iff] at h
        obtain ⟨⟨r₁, s₁⟩, hfree, h⟩ := h
        refine ⟨r₁, s₁, by rw [unhooked_of_idle hreq, hfree], ?_⟩
        cases htimer : r₁.evTimeout with
        | none => simpa [htimer] using h
        | some ev => simpa [htimer, eventDel, eventFree] using h
    | some q =>
        obtain ⟨con, hcon⟩ : ∃ con, r.con = some con := by
          apply Option.ne_none_iff_exists'.mp
          intro hclosed
          have hnone := hr.closed hclosed
          rw [hreq] at hnone
          cases hnone
        have hrequest : con.request = some q := (hr.request con hcon).trans hreq
        simp only [cltConnDestroy, hreq, unset_con, unset_req, hcon, hrequest, if_true,
          Option.bind_eq_bind, Option.bind_some, Option.bind_eq_some_iff] at h
        obtain ⟨⟨r₁, s₁⟩, hfree, h⟩ := h
        refine ⟨r₁, s₁, by rw [unhooked_of_some hreq, hfree], ?_⟩
        cases htimer : r₁.evTimeout with
        | none => simpa [htimer] using h
        | some ev => simpa [htimer, eventDel, eventFree] using h
  obtain ⟨r₁, s₁, hfree, h⟩ := hfreed
  by_cases htimer : r₁.evTimeout = none
  · rw [if_pos htimer] at h
    cases h
    exact ⟨r', none, hfree, rfl, by rw [← htimer]⟩
  · rw [if_neg htimer] at h
    cases h
    exact ⟨r₁, some ⟨false⟩, hfree, rfl, rfl⟩

/-- The owner destroys a closed connection: there is nothing left to notify. -/
theorem cltConnDestroy_closed {r r' : ClientReq} {s s' : σ} {order : FreeOrder}
    (hr : Linked r) (hcon : r.con = none)
    (h : cltConnDestroy cb order r s = some (r', s')) :
    s' = s ∧ r'.con = none ∧ r'.req = none ∧ isPending r'.evTimeout = false := by
  obtain ⟨r₁, ev, hfree, hev, rfl⟩ := cltConnDestroy_eq_some hr h
  have hreq : r.req = none := hr.closed hcon
  rw [unhooked_of_idle hreq] at hfree
  simp only [evhtpConnectionFree, hcon] at hfree
  cases hfree
  exact ⟨rfl, hcon, hreq, hev⟩

/-- The owner destroys a connection that libevhtp has not freed yet: the only
notification is that the connection is closing. -/
theorem cltConnDestroy_open {r r' : ClientReq} {s s' : σ} {order : FreeOrder}
    {con : EvhtpConnection} (hr : Linked r) (hcon : r.con = some con)
    (h : cltConnDestroy cb order r s = some (r', s')) :
    cb .connClosing 0 s = some s' ∧
      r'.con = none ∧ r'.req = none ∧ isPending r'.evTimeout = false := by
  obtain ⟨r₁, ev, hfree, hev, rfl⟩ := cltConnDestroy_eq_some hr h
  have hrequest : con.request = r.unhooked.req :=
    (hr.request con hcon).trans (unhooked_req r).symm
  obtain ⟨hcon', hreq', -, s₁, hs₁, horigin⟩ :=
    evhtpConnectionFree_spec ((unhooked_con r).trans hcon) (hr.finiHook con hcon) hrequest hfree
  rcases horigin with rfl | ⟨⟨q, hq, hhook⟩, -⟩
  · exact ⟨hs₁, hcon', hreq', hev⟩
  · rw [unhooked_req] at hq
    rw [unhooked_of_some hq, hooked_unset] at hhook
    cases hhook

theorem cltReqCb_spec {r r' : ClientReq} {s s' : σ} {q : ReqPtr} {status : ℤ}
    (h : cltReqCb cb q status r s = some (r', s')) :
    ∃ s₁ con, cb .requestDoneOk status s = some s₁ ∧
      cb .reqDestroying 0 s₁ = some s' ∧ r.con = some con ∧
      r'.con = some { con with request := none } ∧ r'.req = none ∧
      r'.evTimeout = some ⟨false⟩ := by
  simp only [cltReqCb, cltCallNotify, Option.bind_eq_bind,
    Option.bind_eq_some_iff] at h
  obtain ⟨s₁, hs₁, r₁, hr₁, p, hp, con, hcon, h⟩ := h
  obtain ⟨-, rfl⟩ := cltConnTimeoutStop_eq_some.mp hr₁
  obtain ⟨hs', hcon', hreq', htimer'⟩ := cltReqDestroy_spec h
  exact ⟨s₁, con, hs₁, hs', by simpa using hcon, hcon', hreq', by simpa using htimer'⟩

theorem cltUpstreamError_spec {r r' : ClientReq} {s s' : σ} {errtype : ℕ}
    (h : cltUpstreamError cb errtype r s = some (r', s')) :
    cb (if errtype &&& bevEventTimeout ≠ 0 then .requestTimeout else .requestDoneError)
        0 s = some s' ∧
      r' = { r with evTimeout := some ⟨false⟩ } := by
  simp only [cltUpstreamError, cltCallNotify, Option.bind_eq_bind] at h
  split at h <;> rename_i herr <;> simp only [Option.bind_eq_some_iff] at h
  · obtain ⟨s₁, hs₁, r₁, hr₁, h⟩ := h
    cases h
    obtain ⟨-, rfl⟩ := cltConnTimeoutStop_eq_some.mp hr₁
    exact ⟨by rwa [if_pos herr], rfl⟩
  · obtain ⟨s₁, hs₁, r₁, hr₁, h⟩ := h
    cases h
    obtain ⟨-, rfl⟩ := cltConnTimeoutStop_eq_some.mp hr₁
    exact ⟨by rwa [if_neg herr], rfl⟩

end Callback

theorem cltUpstreamData_spec {r r' : ClientReq} {hook : DataHook}
    (h : cltUpstreamData hook r = some r') :
    r'.con = r.con ∧ r'.req = r.req ∧ r'.requests = r.requests ∧
      r'.evTimeout = some ⟨true⟩ := by
  cases hook <;>
    simp only [cltUpstreamData, Option.bind_eq_bind, Option.bind_eq_some_iff,
      cltConnTimeoutRearm_eq_some] at h
  · obtain ⟨-, rfl⟩ := h
    exact ⟨rfl, rfl, rfl, rfl⟩
  · obtain ⟨q, -, -, rfl⟩ := h
    simp
  · obtain ⟨q, -, -, rfl⟩ := h
    simp
  · obtain ⟨-, rfl⟩ := h
    exact ⟨rfl, rfl, rfl, rfl⟩

/-- On an open connection without a request, `clt_req_create` fails for lack of
memory only, and otherwise makes a new request the one in progress. -/
theorem cltReqCreate_spec {strdupOk newOk : Bool} {uri : Option String} {keepalive rc : ℤ}
    {r r' : ClientReq} (hr : Linked r) (hopen : r.con ≠ none) (hidle : r.req = none)
    (h : cltReqCreate strdupOk newOk uri keepalive r = some (r', rc)) :
    Linked r' ∧ r'.con.isNone = r.con.isNone ∧ r'.evTimeout = r.evTimeout ∧
      (rc < 0 ∧ (strdupOk = false ∨ newOk = false) ∧ r'.req = none ∧
          r'.requests = r.requests ∨
        rc = 0 ∧ r'.req ≠ none ∧ r'.requests.length = r.requests.length + 1) := by
  obtain ⟨con, hcon⟩ := Option.ne_none_iff_exists'.mp hopen
  cases uri with
  | none => simp [cltReqCreate, hcon, hidle] at h
  | some uri =>
      simp only [cltReqCreate, hcon, hidle] at h
      split at h
      · rename_i hstrdup
        cases h
        refine ⟨hr.congr hcon.symm hidle.symm rfl, by simp [hcon], rfl, Or.inl ?_⟩
        exact ⟨by decide, Or.inl (by simpa using hstrdup), rfl, rfl⟩
      · split at h
        · rename_i hnew
          cases h
          refine ⟨hr.congr hcon.symm hidle.symm rfl, by simp [hcon], rfl, Or.inl ?_⟩
          exact ⟨by decide, Or.inr (by simpa using hnew), rfl, rfl⟩
        · cases h
          refine ⟨⟨?_, ?_, ?_, ?_⟩, by simp [hcon], rfl, Or.inr ⟨rfl, by simp, by simp⟩⟩
          · rintro con' ⟨⟩
            exact hr.finiHook con hcon
          · rintro con' ⟨⟩
            rfl
          · simp
          · rintro q ⟨⟩
            simp [ClientReq.hooked]

end EvhtpHttp.Client

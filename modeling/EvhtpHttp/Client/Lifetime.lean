import EvhtpHttp.Client.ManagerCalls

/-!
# The lifetime of a request

Every request that `clt_req_create` makes is freed by whoever ends it:
`clt_req_destroy` after a completion, libevhtp when it frees the connection.
`clt_conn_destroy` unsets the hooks of the request in progress first; when
libevhtp then frees the request before it calls the connection's hook, that hook
still finds the request and unsets its hooks once more.
-/

namespace EvhtpHttp.Client

/-- Every request made so far was freed once, except the one that is `live`, and
freed requests were used `stale` times. -/
structure FreedBut (live : Option ReqPtr) (stale : ℕ) (r : ClientReq) : Prop where
  freed : ∀ q x, r.requests[q]? = some x → x.freed = if live = some q then 0 else 1
  made : ∀ q, live = some q → q < r.requests.length
  stale : r.staleUses = stale

namespace FreedBut

variable {live : Option ReqPtr} {stale : ℕ} {q : ReqPtr} {r r' : ClientReq}

theorem congr (h : FreedBut live stale r) (hrequests : r'.requests = r.requests)
    (hstale : r'.staleUses = r.staleUses) : FreedBut live stale r' := by
  constructor
  · rw [hrequests]
    exact h.freed
  · rw [hrequests]
    exact h.made
  · rw [hstale]
    exact h.stale

theorem modify (h : FreedBut live stale r) {f : EvhtpRequest → EvhtpRequest}
    (hf : ∀ x, (f x).freed = x.freed) :
    FreedBut live stale { r with requests := r.requests.modify q f } where
  freed := by
    intro p x hx
    simp only [List.getElem?_modify, Option.map_eq_map, Option.map_eq_some_iff] at hx
    obtain ⟨y, hy, rfl⟩ := hx
    rw [← h.freed p y hy]
    split
    · exact hf y
    · rfl
  made := by simpa using h.made
  stale := h.stale

theorem isFreed_eq (h : FreedBut live stale r) : r.isFreed q = decide (live ≠ some q) := by
  by_cases hq : q < r.requests.length
  · have hfreed := h.freed q _ (List.getElem?_eq_getElem hq)
    simp only [ClientReq.isFreed, List.getElem?_eq_getElem hq, hfreed]
    by_cases hlive : live = some q
    · simp [hlive]
    · simp [hlive]
  · have hlive : live ≠ some q := fun hlive => hq (h.made q hlive)
    simp [ClientReq.isFreed, List.getElem?_eq_none (Nat.le_of_not_lt hq), hlive]

theorem use_live (h : FreedBut (some q) stale r) : r.use q = r := by
  simp [ClientReq.use, h.isFreed_eq]

theorem use_freed (h : FreedBut live stale r) (hq : live ≠ some q) :
    FreedBut live (stale + 1) (r.use q) := by
  have huse : r.use q = { r with staleUses := r.staleUses + 1 } := by
    simp [ClientReq.use, h.isFreed_eq, hq]
  rw [huse]
  exact ⟨h.freed, h.made, by rw [h.stale]⟩

theorem unset (h : FreedBut (some q) stale r) :
    FreedBut (some q) stale (evhtpUnsetAllHooks q r) := by
  rw [evhtpUnsetAllHooks, h.use_live]
  exact h.modify fun _ => rfl

theorem unset_freed (h : FreedBut live stale r) (hq : live ≠ some q) :
    FreedBut live (stale + 1) (evhtpUnsetAllHooks q r) := by
  have hunset := (h.use_freed hq).modify (q := q)
    (f := fun x => { x with hooks := false }) fun _ => rfl
  exact hunset.congr (by simp [evhtpUnsetAllHooks]) rfl

theorem unhooked (h : FreedBut r.req stale r) : FreedBut r.req stale r.unhooked := by
  cases hreq : r.req with
  | none =>
      rw [unhooked_of_idle hreq, ← hreq]
      exact h
  | some q =>
      rw [unhooked_of_some hreq]
      exact FreedBut.unset (hreq ▸ h)

theorem release (h : FreedBut (some q) stale r) : FreedBut none stale (r.release q) where
  freed := by
    intro p x hx
    simp only [ClientReq.release, List.getElem?_modify, Option.map_eq_map,
      Option.map_eq_some_iff] at hx
    obtain ⟨y, hy, rfl⟩ := hx
    have hfreed := h.freed p y hy
    by_cases hqp : q = p
    · simp [hqp, hfreed]
    · simp [hqp, hfreed]
  made := by simp
  stale := h.stale

theorem issue (h : FreedBut none stale r) {x : EvhtpRequest} (hx : x.freed = 0) :
    FreedBut (some r.requests.length) stale { r with requests := r.requests ++ [x] } where
  freed := by
    intro p y hy
    by_cases hp : p < r.requests.length
    · rw [List.getElem?_append_left hp] at hy
      have hne : r.requests.length ≠ p := Nat.ne_of_gt hp
      simpa [hne] using h.freed p y hy
    · have hle : r.requests.length ≤ p := Nat.le_of_not_lt hp
      rw [List.getElem?_append_right hle, List.getElem?_singleton] at hy
      by_cases hlast : p - r.requests.length = 0
      · rw [if_pos hlast] at hy
        cases hy
        have heq : r.requests.length = p := Nat.le_antisymm hle (Nat.le_of_sub_eq_zero hlast)
        simp [heq, hx]
      · rw [if_neg hlast] at hy
        cases hy
  made := by simp
  stale := h.stale

end FreedBut

/-! ## One call -/

section Callback

variable {σ : Type} {cb : CltNotifyCb σ} {stale : ℕ} {r r' : ClientReq} {s s' : σ}

theorem cltReqDestroy_freedBut (live : Option ReqPtr) (hreq : r.req = live)
    (hr : FreedBut live stale r) (h : cltReqDestroy cb r s = some (r', s')) :
    FreedBut none stale r' := by
  simp only [cltReqDestroy, Option.bind_eq_bind, Option.bind_eq_some_iff] at h
  obtain ⟨s₁, -, h⟩ := h
  cases h
  cases live with
  | none =>
      simp only [hreq]
      exact hr.congr rfl rfl
  | some q =>
      simp only [hreq]
      exact hr.unset.release.congr rfl rfl

theorem cltUpstreamConnFini_unhooked (h : cltUpstreamConnFini cb r s = some (r', s')) :
    r'.requests = r.unhooked.requests ∧ r'.staleUses = r.unhooked.staleUses := by
  simp only [cltUpstreamConnFini, Option.bind_eq_bind, Option.bind_eq_some_iff] at h
  obtain ⟨r₁, hr₁, s₁, -, h⟩ := h
  cases h
  obtain ⟨-, rfl⟩ := cltConnTimeoutRearm_eq_some.mp hr₁
  exact ⟨rfl, rfl⟩

/-- When the request in progress is live, the connection's hook keeps it so. -/
theorem cltUpstreamConnFini_freedBut (hr : FreedBut r.req stale r)
    (h : cltUpstreamConnFini cb r s = some (r', s')) : FreedBut r.req stale r' := by
  obtain ⟨hrequests, hstale⟩ := cltUpstreamConnFini_unhooked h
  exact hr.unhooked.congr hrequests hstale

/-- When the request in progress was freed, the connection's hook uses it. -/
theorem cltUpstreamConnFini_stale {q : ReqPtr} (hr : FreedBut none stale r)
    (hreq : r.req = some q) (h : cltUpstreamConnFini cb r s = some (r', s')) :
    FreedBut none (stale + 1) r' := by
  obtain ⟨hrequests, hstale⟩ := cltUpstreamConnFini_unhooked h
  rw [unhooked_of_some hreq] at hrequests hstale
  exact (hr.unset_freed (by simp)).congr hrequests hstale

theorem evhtpRequestFree_freedBut {q : ReqPtr} (hr : FreedBut (some q) stale r)
    (hreq : r.req = some q) (h : evhtpRequestFree cb q r s = some (r', s')) :
    FreedBut none stale r' := by
  by_cases hq : r.hooked q = true
  · simp only [evhtpRequestFree, hq, if_true, cltUpstreamFini, hreq, Option.bind_eq_bind,
      Option.bind_some, Option.bind_eq_some_iff] at h
    obtain ⟨⟨r₂, s₂⟩, ⟨r₁, hr₁, hdestroy⟩, h⟩ := h
    cases h
    obtain ⟨-, rfl⟩ := cltConnTimeoutStop_eq_some.mp hr₁
    simp only [cltReqDestroy, Option.bind_eq_bind, Option.bind_eq_some_iff] at hdestroy
    obtain ⟨s₃, -, hdestroy⟩ := hdestroy
    cases hdestroy
    have hunset : FreedBut (some q) stale { evhtpUnsetAllHooks q r with
        evTimeout := some ⟨false⟩, req := none, uri := none } :=
      hr.unset.congr rfl rfl
    exact hunset.release
  · rw [evhtpRequestFree_of_not_hooked (by simpa using hq)] at h
    cases h
    exact hr.release

section Connection

variable {con : EvhtpConnection} {order : FreeOrder}

/-- Freeing the connection frees its request once, when the connection's hook
does not find a request that was freed without its hook. -/
theorem evhtpConnectionFree_freedBut (hcon : r.con = some con) (hfini : con.finiHook = true)
    (hrequest : con.request = r.req)
    (hhook : order = .requestFirst → ∀ q, r.req = some q → r.hooked q = true)
    (hr : FreedBut r.req stale r) (h : evhtpConnectionFree cb order r s = some (r', s')) :
    FreedBut none stale r' := by
  cases order with
  | requestFirst =>
      simp only [evhtpConnectionFree, hcon, evhtpFreeConnRequest, evhtpConnFiniHook,
        hfini, hrequest, if_true, Option.bind_eq_bind, Option.bind_eq_some_iff] at h
      obtain ⟨⟨r₁, s₁⟩, h₁, h⟩ := h
      have hfreed : r₁.req = none ∧ FreedBut none stale r₁ := by
        cases hreq : r.req with
        | none =>
            simp only [hreq] at h₁
            cases h₁
            exact ⟨hreq, hreq ▸ hr⟩
        | some q =>
            simp only [hreq] at h₁
            obtain ⟨-, -, hnone⟩ := evhtpRequestFree_of_hooked (hhook rfl q hreq) h₁
            exact ⟨hnone, evhtpRequestFree_freedBut (hreq ▸ hr) hreq h₁⟩
      obtain ⟨hnone, hfreed⟩ := hfreed
      have hfini := cltUpstreamConnFini_freedBut (hnone ▸ hfreed) h
      rw [hnone] at hfini
      exact hfini
  | connectionFirst =>
      simp only [evhtpConnectionFree, hcon, evhtpFreeConnRequest, evhtpConnFiniHook,
        hfini, hrequest, if_true, Option.bind_eq_bind, Option.bind_eq_some_iff] at h
      obtain ⟨⟨r₁, s₁⟩, h₁, h⟩ := h
      have hfini := cltUpstreamConnFini_freedBut hr h₁
      cases hreq : r.req with
      | none =>
          simp only [hreq] at h
          cases h
          rw [hreq] at hfini
          exact hfini
      | some q =>
          simp only [hreq] at h
          rw [evhtpRequestFree_of_not_hooked (cltUpstreamConnFini_hooked hreq h₁)] at h
          cases h
          rw [hreq] at hfini
          exact hfini.release

/-- A request freed without its hook is still in progress for the connection's
hook, which uses it. -/
theorem evhtpConnectionFree_stale {q : ReqPtr} (hcon : r.con = some con)
    (hfini : con.finiHook = true) (hrequest : con.request = r.req) (hreq : r.req = some q)
    (hhook : r.hooked q = false) (hr : FreedBut r.req stale r)
    (h : evhtpConnectionFree cb .requestFirst r s = some (r', s')) :
    FreedBut none (stale + 1) r' := by
  rw [hreq] at hr hrequest
  simp only [evhtpConnectionFree, hcon, evhtpFreeConnRequest, evhtpConnFiniHook,
    hfini, hrequest, if_true, Option.bind_eq_bind, Option.bind_eq_some_iff] at h
  obtain ⟨⟨r₁, s₁⟩, h₁, h⟩ := h
  rw [evhtpRequestFree_of_not_hooked hhook] at h₁
  cases h₁
  exact cltUpstreamConnFini_stale hr.release hreq h

end Connection

theorem cltReqCb_freedBut {q : ReqPtr} {status : ℤ} (hreq : r.req = some q)
    (hr : FreedBut (some q) stale r) (h : cltReqCb cb q status r s = some (r', s')) :
    FreedBut none stale r' := by
  simp only [cltReqCb, hr.use_live, Option.bind_eq_bind, Option.bind_eq_some_iff] at h
  obtain ⟨s₁, -, r₁, hr₁, p, hp, con, -, h⟩ := h
  obtain ⟨-, rfl⟩ := cltConnTimeoutStop_eq_some.mp hr₁
  obtain rfl : q = p := Option.some.inj (hreq.symm.trans hp)
  have hstopped : FreedBut (some q) stale { r with evTimeout := some ⟨false⟩ } :=
    hr.congr rfl rfl
  refine cltReqDestroy_freedBut (some q) ?_ ?_ h
  · exact (unset_req q _).trans hp
  · exact hstopped.unset.congr rfl rfl

end Callback

theorem cltUpstreamData_freedBut {hook : DataHook} {stale : ℕ} {r r' : ClientReq}
    (hr : FreedBut r.req stale r) (h : cltUpstreamData hook r = some r') :
    FreedBut r.req stale r' := by
  cases hook <;>
    simp only [cltUpstreamData, Option.bind_eq_bind, Option.bind_eq_some_iff,
      cltConnTimeoutRearm_eq_some] at h
  · obtain ⟨-, rfl⟩ := h
    exact hr.congr rfl rfl
  · obtain ⟨q, hq, -, rfl⟩ := h
    rw [hq] at hr ⊢
    exact hr.congr (by simp) (by rw [hr.use_live])
  · obtain ⟨q, hq, -, rfl⟩ := h
    rw [hq] at hr ⊢
    exact hr.congr (by simp) (by rw [hr.use_live])
  · obtain ⟨-, rfl⟩ := h
    exact hr.congr rfl rfl

/-- Only a successful `clt_req_create` makes a request, and it becomes the one in
progress. -/
theorem cltReqCreate_freedBut {strdupOk newOk : Bool} {uri : Option String}
    {keepalive rc : ℤ} {stale : ℕ} {r r' : ClientReq} (hr : FreedBut r.req stale r)
    (h : cltReqCreate strdupOk newOk uri keepalive r = some (r', rc)) :
    FreedBut r'.req stale r' := by
  cases hreq : r.req with
  | some q =>
      simp only [cltReqCreate, hreq] at h
      cases h
      rw [hreq] at hr
      exact hr.congr rfl rfl
  | none =>
      rw [hreq] at hr
      cases hcon : r.con with
      | none =>
          simp only [cltReqCreate, hreq, hcon] at h
          cases h
          exact hr.congr rfl rfl
      | some con =>
          cases uri with
          | none => simp [cltReqCreate, hreq, hcon] at h
          | some uri =>
              simp only [cltReqCreate, hreq, hcon] at h
              split at h
              · cases h
                exact hr.congr rfl rfl
              · split at h
                · cases h
                  exact hr.congr rfl rfl
                · cases h
                  exact (hr.issue rfl).congr rfl rfl

/-- Is this the call of `clt_conn_destroy`? -/
def ReqEvent.isDestroy : ReqEvent → Bool
  | .destroy _ => true
  | _ => false

/-- Every call but `clt_conn_destroy` frees each request at most once, by the time
it is no longer in progress, and uses none that was freed. -/
theorem ReqCall.freedBut {e : ReqEvent} {r r' : ClientReq} {stale : ℕ} (h : ReqCall e r r')
    (he : e.isDestroy = false) (hlinked : Linked r) (hr : FreedBut r.req stale r) :
    FreedBut r'.req stale r' := by
  cases h with
  | create h => exact cltReqCreate_freedBut hr h
  | data hq h =>
      rw [(cltUpstreamData_spec h).2.1]
      exact cltUpstreamData_freedBut hr h
  | error hq h =>
      obtain ⟨-, rfl⟩ := cltUpstreamError_spec h
      exact hr.congr rfl rfl
  | complete hcon hq h =>
      have hreq := (hlinked.request _ hcon).symm.trans hq
      obtain ⟨s₁, con', -, -, -, -, hreq', -⟩ := cltReqCb_spec h
      rw [hreq']
      exact cltReqCb_freedBut hreq (hreq ▸ hr) h
  | timeout => exact hr.congr rfl rfl
  | close hopen h =>
      obtain ⟨con, hcon⟩ := Option.ne_none_iff_exists'.mp hopen
      have hfini := hlinked.finiHook con hcon
      have hrequest := hlinked.request con hcon
      rw [(evhtpConnectionFree_spec hcon hfini hrequest h).2.1]
      exact evhtpConnectionFree_freedBut hcon hfini hrequest (fun _ => hlinked.hooked) hr h
  | destroy => cases he

/-- `clt_conn_destroy` frees the request in progress, and uses it once more when
libevhtp frees it before it calls the connection's hook. -/
theorem cltConnDestroy_freedBut {σ : Type} {cb : CltNotifyCb σ} {order : FreeOrder}
    {r r' : ClientReq} {s s' : σ} {stale : ℕ} (hlinked : Linked r)
    (hr : FreedBut r.req stale r) (h : cltConnDestroy cb order r s = some (r', s')) :
    FreedBut none
      (stale + if order = .requestFirst ∧ r.req ≠ none then 1 else 0) r' := by
  obtain ⟨r₁, ev, hfree, -, rfl⟩ := cltConnDestroy_eq_some hlinked h
  have hunhooked : FreedBut r.unhooked.req stale r.unhooked := by
    rw [unhooked_req]
    exact hr.unhooked
  refine FreedBut.congr (r := r₁) ?_ rfl rfl
  by_cases hopen : r.con = none
  · have hreq : r.req = none := hlinked.closed hopen
    rw [unhooked_of_idle hreq] at hfree hunhooked
    simp only [evhtpConnectionFree, hopen] at hfree
    cases hfree
    rw [if_neg (by simp [hreq]), ← hreq]
    exact hunhooked
  · obtain ⟨con, hcon⟩ := Option.ne_none_iff_exists'.mp hopen
    have hfini := hlinked.finiHook con hcon
    have hrequest : con.request = r.unhooked.req := by
      rw [unhooked_req]
      exact hlinked.request con hcon
    have hcon' : r.unhooked.con = some con := (unhooked_con r).trans hcon
    by_cases hstale : order = .requestFirst ∧ r.req ≠ none
    · rw [if_pos hstale]
      obtain ⟨rfl, hflight⟩ := hstale
      obtain ⟨q, hreq⟩ := Option.ne_none_iff_exists'.mp hflight
      have hhook : r.unhooked.hooked q = false := by
        rw [unhooked_of_some hreq]
        exact hooked_unset q r
      exact evhtpConnectionFree_stale hcon' hfini hrequest ((unhooked_req r).trans hreq)
        hhook hunhooked hfree
    · rw [if_neg hstale, Nat.add_zero]
      refine evhtpConnectionFree_freedBut hcon' hfini hrequest ?_ hunhooked hfree
      intro horder q hq
      rw [unhooked_req] at hq
      exact absurd ⟨horder, by simp [hq]⟩ hstale

/-! ## Runs -/

/-- The calls `es`, none of them `clt_conn_destroy`, made on a new client request. -/
def LiveRun (es : List ReqEvent) (r : ClientReq) : Prop :=
  (∀ e ∈ es, e.isDestroy = false) ∧ ∃ r₀, FreshReq r₀ ∧ ReqCalls es r₀ r

theorem FreshReq.freedBut {r : ClientReq} (h : FreshReq r) :
    Linked r ∧ FreedBut r.req 0 r := by
  obtain ⟨ok, addr, port, rfl⟩ := h.eq_new
  exact ⟨newClientReq_linked ok addr port, by simp [newClientReq], by simp [newClientReq], rfl⟩

theorem ReqCalls.freedBut {es : List ReqEvent} {r r' : ClientReq} (h : ReqCalls es r r')
    (hes : ∀ e ∈ es, e.isDestroy = false) (hlinked : Linked r) (hr : FreedBut r.req 0 r) :
    Linked r' ∧ FreedBut r'.req 0 r' := by
  induction h with
  | nil => exact ⟨hlinked, hr⟩
  | cons hcall _ ih =>
      apply ih fun e he => hes e (List.mem_cons_of_mem _ he)
      · exact hcall.linked hlinked
      · exact hcall.freedBut (hes _ List.mem_cons_self) hlinked hr

theorem LiveRun.freedBut {es : List ReqEvent} {r : ClientReq} (h : LiveRun es r) :
    Linked r ∧ FreedBut r.req 0 r := by
  obtain ⟨hes, r₀, hfresh, hcalls⟩ := h
  obtain ⟨hlinked, hr⟩ := hfresh.freedBut
  exact hcalls.freedBut hes hlinked hr

/-- Along every run before `clt_conn_destroy` no request is freed twice and none is
used after it was freed.  After `clt_conn_destroy` every request was freed exactly
once, and none was used after that if and only if no request was in progress or
libevhtp frees it after it called the connection's hook. -/
theorem requests_freed_once_iff {es : List ReqEvent} {r : ClientReq} (h : LiveRun es r) :
    ((∀ x ∈ r.requests, x.freed ≤ 1) ∧ r.staleUses = 0) ∧
      ∀ order r', ReqCall (.destroy order) r r' →
        ((∀ x ∈ r'.requests, x.freed = 1) ∧ r'.staleUses = 0 ↔
          (order = .requestFirst → r.req = none)) := by
  obtain ⟨hlinked, hr⟩ := h.freedBut
  refine ⟨⟨?_, hr.stale⟩, ?_⟩
  · intro x hx
    obtain ⟨q, hq⟩ := List.mem_iff_getElem?.mp hx
    rw [hr.freed q x hq]
    split
    · exact Nat.zero_le 1
    · exact le_refl 1
  · intro order r' hcall
    have hr' : FreedBut none
        (0 + if order = .requestFirst ∧ r.req ≠ none then 1 else 0) r' := by
      cases hcall with
      | destroy h => exact cltConnDestroy_freedBut hlinked hr h
    have hall : ∀ x ∈ r'.requests, x.freed = 1 := by
      intro x hx
      obtain ⟨q, hq⟩ := List.mem_iff_getElem?.mp hx
      simpa using hr'.freed q x hq
    rw [hr'.stale]
    by_cases hstale : order = .requestFirst ∧ r.req ≠ none
    · rw [if_pos hstale]
      exact iff_of_false (by simp) fun hguard => hstale.2 (hguard hstale.1)
    · rw [if_neg hstale]
      exact iff_of_true ⟨hall, rfl⟩ fun horder => by_contra fun hreq => hstale ⟨horder, hreq⟩

theorem liveRun_one_request :
    ∃ r, LiveRun [.create true true (some "/") 1] r ∧ r.req = some 0 ∧
      ∀ order, ∃ r', ReqCall (.destroy order) r r' ∧
        r'.staleUses = if order = .requestFirst then 1 else 0 := by
  have hfresh : ∃ r₀, FreshReq r₀ ∧ ∃ r, ReqCall (.create true true (some "/") 1) r₀ r ∧
      r.req = some 0 ∧ ∀ order, ∃ r', ReqCall (.destroy order) r r' ∧
        r'.staleUses = if order = .requestFirst then 1 else 0 := by
    refine ⟨_, ⟨allocAll, "10.0.0.1", "10.0.0.1", 8080, _, rfl⟩, _, ReqCall.create rfl, rfl, ?_⟩
    intro order
    cases order with
    | requestFirst =>
        exact ⟨_, @ReqCall.destroy Unit (fun _ _ s => some s) () () .requestFirst _ _ rfl, rfl⟩
    | connectionFirst =>
        exact ⟨_, @ReqCall.destroy Unit (fun _ _ s => some s) () () .connectionFirst _ _ rfl, rfl⟩
  obtain ⟨r₀, hfresh, r, hcreate, hreq, hdestroy⟩ := hfresh
  refine ⟨r, ⟨?_, r₀, hfresh, hcreate.calls⟩, hreq, hdestroy⟩
  intro e he
  rw [List.mem_singleton.mp he]
  rfl

/-- The owner destroys a connection while its request is in progress, and
libevhtp frees the request first: the request is used after it was freed. -/
theorem request_used_after_free :
    ∃ r r', LiveRun [.create true true (some "/") 1] r ∧
      ReqCall (.destroy .requestFirst) r r' ∧
      ¬ ((∀ x ∈ r'.requests, x.freed = 1) ∧ r'.staleUses = 0) := by
  obtain ⟨r, hlive, -, hdestroy⟩ := liveRun_one_request
  obtain ⟨r', hcall, hstale⟩ := hdestroy .requestFirst
  exact ⟨r, r', hlive, hcall, by simp [hstale]⟩

/-- In the other order the request is freed once and not used any more. -/
theorem request_freed_once_connection_first :
    ∃ r r', LiveRun [.create true true (some "/") 1] r ∧
      ReqCall (.destroy .connectionFirst) r r' ∧
      (∀ x ∈ r'.requests, x.freed = 1) ∧ r'.staleUses = 0 := by
  obtain ⟨r, hlive, -, hdestroy⟩ := liveRun_one_request
  obtain ⟨r', hcall, -⟩ := hdestroy .connectionFirst
  have hiff := (requests_freed_once_iff hlive).2 .connectionFirst r' hcall
  exact ⟨r, r', hlive, hcall, hiff.mpr (by simp)⟩

/-! ## The connections of a manager -/

/-- Every call frees each request at most once, by the time it is no longer in
progress. -/
theorem ReqCall.exists_freedBut {e : ReqEvent} {r r' : ClientReq} (h : ReqCall e r r')
    (hlinked : Linked r) (hr : ∃ stale, FreedBut r.req stale r) :
    ∃ stale, FreedBut r'.req stale r' := by
  obtain ⟨stale, hr⟩ := hr
  by_cases he : e.isDestroy = true
  · cases h with
    | @destroy σ cb s s' order r r' h =>
        have hreq : r'.req = none := by
          by_cases hcon : r.con = none
          · exact (cltConnDestroy_closed hlinked hcon h).2.2.1
          · obtain ⟨con, hcon⟩ := Option.ne_none_iff_exists'.mp hcon
            exact (cltConnDestroy_open hlinked hcon h).2.2.1
        rw [hreq]
        exact ⟨_, cltConnDestroy_freedBut hlinked hr h⟩
    | _ => cases he
  · exact ⟨stale, h.freedBut (by simpa using he) hlinked hr⟩

/-- In every run of a manager no request is ever freed twice, and each that is no
longer in progress was freed once. -/
theorem manager_requests_freed_once {cfg : MgrConfig} {m : CltMgr}
    (h : (cltMgrSystem cfg).Reachable m) :
    ∀ c ∈ m.mgrConnList ++ m.freedConns, ∀ x ∈ c.req.requests,
      x.freed ≤ 1 ∧ (c.req.req = none → x.freed = 1) := by
  intro c hc x hx
  have hfreed : ∃ stale, FreedBut c.req.req stale c.req := by
    refine (request_invariant (P := fun r => ∃ stale, FreedBut r.req stale r) ?_ ?_ ?_ h c hc).2
    · exact fun r hr => ⟨0, hr.freedBut.2⟩
    · rintro strdupOk newOk uri keepalive rc r r' - - ⟨stale, hr⟩ hcreate
      exact ⟨stale, cltReqCreate_freedBut hr hcreate⟩
    · intro e r r' _ hlinked hr hcall
      exact hcall.exists_freedBut hlinked hr
  obtain ⟨stale, hfreed⟩ := hfreed
  obtain ⟨q, hq⟩ := List.mem_iff_getElem?.mp hx
  rw [hfreed.freed q x hq]
  constructor
  · split
    · exact Nat.zero_le 1
    · exact le_refl 1
  · intro hidle
    simp [hidle]

end EvhtpHttp.Client

import EvhtpHttp.Client.BurstLimit
import EvhtpHttp.Client.Creation

/-!
# Attempts to open a connection

Which calls of `clt_mgr_conn_try_create` one event of a manager makes, and in
which state of the manager each is made.  For the events that end a connection
the functions of `clt.c` are run with a callback that keeps a record.
-/

namespace EvhtpHttp.Client

open EvhtpHttp.Support

/-! ## Callbacks that do more -/

/-- The end of `clt_conn_destroy`: the timer is deleted and freed. -/
def connFreeTimeout {σ : Type} (x : ClientReq × σ) : Option (ClientReq × σ) :=
  match x.1.evTimeout with
  | none => some x
  | some _ =>
    (eventDel x.1.evTimeout).bind fun ev =>
      (eventFree ev).bind fun ev => some ({ x.1 with evTimeout := ev }, x.2)

section Naturality

variable {σ τ : Type} (f : σ → τ) {cb' : CltNotifyCb σ} {cb : CltNotifyCb τ}

/-- A result for a richer owner, as the plain owner sees it. -/
def forget (x : Option (ClientReq × σ)) : Option (ClientReq × τ) :=
  x.map fun y => (y.1, f y.2)

/-- The callback `cb'` does to the richer owner what `cb` does to the plain one. -/
def Extending (cb' : CltNotifyCb σ) (cb : CltNotifyCb τ) : Prop :=
  ∀ what data s, (cb' what data s).map f = cb what data (f s)

variable {f}

theorem forget_bind {α : Type} {x : Option α} {g : α → Option (ClientReq × σ)}
    {g' : α → Option (ClientReq × τ)} (h : ∀ a, forget f (g a) = g' a) :
    forget f (x.bind g) = x.bind g' := by
  cases x with
  | none => rfl
  | some a => exact h a

theorem forget_bind_forget {x : Option (ClientReq × σ)}
    {g : ClientReq × σ → Option (ClientReq × σ)} {g' : ClientReq × τ → Option (ClientReq × τ)}
    (h : ∀ r s, forget f (g (r, s)) = g' (r, f s)) :
    forget f (x.bind g) = (forget f x).bind g' := by
  cases x with
  | none => rfl
  | some y => exact h y.1 y.2

variable (hcb : Extending f cb' cb)

include hcb

theorem forget_bind_notify {what : CltNotifyCmd} {data : ℤ} {s : σ}
    {g : σ → Option (ClientReq × σ)} {g' : τ → Option (ClientReq × τ)}
    (h : ∀ s, forget f (g s) = g' (f s)) :
    forget f ((cb' what data s).bind g) = (cb what data (f s)).bind g' := by
  rw [← hcb what data s]
  cases cb' what data s with
  | none => rfl
  | some s' => exact h s'

theorem forget_cltReqDestroy (r : ClientReq) (s : σ) :
    forget f (cltReqDestroy cb' r s) = cltReqDestroy cb r (f s) :=
  forget_bind_notify hcb fun _ => rfl

theorem forget_cltUpstreamConnFini (r : ClientReq) (s : σ) :
    forget f (cltUpstreamConnFini cb' r s) = cltUpstreamConnFini cb r (f s) :=
  forget_bind fun _ => forget_bind_notify hcb fun _ => rfl

theorem forget_cltUpstreamError (errtype : ℕ) (r : ClientReq) (s : σ) :
    forget f (cltUpstreamError cb' errtype r s) = cltUpstreamError cb errtype r (f s) := by
  have hstop : ∀ s, forget f ((cltConnTimeoutStop r).bind fun r => some (r, s)) =
      (cltConnTimeoutStop r).bind fun r => some (r, f s) := fun _ => forget_bind fun _ => rfl
  unfold cltUpstreamError
  split
  · exact forget_bind_notify hcb hstop
  · exact forget_bind_notify hcb hstop

theorem forget_cltUpstreamFini (r : ClientReq) (s : σ) :
    forget f (cltUpstreamFini cb' r s) = cltUpstreamFini cb r (f s) :=
  forget_bind fun _ => forget_bind fun _ => forget_cltReqDestroy hcb _ _

theorem forget_evhtpRequestFree (q : ReqPtr) (r : ClientReq) (s : σ) :
    forget f (evhtpRequestFree cb' q r s) = evhtpRequestFree cb q r (f s) := by
  unfold evhtpRequestFree
  split
  · rw [← forget_cltUpstreamFini hcb]
    exact forget_bind_forget fun _ _ => rfl
  · rfl

theorem forget_evhtpFreeConnRequest (con : EvhtpConnection) (r : ClientReq) (s : σ) :
    forget f (evhtpFreeConnRequest cb' con r s) = evhtpFreeConnRequest cb con r (f s) := by
  unfold evhtpFreeConnRequest
  split
  · exact forget_evhtpRequestFree hcb _ _ _
  · rfl

theorem forget_evhtpConnFiniHook (con : EvhtpConnection) (r : ClientReq) (s : σ) :
    forget f (evhtpConnFiniHook cb' con r s) = evhtpConnFiniHook cb con r (f s) := by
  unfold evhtpConnFiniHook
  split
  · exact forget_cltUpstreamConnFini hcb _ _
  · rfl

theorem forget_evhtpConnectionFree (order : FreeOrder) (r : ClientReq) (s : σ) :
    forget f (evhtpConnectionFree cb' order r s) = evhtpConnectionFree cb order r (f s) := by
  unfold evhtpConnectionFree
  split
  · rfl
  · split
    · rw [← forget_evhtpFreeConnRequest hcb]
      exact forget_bind_forget fun _ _ => forget_evhtpConnFiniHook hcb _ _ _
    · rw [← forget_evhtpConnFiniHook hcb]
      exact forget_bind_forget fun _ _ => forget_evhtpFreeConnRequest hcb _ _ _

theorem forget_connFreeTimeout (order : FreeOrder) (r : ClientReq) (s : σ) :
    forget f ((evhtpConnectionFree cb' order r s).bind connFreeTimeout) =
      (evhtpConnectionFree cb order r (f s)).bind connFreeTimeout := by
  rw [← forget_evhtpConnectionFree hcb]
  refine forget_bind_forget fun r s => ?_
  unfold connFreeTimeout
  cases r.evTimeout with
  | none => rfl
  | some ev => rfl

theorem forget_requestFree_connFree (q : ReqPtr) (order : FreeOrder) (r : ClientReq) (s : σ) :
    forget f ((evhtpRequestFree cb' q r s).bind fun x =>
        (evhtpConnectionFree cb' order x.1 x.2).bind connFreeTimeout) =
      (evhtpRequestFree cb q r (f s)).bind fun x =>
        (evhtpConnectionFree cb order x.1 x.2).bind connFreeTimeout := by
  rw [← forget_evhtpRequestFree hcb]
  exact forget_bind_forget fun _ _ => forget_connFreeTimeout hcb _ _ _

theorem forget_cltConnDestroy (order : FreeOrder) (r : ClientReq) (s : σ) :
    forget f (cltConnDestroy cb' order r s) = cltConnDestroy cb order r (f s) := by
  cases hreq : r.req with
  | none =>
      simp only [cltConnDestroy, hreq]
      exact forget_connFreeTimeout hcb _ _ _
  | some q =>
      simp only [cltConnDestroy, hreq, unset_con, unset_req]
      cases r.con with
      | none => exact forget_requestFree_connFree hcb _ _ _ _
      | some con =>
          by_cases hsame : con.request = some q
          · simp only [hsame, if_true]
            exact forget_connFreeTimeout hcb _ _ _
          · simp only [hsame, if_false]
            exact forget_requestFree_connFree hcb _ _ _ _

theorem forget_evhtpErrorHook (cause : CloseCause) (r : ClientReq) (s : σ) :
    forget f (evhtpErrorHook cb' cause r s) = evhtpErrorHook cb cause r (f s) := by
  unfold evhtpErrorHook
  split
  · exact forget_cltUpstreamError hcb _ _ _
  · rfl

end Naturality

theorem exists_of_forget {σ τ : Type} {f : σ → τ} {x : Option (ClientReq × σ)}
    {r : ClientReq} {t : τ} (h : forget f x = some (r, t)) : ∃ s, x = some (r, s) ∧ f s = t := by
  obtain ⟨⟨r', s⟩, hx, heq⟩ := Option.map_eq_some_iff.mp h
  obtain ⟨rfl, rfl⟩ := Prod.mk.inj heq
  exact ⟨s, hx, rfl⟩

/-- The callback `cb` for owners with a property that it keeps. -/
def restricted {σ : Type} {cb : CltNotifyCb σ} {P : σ → Prop}
    (hP : ∀ what data s s', P s → cb what data s = some s' → P s') : CltNotifyCb {s // P s} :=
  fun what data s => (cb what data s.1).pmap Subtype.mk fun s' h => hP what data s.1 s' s.2 h

theorem restricted_extending {σ : Type} {cb : CltNotifyCb σ} {P : σ → Prop}
    (hP : ∀ what data s s', P s → cb what data s = some s' → P s') :
    Extending Subtype.val (restricted hP) cb := by
  intro what data s
  simp [restricted, Option.map_pmap]

theorem prop_of_forget {σ : Type} {P : σ → Prop} {x : Option (ClientReq × {s // P s})}
    {r : ClientReq} {s : σ} (h : forget Subtype.val x = some (r, s)) : P s := by
  obtain ⟨t, -, rfl⟩ := exists_of_forget h
  exact t.2

/-! ## The record -/

section Record

variable {σ β : Type}

/-- The callback `cb` with a record, to which every notification adds an entry of
its own or none. -/
def recording (cb : CltNotifyCb σ) (note : CltNotifyCmd → ℤ → σ → List β) :
    CltNotifyCb (σ × List β) :=
  fun what data (s, log) => (cb what data s).map fun s' => (s', log ++ note what data s)

variable {cb : CltNotifyCb σ} {note : CltNotifyCmd → ℤ → σ → List β}

theorem recording_extending (cb : CltNotifyCb σ) (note : CltNotifyCmd → ℤ → σ → List β) :
    Extending Prod.fst (recording cb note) cb := by
  rintro what data ⟨s, log⟩
  simp [recording, Function.comp_def]

theorem recording_eq_some {what : CltNotifyCmd} {data : ℤ} {s s' : σ} {log log' : List β} :
    recording cb note what data (s, log) = some (s', log') ↔
      cb what data s = some s' ∧ log' = log ++ note what data s := by
  simp [recording, eq_comm]

end Record

/-- The manager in which `clt_mgr_conn_notify_cb` tries to replace a connection. -/
def CltMgr.closing (m : CltMgr) : CltMgr :=
  { m with stats := countClosing m.stats }

/-- The one notification that makes the manager call `clt_mgr_conn_try_create`. -/
def tryNote (ok : AllocOk) : CltNotifyCmd → ℤ → MgrCall → List (AllocOk × CltMgr)
  | .connClosing, _, (m, _) => [(ok, m.closing)]
  | _, _, _ => []

/-- `clt_mgr_conn_notify_cb` with a record of the attempts to open a connection. -/
def tryRecording (ok : AllocOk) : CltNotifyCb (MgrCall × List (AllocOk × CltMgr)) :=
  recording (cltMgrConnNotifyCb ok) (tryNote ok)

/-- The attempts while libevhtp frees the connection `c`. -/
def closeAttempts (cause : CloseCause) (order : FreeOrder) (ok : AllocOk) (m : CltMgr)
    (c : CltMgrConn) : List (AllocOk × CltMgr) :=
  ((evhtpErrorHook (tryRecording ok) cause c.req ((m, c.toConnCtl), [])).bind fun x =>
    evhtpConnectionFree (tryRecording ok) order x.1 x.2).elim [] fun x => x.2.2

/-- The attempts while the manager destroys the connection `c`. -/
def destroyAttempts (order : FreeOrder) (ok : AllocOk) (m : CltMgr) (c : CltMgrConn) :
    List (AllocOk × CltMgr) :=
  (cltConnDestroy (tryRecording ok) order c.req ((m, { c.toConnCtl with
    evNewHttpReq := some ⟨false⟩, evConnDestroy := some ⟨false⟩ }), [])).elim [] fun x => x.2.2

/-- The attempts of the connection loop of `clt_mgr_timer_state_running`, from the
loop variables `i` and `j` on. -/
def burstAttempts (ok : ℕ → AllocOk) : ℕ → ℤ → ℕ → CltMgr → List (AllocOk × CltMgr)
  | 0, _, _, _ => []
  | fuel + 1, i, j, m =>
    if i < m.cfg.targetNconn ∧ (j : ℤ) ≤ m.cfg.burstConn then
      (ok j, m) :: (cltMgrConnTryCreate (ok j) m).elim [] fun x =>
        if x.2 < 0 then [] else burstAttempts ok fuel (i + 1) (j + 1) x.1
    else []

/-- The calls of `clt_mgr_conn_try_create` in one event: the outcomes of the
allocations and the manager at each call. -/
def attempts : LoopEvent → CltMgr → List (AllocOk × CltMgr)
  | .timer ok, m =>
    if m.mgrState = .running then
      burstAttempts ok (m.cfg.burstConn + 1).toNat m.stats.nconn 0
        ({ m with tTimerev := ⟨false⟩ } : CltMgr).ticked
    else []
  | .connDestroy id order ok, m =>
    (m.findConn id).elim [] fun c => destroyAttempts order ok m c
  | .close id cause order ok, m =>
    (m.findConn id).elim [] fun c => closeAttempts cause order ok m c
  | _, _ => []

/-! ## The end of a connection -/

/-- The manager `m₁` differs from `m` in nothing that an attempt to open a
connection looks at, apart from the pacer. -/
structure Kept (m m₁ : CltMgr) : Prop where
  mgrState : m₁.mgrState = m.mgrState
  cfg : m₁.cfg = m.cfg
  conns : m₁.mgrConnList = m.mgrConnList
  freed : m₁.freedConns = m.freedConns
  nextId : m₁.nextId = m.nextId
  nconn : m₁.stats.nconn = m.stats.nconn
  connCount : m₁.stats.connCount = m.stats.connCount

theorem Kept.refl (m : CltMgr) : Kept m m :=
  ⟨rfl, rfl, rfl, rfl, rfl, rfl, rfl⟩

theorem Kept.trans {m m₁ m₂ : CltMgr} (h : Kept m m₁) (h' : Kept m₁ m₂) : Kept m m₂ where
  mgrState := h'.mgrState.trans h.mgrState
  cfg := h'.cfg.trans h.cfg
  conns := h'.conns.trans h.conns
  freed := h'.freed.trans h.freed
  nextId := h'.nextId.trans h.nextId
  nconn := h'.nconn.trans h.nconn
  connCount := h'.connCount.trans h.connCount

theorem Kept.closing (m : CltMgr) : Kept m m.closing :=
  ⟨rfl, rfl, rfl, rfl, rfl, rfl, rfl⟩

theorem Kept.outcome (o : Outcome) (m : CltMgr) : Kept m { m with stats := o.count m.stats } := by
  cases o <;> exact ⟨rfl, rfl, rfl, rfl, rfl, rfl, rfl⟩

section Ends

variable {m m' : CltMgr} {c c' : CltMgrConn} {order : FreeOrder} {ok : AllocOk}

theorem tryRecording_quiet {what : CltNotifyCmd} {data : ℤ} {s s' : MgrCall}
    {log log' : List (AllocOk × CltMgr)} (hwhat : what ≠ .connClosing)
    (h : tryRecording ok what data (s, log) = some (s', log')) :
    cltMgrConnNotifyCb ok what data s = some s' ∧ log' = log := by
  obtain ⟨hcb, hlog⟩ := recording_eq_some.mp h
  have hnone : tryNote ok what data s = [] := by
    unfold tryNote
    split
    · exact absurd rfl hwhat
    · rfl
  exact ⟨hcb, by rw [hlog, hnone, List.append_nil]⟩

/-- Freeing an open connection makes one attempt, in a manager that is as before
apart from its pacer and its statistics of requests. -/
theorem evhtpConnectionFree_record {r r' : ClientReq} {s : MgrCall} {ctl' : ConnCtl}
    (hlinked : Linked r) (hopen : r.con ≠ none)
    (hqueued : isPending s.2.evNewHttpReq = true → s.2.pendingHttpReq = true)
    (h : evhtpConnectionFree (cltMgrConnNotifyCb ok) order r s = some (r', m', ctl')) :
    ∃ m₁ rc, evhtpConnectionFree (tryRecording ok) order r (s, []) =
        some (r', (m', ctl'), [(ok, m₁)]) ∧
      Kept s.1 m₁ ∧ cltMgrConnTryCreate ok m₁ = some (m', rc) := by
  obtain ⟨con, hcon⟩ := Option.ne_none_iff_exists'.mp hopen
  rw [← forget_evhtpConnectionFree (recording_extending _ (tryNote ok))
    order r (s, [])] at h
  obtain ⟨⟨-, log⟩, hrec, rfl⟩ := exists_of_forget h
  obtain ⟨-, -, -, ⟨⟨m₂, ctl₂⟩, log₂⟩, hclosing, horigin⟩ := evhtpConnectionFree_spec hcon
    (hlinked.finiHook con hcon) (hlinked.request con hcon) hrec
  have hbefore : log₂ = [] ∧ Kept s.1 m₂ ∧
      (isPending ctl₂.evNewHttpReq = true → ctl₂.pendingHttpReq = true) := by
    rcases horigin with heq | ⟨-, hdestroying⟩
    · obtain ⟨rfl, rfl⟩ := Prod.mk.inj heq
      exact ⟨rfl, Kept.refl m₂, hqueued⟩
    · obtain ⟨hnotify, hlog⟩ := tryRecording_quiet (by simp) hdestroying
      refine ⟨hlog, ?_⟩
      rcases notify_reqDestroying hnotify with ⟨-, -, -, rfl, rfl⟩ | ⟨rfl, rfl⟩
      · exact ⟨⟨rfl, rfl, rfl, rfl, rfl, rfl, rfl⟩, fun _ => rfl⟩
      · exact ⟨Kept.refl _, hqueued⟩
  obtain ⟨rfl, hkept, hqueued₂⟩ := hbefore
  obtain ⟨hnotify, rfl⟩ := recording_eq_some.mp hclosing
  obtain ⟨-, rc, htry⟩ := notify_connClosing hqueued₂ hnotify
  exact ⟨m₂.closing, rc, hrec, hkept.trans (Kept.closing m₂), htry⟩

theorem evhtpErrorHook_record {cause : CloseCause} {r r' : ClientReq} {s s' : MgrCall}
    (h : evhtpErrorHook (cltMgrConnNotifyCb ok) cause r s = some (r', s')) :
    evhtpErrorHook (tryRecording ok) cause r (s, []) = some (r', s', []) := by
  rw [← forget_evhtpErrorHook (recording_extending _ (tryNote ok)) cause r (s, [])] at h
  obtain ⟨⟨t, log⟩, hrec, rfl⟩ := exists_of_forget h
  have hlog : log = [] := by
    unfold evhtpErrorHook at hrec
    split at hrec
    · obtain ⟨hnotify, -⟩ := cltUpstreamError_spec hrec
      exact (tryRecording_quiet (by split <;> simp) hnotify).2
    · exact (congrArg (fun x => x.2.2) (Option.some.inj hrec)).symm
  subst hlog
  exact hrec

/-- A connection that libevhtp frees makes one attempt to replace it. -/
theorem deliverClose_attempt {cause : CloseCause} (hc : ConnOk c)
    (h : deliverClose cause order ok m c = some (m', c')) :
    ∃ m₁ rc, closeAttempts cause order ok m c = [(ok, m₁)] ∧ Kept m m₁ ∧
      cltMgrConnTryCreate ok m₁ = some (m', rc) := by
  obtain ⟨con, r₁, m₂, ctl₁, r', ctl', hcon, herror, hfree, rfl⟩ := deliverClose_eq_some h
  obtain ⟨o, -, rfl, hkeeps, hlinked, hcon₁⟩ := evhtpErrorHook_spec hc herror
  have hopen : r₁.con ≠ none := by simp [hcon₁, hcon]
  obtain ⟨m₁, rc, hrec, hkept, htry⟩ :=
    evhtpConnectionFree_record hlinked hopen hkeeps.queued hfree
  refine ⟨m₁, rc, ?_, (Kept.outcome o m).trans hkept, htry⟩
  simp [closeAttempts, evhtpErrorHook_record herror, hrec]

/-- What the manager's own end of a connection attempts: nothing when libevhtp has
freed the connection before, and one replacement otherwise. -/
theorem cltConnDestroy_attempt {r : ClientReq} {ctl : ConnCtl} (hlinked : Linked c.req)
    (h : cltConnDestroy (cltMgrConnNotifyCb ok) order c.req
      (m, { c.toConnCtl with
        evNewHttpReq := some ⟨false⟩, evConnDestroy := some ⟨false⟩ }) = some (r, m', ctl)) :
    c.req.con = none ∧ destroyAttempts order ok m c = [] ∧ m' = m ∨
      c.req.con ≠ none ∧ ∃ rc, destroyAttempts order ok m c = [(ok, m.closing)] ∧
        cltMgrConnTryCreate ok m.closing = some (m', rc) := by
  rw [← forget_cltConnDestroy (recording_extending _ (tryNote ok)) order c.req
    ((m, _), [])] at h
  obtain ⟨⟨⟨m₁, ctl₁⟩, log⟩, hrec, heq⟩ := exists_of_forget h
  obtain ⟨rfl, rfl⟩ := Prod.mk.inj heq
  have hlog : destroyAttempts order ok m c = log := by
    unfold destroyAttempts tryRecording
    rw [hrec]
    rfl
  by_cases hcon : c.req.con = none
  · obtain ⟨hsame, -⟩ := cltConnDestroy_closed hlinked hcon hrec
    obtain ⟨hcall, rfl⟩ := Prod.mk.inj hsame
    exact Or.inl ⟨hcon, hlog, (Prod.mk.inj hcall).1⟩
  · obtain ⟨con, hsome⟩ := Option.ne_none_iff_exists'.mp hcon
    obtain ⟨hclosing, -⟩ := cltConnDestroy_open hlinked hsome hrec
    obtain ⟨hnotify, rfl⟩ := recording_eq_some.mp hclosing
    obtain ⟨-, rc, htry⟩ := notify_connClosing (by simp) hnotify
    exact Or.inr ⟨hcon, rc, hlog, htry⟩

end Ends

end EvhtpHttp.Client

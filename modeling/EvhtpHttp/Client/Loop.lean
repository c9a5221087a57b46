import EvhtpHttp.Client.Manager
import EvhtpHttp.Support.Transition

/-!
# The event loop of one worker thread

What libevent and libevhtp may do next is an event; `cltMgrStep` delivers it.
libevent delivers any pending event, in any order.  libevhtp, for a connection
that still exists, may call the hooks of the request in progress as data
arrives, report the response complete, or free the connection, after calling
the error hook of the request in progress when there was an error.
-/

namespace EvhtpHttp.Client

open EvhtpHttp.Support

/-- Why libevhtp frees a connection: with or without calling the error hook of
the request in progress. -/
inductive CloseCause
  | quiet
  | error (errtype : ℕ)
deriving Repr, DecidableEq

/-- What the event loop of one manager may deliver, with the outcomes of the
allocations made while it is handled. -/
inductive LoopEvent
  | timer (ok : ℕ → AllocOk)
  | statTimer
  | runningTimer
  | waitTimer
  | cleanupTimer
  | newHttpReq (id : ℕ) (strdupOk newOk : Bool)
  | connDestroy (id : ℕ) (order : FreeOrder) (ok : AllocOk)
  | connTimeout (id : ℕ)
  | data (id : ℕ) (hook : DataHook)
  | complete (id : ℕ) (status : ℤ)
  | close (id : ℕ) (cause : CloseCause) (order : FreeOrder) (ok : AllocOk)

/-! ## Delivery of a connection's events -/

/-- `ev_new_http_req` is delivered. -/
def deliverNewHttpReq (strdupOk newOk : Bool) (m : CltMgr) (c : CltMgrConn) :
    Option (CltMgr × CltMgrConn) :=
  if isPending c.evNewHttpReq then
    cltMgrConnHttpReqEvent strdupOk newOk m
      { c with evNewHttpReq := delivered c.evNewHttpReq }
  else none

/-- `ev_conn_destroy` is delivered. -/
def deliverConnDestroy (order : FreeOrder) (ok : AllocOk) (m : CltMgr)
    (c : CltMgrConn) : Option CltMgr :=
  if isPending c.evConnDestroy then
    cltMgrConnDestroyNow order ok m
      { c with evConnDestroy := delivered c.evConnDestroy }
  else none

/-- `ev_timeout` is delivered. -/
def deliverConnTimeout (m : CltMgr) (c : CltMgrConn) :
    Option (CltMgr × CltMgrConn) :=
  if isPending c.req.evTimeout then do
    let (m, ctl) ← cltConnTimeout (cltMgrConnNotifyCb allocAll) (m, c.toConnCtl)
    return (m, { toConnCtl := ctl
                 req := { c.req with evTimeout := delivered c.req.evTimeout } })
  else none

/-- The request in progress on the connection, if libevhtp still has its hooks. -/
def hookedRequest (r : ClientReq) : Option ReqPtr := do
  let con ← r.con
  let q ← con.request
  if r.hooked q then some q else none

/-- libevhtp calls a hook of the request in progress as data arrives. -/
def deliverData (hook : DataHook) (c : CltMgrConn) : Option CltMgrConn :=
  match hookedRequest c.req with
  | none => none
  | some _ => do
    let req ← cltUpstreamData hook c.req
    return { c with req := req }

/-- libevhtp reports the response of the request in progress complete. -/
def deliverComplete (status : ℤ) (m : CltMgr) (c : CltMgrConn) :
    Option (CltMgr × CltMgrConn) :=
  match c.req.con with
  | none => none
  | some con =>
    match con.request with
    | none => none
    | some q => do
      let (req, m, ctl) ←
        cltReqCb (cltMgrConnNotifyCb allocAll) q status c.req (m, c.toConnCtl)
      return (m, { toConnCtl := ctl, req := req })

/-- libevhtp calls the error hook of the request in progress when there was an
error and the hook is still registered. -/
def evhtpErrorHook {σ : Type} (cb : CltNotifyCb σ) (cause : CloseCause) (r : ClientReq)
    (s : σ) : Option (ClientReq × σ) :=
  match cause, hookedRequest r with
  | .error errtype, some _ => cltUpstreamError cb errtype r s
  | _, _ => some (r, s)

/-- libevhtp frees the connection. -/
def deliverClose (cause : CloseCause) (order : FreeOrder) (ok : AllocOk)
    (m : CltMgr) (c : CltMgrConn) : Option (CltMgr × CltMgrConn) :=
  match c.req.con with
  | none => none
  | some _ => do
    let cb := cltMgrConnNotifyCb ok
    let (req, m, ctl) ← evhtpErrorHook cb cause c.req (m, c.toConnCtl)
    let (req, m, ctl) ← evhtpConnectionFree cb order req (m, ctl)
    return (m, { toConnCtl := ctl, req := req })

/-- Deliver an event to the connection `id` and write the connection back. -/
def CltMgr.onConn (id : ℕ) (f : CltMgr → CltMgrConn → Option (CltMgr × CltMgrConn))
    (m : CltMgr) : Option CltMgr := do
  let c ← m.findConn id
  let (m, c) ← f m c
  return m.putConn c

/-! ## The step function -/

/-- Deliver one event.  The result is `none` when the event is not pending or
the process dies while it is handled. -/
def cltMgrStep : LoopEvent → CltMgr → Option CltMgr
  | .timer ok, m =>
    if m.tTimerev.pending then cltMgrTimer ok { m with tTimerev := ⟨false⟩ } else none
  | .statTimer, m =>
    if m.tStatTimerev.pending then
      some (cltMgrStatTimer { m with tStatTimerev := ⟨false⟩ })
    else none
  | .runningTimer, m =>
    if m.tRunningTimerev.pending then
      some (cltMgrRunningTimer { m with tRunningTimerev := ⟨false⟩ })
    else none
  | .waitTimer, m =>
    if m.tWaitTimerev.pending then
      some (cltMgrWaitingTimer { m with tWaitTimerev := ⟨false⟩ })
    else none
  | .cleanupTimer, m =>
    if m.tCleanupTimerev.pending then
      cltMgrCleanupTimer { m with tCleanupTimerev := ⟨false⟩ }
    else none
  | .newHttpReq id strdupOk newOk, m => m.onConn id (deliverNewHttpReq strdupOk newOk)
  | .connDestroy id order ok, m => do
    let c ← m.findConn id
    deliverConnDestroy order ok m c
  | .connTimeout id, m => m.onConn id deliverConnTimeout
  | .data id hook, m => m.onConn id fun m c => do
    let c ← deliverData hook c
    return (m, c)
  | .complete id status, m => m.onConn id (deliverComplete status)
  | .close id cause order ok, m => m.onConn id (deliverClose cause order ok)

/-- One client manager with the configuration `cfg`, from `clt_mgr_start` on. -/
def cltMgrSystem (cfg : MgrConfig) : System CltMgr LoopEvent where
  init := cltMgrStart (cltMgrSetup cfg)
  step := cltMgrStep

end EvhtpHttp.Client

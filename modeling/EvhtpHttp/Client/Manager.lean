import EvhtpHttp.Client.Config
import EvhtpHttp.Client.Pacer
import EvhtpHttp.Client.Request
import EvhtpHttp.Client.Stats

/-!
# The client manager

`src/clt/mgr.c`: the manager of one worker thread, its connections, its five
timers and the handlers of its events.

A connection is named by its place in the order of allocation instead of its
address.  `struct clt_mgr_conn` without its `req` is `ConnCtl`: this is what
the notification callback works on while a function of `clt.c` holds the
request.  Connections that were freed are kept apart, in the state they had at
that moment.
-/

namespace EvhtpHttp.Client

/-- `clt_mgr_state_t`. -/
inductive CltMgrState
  | none
  | init
  | running
  | waiting
  | cleanup
  | cleanupWaiting
  | completed
deriving Repr, DecidableEq

/-- The fields of `struct clt_mgr_conn` apart from its request. -/
structure ConnCtl where
  id : ℕ
  isDead : Bool
  targetRequestCount : ℤ
  waitTimePreHttpReqMsec : ℤ
  curReqCount : ℤ
  evNewHttpReq : EventPtr
  evConnDestroy : EventPtr
  pendingHttpReq : Bool
deriving Repr, DecidableEq

/-- `struct clt_mgr_conn`. -/
structure CltMgrConn extends ConnCtl where
  req : ClientReq
deriving Repr, DecidableEq

/-- The messages `mgr.c` prints when something is not as expected. -/
inductive MgrMessage
  | unexpectedState (func : String) (state : CltMgrState)
  | notValidState (state : CltMgrState)
  | reqInProgress (id : ℕ)
  | createFailed (id : ℕ)
deriving Repr, DecidableEq

/-- `struct clt_mgr`, with the statistics it last handed to its thread, the
connections freed so far and the messages printed.  The timers are made by
`clt_mgr_setup` before the manager starts. -/
structure CltMgr where
  mgrState : CltMgrState
  mgrConnList : List CltMgrConn
  tTimerev : Event
  tStatTimerev : Event
  tRunningTimerev : Event
  tWaitTimerev : Event
  tCleanupTimerev : Event
  cfg : MgrConfig
  pacer : Pacer
  stats : MgrStats
  prevStats : MgrStats
  nextId : ℕ
  freedConns : List CltMgrConn
  messages : List MgrMessage
deriving Repr, DecidableEq

/-- The manager allocated by `calloc` and set up by `clt_mgr_setup`, with the
configuration given to its thread. -/
def cltMgrSetup (cfg : MgrConfig) : CltMgr where
  mgrState := .none
  mgrConnList := []
  tTimerev := ⟨false⟩
  tStatTimerev := ⟨false⟩
  tRunningTimerev := ⟨false⟩
  tWaitTimerev := ⟨false⟩
  tCleanupTimerev := ⟨false⟩
  cfg := cfg
  pacer := Pacer.zero
  stats := MgrStats.zero
  prevStats := MgrStats.zero
  nextId := 0
  freedConns := []
  messages := []

def cltMgrStateChange (newState : CltMgrState) (mgr : CltMgr) : CltMgr :=
  { mgr with mgrState := newState }

/-! ## One connection's events -/

def cltMgrConnStartHttpReq (msec : ℤ) (c : ConnCtl) : Option ConnCtl := do
  let c := { c with pendingHttpReq := true }
  if msec ≤ 0 then
    let ev ← eventAdd c.evNewHttpReq
    let ev ← eventActive ev
    return { c with evNewHttpReq := ev }
  else
    let ev ← eventAdd c.evNewHttpReq
    return { c with evNewHttpReq := ev }

def cltMgrConnCancelHttpReq (c : ConnCtl) : Option ConnCtl := do
  if c.pendingHttpReq then
    let ev ← eventDel c.evNewHttpReq
    return { c with evNewHttpReq := ev }
  else
    return c

def cltMgrConnDestroy (c : ConnCtl) : Option ConnCtl := do
  let ev ← eventAdd c.evConnDestroy
  let ev ← eventActive ev
  return { c with isDead := true, evConnDestroy := ev }

/-! ## Limits -/

def cltMgrConnCheckCreateHttpRequest (mgr : CltMgr) (c : ConnCtl) : Bool :=
  if c.isDead then false
  else if c.targetRequestCount ≤ 0 ∧ mgr.mgrState ≠ .running then false
  else if mgr.cfg.httpKeepalive = 0 then false
  else if c.targetRequestCount > 0 ∧ c.curReqCount ≥ c.targetRequestCount then false
  else true

def cltMgrCheckCreateHttpRequest (mgr : CltMgr) : Bool :=
  if mgr.cfg.targetGlobalRequestCount > 0 ∧
      (mgr.stats.reqCount : ℤ) ≥ mgr.cfg.targetGlobalRequestCount then false
  else true

def cltMgrCheckCreateConn (mgr : CltMgr) : Bool :=
  if mgr.mgrState ≠ .running ∧ mgr.mgrState ≠ .init then false
  else if mgr.cfg.targetTotalNconnCount > 0 ∧
      (mgr.stats.connCount : ℤ) ≥ mgr.cfg.targetTotalNconnCount then false
  else if mgr.stats.nconn ≥ mgr.cfg.targetNconn then false
  else true

def cltMgrCheckFinished (mgr : CltMgr) : Bool :=
  if mgr.cfg.targetGlobalRequestCount > 0 ∧
      (mgr.stats.reqCount : ℤ) ≥ mgr.cfg.targetGlobalRequestCount then true
  else if mgr.cfg.targetTotalNconnCount > 0 ∧
      (mgr.stats.connCount : ℤ) ≥ mgr.cfg.targetTotalNconnCount then true
  else false

def cltMgrCheckWaitingFinished (mgr : CltMgr) : Bool :=
  decide (mgr.stats.nconn = 0)

/-- `clt_mgr_reqrate_pacer_check` on the manager's own pacer. -/
def CltMgr.pacerCheck (mgr : CltMgr) : Bool :=
  cltMgrReqratePacerCheck mgr.cfg.targetRequestRate mgr.pacer

/-- `clt_mgr_reqrate_pacer_inc` on the manager's own pacer. -/
def CltMgr.pacerInc (mgr : CltMgr) : CltMgr :=
  { mgr with pacer := cltMgrReqratePacerInc mgr.cfg.targetRequestRate mgr.pacer }

/-! ## The connection list -/

/-- The connection with this name, if it is on the list. -/
def CltMgr.findConn (mgr : CltMgr) (id : ℕ) : Option CltMgrConn :=
  mgr.mgrConnList.find? fun c => c.id = id

/-- Write a connection back to its place on the list. -/
def CltMgr.putConn (c : CltMgrConn) (mgr : CltMgr) : CltMgr :=
  { mgr with
    mgrConnList := mgr.mgrConnList.map fun x => if x.id = c.id then c else x }

/-- `TAILQ_REMOVE`. -/
def CltMgr.removeConn (id : ℕ) (mgr : CltMgr) : CltMgr :=
  { mgr with mgrConnList := mgr.mgrConnList.filter fun x => x.id ≠ id }

/-! ## Creating a connection -/

/-- `clt_mgr_conn_create`: the manager, the new connection if there is one, and
the memory operations on the way. -/
def cltMgrConnCreate (ok : AllocOk) (mgr : CltMgr) :
    Option (CltMgr × Option CltMgrConn × List MemOp) :=
  if !ok .mgrConn then some (mgr, none, [])
  else
    match cfgIpv4ArrayGetNext mgr.cfg.ipv4Dst with
    | none => none
    | some (addr, ipv4Dst) =>
      let mgr := { mgr with cfg := { mgr.cfg with ipv4Dst := ipv4Dst } }
      let host := mgr.cfg.hostHdr.getD addr
      let (req, ops) := cltConnCreate ok addr host mgr.cfg.port
      let ops :=
        [.alloc .mgrConn] ++ ops ++ allocOp ok .evNewHttpReq ++ allocOp ok .evConnDestroy
      match req with
      | none =>
        some (mgr, none, ops ++
          (if ok .evNewHttpReq then [.free .evNewHttpReq] else []) ++
          (if ok .evConnDestroy then [.free .evConnDestroy] else []) ++
          [.free .mgrConn])
      | some req =>
        let c : CltMgrConn :=
          { id := mgr.nextId
            isDead := false
            targetRequestCount := mgr.cfg.targetRequestCount
            waitTimePreHttpReqMsec := mgr.cfg.waitTimePreHttpReqMsec
            curReqCount := 0
            evNewHttpReq := eventNew (ok .evNewHttpReq)
            evConnDestroy := eventNew (ok .evConnDestroy)
            pendingHttpReq := false
            req := req }
        some
          ({ mgr with
              nextId := mgr.nextId + 1
              mgrConnList := mgr.mgrConnList ++ [c] }, some c, ops)

/-- `clt_mgr_conn_try_create`: the manager and the return code. -/
def cltMgrConnTryCreate (ok : AllocOk) (m : CltMgr) : Option (CltMgr × ℤ) :=
  if !cltMgrCheckCreateConn m then some (m, -1)
  else if !m.pacerCheck then some (m, -1)
  else do
    let (m, created, _) ← cltMgrConnCreate ok m
    match created with
    | none =>
      return ({ m with
        stats := { m.stats with
          nconnCreateFailed := m.stats.nconnCreateFailed + 1 } }, -1)
    | some c =>
      let m := { m with
        stats := { m.stats with
          nconn := m.stats.nconn + 1
          connCount := m.stats.connCount + 1 } }
      let m := m.pacerInc
      let ctl ← cltMgrConnStartHttpReq c.waitTimePreHttpReqMsec c.toConnCtl
      return (m.putConn { c with toConnCtl := ctl }, 0)

/-! ## Notifications from a connection's request -/

/-- What `clt_mgr_conn_notify_cb` works on: the manager and the connection that
the notification is about. -/
abbrev MgrCall := CltMgr × ConnCtl

/-- `clt_mgr_conn_notify_cb`.  `ok` gives the outcome of the allocations if the
notification makes the manager open another connection. -/
def cltMgrConnNotifyCb (ok : AllocOk) : CltNotifyCb MgrCall :=
  fun what data (m, c) =>
    match what with
    | .requestDoneOk =>
      let stats := { m.stats with reqCountOk := m.stats.reqCountOk + 1 }
      some ({ m with stats := mgrStatustypeUpdate stats data }, c)
    | .requestDoneError =>
      some ({ m with
        stats := { m.stats with reqCountErr := m.stats.reqCountErr + 1 } }, c)
    | .requestTimeout => do
      let m := { m with
        stats := { m.stats with reqCountTimeout := m.stats.reqCountTimeout + 1 } }
      let c ← cltMgrConnCancelHttpReq c
      let c ← cltMgrConnDestroy c
      return (m, c)
    | .reqDestroying =>
      if cltMgrConnCheckCreateHttpRequest m c && cltMgrCheckCreateHttpRequest m &&
          m.pacerCheck then do
        let m := m.pacerInc
        let c ← cltMgrConnStartHttpReq c.waitTimePreHttpReqMsec c
        return (m, c)
      else do
        let c ← cltMgrConnDestroy c
        return (m, c)
    | .connClosing => do
      let c ← cltMgrConnCancelHttpReq c
      let c ← cltMgrConnDestroy c
      let m := { m with
        stats := { m.stats with connClosingCount := m.stats.connClosingCount + 1 } }
      let (m, _) ← cltMgrConnTryCreate ok m
      return (m, c)
    | _ => some (m, c)

/-! ## Handlers of a connection's events -/

/-- `_clt_mgr_conn_destroy`: the connection leaves the list and is freed. -/
def cltMgrConnDestroyNow (order : FreeOrder) (ok : AllocOk) (m : CltMgr)
    (c : CltMgrConn) : Option CltMgr := do
  let evNew ← eventDel c.evNewHttpReq
  let evDestroy ← eventDel c.evConnDestroy
  let ctl := { c.toConnCtl with evNewHttpReq := evNew, evConnDestroy := evDestroy }
  let (req, m, ctl) ← cltConnDestroy (cltMgrConnNotifyCb ok) order c.req (m, ctl)
  let evNew ← eventFree ctl.evNewHttpReq
  let evDestroy ← eventFree ctl.evConnDestroy
  let ctl := { ctl with evNewHttpReq := evNew, evConnDestroy := evDestroy }
  let m := { m with stats := { m.stats with nconn := m.stats.nconn - 1 } }
  let m := m.removeConn ctl.id
  return { m with freedConns := m.freedConns ++ [{ toConnCtl := ctl, req := req }] }

/-- `clt_mgr_conn_http_req_event`.  `strdupOk` and `newOk` are the outcomes of
the allocations of `clt_req_create`. -/
def cltMgrConnHttpReqEvent (strdupOk newOk : Bool) (m : CltMgr) (c : CltMgrConn) :
    Option (CltMgr × CltMgrConn) := do
  let m :=
    if c.req.req ≠ none then
      { m with messages := m.messages ++ [.reqInProgress c.id] }
    else m
  let c := { c with pendingHttpReq := false }
  let (req, rc) ← cltReqCreate strdupOk newOk m.cfg.uri m.cfg.httpKeepalive c.req
  let c := { c with req := req }
  if rc < 0 then
    return ({ m with
      messages := m.messages ++ [.createFailed c.id]
      stats := { m.stats with
        reqCountCreateErr := m.stats.reqCountCreateErr + 1 } }, c)
  else
    return ({ m with stats := { m.stats with reqCount := m.stats.reqCount + 1 } },
      { c with curReqCount := c.curReqCount + 1 })

/-! ## Timers and state changes -/

def cltMgrWaitingSchedule (m : CltMgr) : CltMgr :=
  { m with tWaitTimerev := ⟨true⟩ }

def cltMgrWaitingDeschedule (m : CltMgr) : CltMgr :=
  { m with tWaitTimerev := ⟨false⟩ }

def cltMgrCleanupSchedule (m : CltMgr) : CltMgr :=
  { m with tCleanupTimerev := ⟨true⟩ }

def cltMgrStateSetWaiting (m : CltMgr) : CltMgr :=
  let m := cltMgrStateChange .waiting m
  let m := cltMgrWaitingSchedule m
  { m with tRunningTimerev := ⟨false⟩ }

def cltMgrSetRunningTimer (m : CltMgr) : CltMgr :=
  if m.cfg.runningPeriodSec < 0 then m
  else { m with tRunningTimerev := ⟨true⟩ }

/-- The connection loop of `clt_mgr_timer_state_running`, from the loop
variables `i` and `j` on.  The iteration `j` of the loop uses the allocations
`ok j`; there are at most `fuel` iterations. -/
def cltMgrBurst (ok : ℕ → AllocOk) : ℕ → ℤ → ℕ → CltMgr → Option CltMgr
  | 0, _, _, m => some m
  | fuel + 1, i, j, m =>
    if i < m.cfg.targetNconn ∧ (j : ℤ) ≤ m.cfg.burstConn then do
      let (m, rc) ← cltMgrConnTryCreate (ok j) m
      if rc < 0 then return m
      else cltMgrBurst ok fuel (i + 1) (j + 1) m
    else some m

/-- `clt_mgr_timer_state_running`.  The loop variable `j` is at most
`burst_conn`, so `burst_conn + 1` iterations are enough. -/
def cltMgrTimerStateRunning (ok : ℕ → AllocOk) (m : CltMgr) : Option CltMgr := do
  let m :=
    if m.cfg.targetRequestRate > 0 then
      { m with pacer := cltMgrReqratePacerUpdate m.cfg.targetRequestRate m.pacer }
    else m
  let m ← cltMgrBurst ok (m.cfg.burstConn + 1).toNat m.stats.nconn 0 m
  if cltMgrCheckFinished m then return cltMgrStateSetWaiting m
  else return m

def cltMgrWaitingTimer (m : CltMgr) : CltMgr :=
  if m.mgrState ≠ .waiting then
    { m with messages := m.messages ++ [.unexpectedState "clt_mgr_waiting_timer" m.mgrState] }
  else
    cltMgrCleanupSchedule (cltMgrStateChange .cleanup m)

def cltMgrTimerStateWaiting (m : CltMgr) : CltMgr :=
  if !cltMgrCheckWaitingFinished m then m
  else if m.mgrState ≠ .waiting then
    { m with
      messages := m.messages ++ [.unexpectedState "clt_mgr_timer_state_waiting" m.mgrState] }
  else
    cltMgrCleanupSchedule (cltMgrWaitingDeschedule (cltMgrStateChange .cleanup m))

def cltMgrTimerStateCleanupWaiting (m : CltMgr) : CltMgr :=
  if m.mgrState ≠ .cleanupWaiting then
    { m with
      messages :=
        m.messages ++ [.unexpectedState "clt_mgr_timer_state_cleanup_waiting" m.mgrState] }
  else if m.stats.nconn ≠ 0 then m
  else { cltMgrStateChange .completed m with tTimerev := ⟨false⟩ }

/-- The walk over the connection list of `clt_mgr_cleanup_timer`. -/
def cltMgrDestroyAll : List CltMgrConn → Option (List CltMgrConn)
  | [] => some []
  | c :: cs => do
    let ctl ← cltMgrConnDestroy c.toConnCtl
    let cs ← cltMgrDestroyAll cs
    return { c with toConnCtl := ctl } :: cs

def cltMgrCleanupTimer (m : CltMgr) : Option CltMgr :=
  if m.mgrState ≠ .cleanup then
    some { m with
      messages := m.messages ++ [.unexpectedState "clt_mgr_cleanup_timer" m.mgrState] }
  else do
    let conns ← cltMgrDestroyAll m.mgrConnList
    return cltMgrStateChange .cleanupWaiting { m with mgrConnList := conns }

def cltMgrRunningTimer (m : CltMgr) : CltMgr :=
  cltMgrStateSetWaiting m

/-- `clt_mgr_stat_timer`, with `clt_mgr_stats_notify` as the callback. -/
def cltMgrStatTimer (m : CltMgr) : CltMgr :=
  let m := { m with prevStats := mgrStatsCopy m.stats m.prevStats }
  if m.mgrState = .completed then m
  else { m with tStatTimerev := ⟨true⟩ }

def cltMgrTimer (ok : ℕ → AllocOk) (m : CltMgr) : Option CltMgr := do
  let m ←
    match m.mgrState with
    | .running => cltMgrTimerStateRunning ok m
    | .waiting => some (cltMgrTimerStateWaiting m)
    | .cleanup => some m
    | .cleanupWaiting => some (cltMgrTimerStateCleanupWaiting m)
    | .completed => some m
    | _ => some { m with messages := m.messages ++ [.notValidState m.mgrState] }
  if m.mgrState = .completed then return m
  else return { m with tTimerev := ⟨true⟩ }

def cltMgrStart (m : CltMgr) : CltMgr :=
  let m := cltMgrSetRunningTimer m
  let m := cltMgrStateChange .running m
  { m with tTimerev := ⟨true⟩, tStatTimerev := ⟨true⟩ }

end EvhtpHttp.Client

import EvhtpHttp.Client.Loop

/-!
# The connection ledger

An abstract manager.  It keeps of each connection only what decides what may
happen to it next: whether it is dead, whether a request is queued or in
flight on it, whether libevhtp has freed it, whether its timer runs, and how
many requests were issued on it.  The relation `LedgerStep` says everything
that one event may do, and the properties of all runs of the manager are
derived from it.
-/

namespace EvhtpHttp.Client

open EvhtpHttp.Support

/-! ## Entries -/

/-- What the ledger keeps of one connection. -/
structure Entry where
  id : ℕ
  target : ℤ
  cur : ℤ
  dead : Bool
  queued : Bool
  inFlight : Bool
  closed : Bool
  timing : Bool
deriving Repr, DecidableEq

namespace Entry

/-- A new connection has its first request queued. -/
def fresh (id : ℕ) (target : ℤ) : Entry where
  id := id
  target := target
  cur := 0
  dead := false
  queued := true
  inFlight := false
  closed := false
  timing := false

/-- The queued request is issued. -/
def issue (c : Entry) : Entry :=
  { c with queued := false, inFlight := true, cur := c.cur + 1 }

/-- The queued request could not be issued. -/
def giveUp (c : Entry) : Entry :=
  { c with queued := false }

/-- A part of the response has arrived. -/
def hear (c : Entry) : Entry :=
  { c with timing := true }

/-- The connection's own timer has expired. -/
def expire (c : Entry) : Entry :=
  { c with timing := false, queued := false, dead := true }

/-- The response is complete and another request is queued. -/
def next (c : Entry) : Entry :=
  { c with inFlight := false, timing := false, queued := true }

/-- The response is complete and the connection is to be destroyed. -/
def finish (c : Entry) : Entry :=
  { c with inFlight := false, timing := false, dead := true }

/-- libevhtp has freed the connection. -/
def close (c : Entry) : Entry :=
  { c with closed := true, dead := true, queued := false, inFlight := false,
           timing := true }

/-- The manager has freed the connection. -/
def free (c : Entry) : Entry :=
  { c with closed := true, dead := true, queued := false, inFlight := false,
           timing := false }

/-- The connection is to be destroyed. -/
def kill (c : Entry) : Entry :=
  { c with dead := true }

/-- The number of queued requests. -/
def pend (c : Entry) : ℤ :=
  if c.queued then 1 else 0

theorem pend_nonneg (c : Entry) : 0 ≤ c.pend := by
  unfold pend
  split <;> decide

theorem pend_of_queued {c : Entry} (h : c.queued = true) : c.pend = 1 := by
  simp [pend, h]

theorem pend_of_not_queued {c : Entry} (h : c.queued = false) : c.pend = 0 := by
  simp [pend, h]

end Entry

/-- A connection is in one activity at a time: a closed one is dead and has no
request, a request in flight excludes a queued one, and the timer of a
connection that is not dead belongs to a request in flight. -/
structure EntryOk (c : Entry) : Prop where
  closed_dead : c.closed = true → c.dead = true
  closed_idle : c.closed = true → c.queued = false ∧ c.inFlight = false
  inFlight_unqueued : c.inFlight = true → c.queued = false
  timing_used : c.timing = true → c.dead = true ∨ c.inFlight = true

namespace EntryOk

variable {c : Entry}

theorem fresh (id : ℕ) (target : ℤ) : EntryOk (Entry.fresh id target) := by
  constructor <;> simp [Entry.fresh]

theorem issue (hopen : c.closed = false) : EntryOk c.issue := by
  constructor <;> simp [Entry.issue, hopen]

theorem giveUp (h : EntryOk c) : EntryOk c.giveUp where
  closed_dead := h.closed_dead
  closed_idle hc := ⟨rfl, (h.closed_idle hc).2⟩
  inFlight_unqueued _ := rfl
  timing_used := h.timing_used

theorem hear (h : EntryOk c) (hi : c.inFlight = true) : EntryOk c.hear where
  closed_dead := h.closed_dead
  closed_idle := h.closed_idle
  inFlight_unqueued := h.inFlight_unqueued
  timing_used _ := Or.inr hi

theorem expire (h : EntryOk c) : EntryOk c.expire where
  closed_dead _ := rfl
  closed_idle hc := ⟨rfl, (h.closed_idle hc).2⟩
  inFlight_unqueued _ := rfl
  timing_used ht := by simp [Entry.expire] at ht

theorem next (h : EntryOk c) (hi : c.inFlight = true) : EntryOk c.next where
  closed_dead := h.closed_dead
  closed_idle hc := by
    have := (h.closed_idle hc).2
    simp [hi] at this
  inFlight_unqueued hi' := by simp [Entry.next] at hi'
  timing_used ht := by simp [Entry.next] at ht

theorem finish (h : EntryOk c) : EntryOk c.finish where
  closed_dead _ := rfl
  closed_idle hc := ⟨(h.closed_idle hc).1, rfl⟩
  inFlight_unqueued hi := by simp [Entry.finish] at hi
  timing_used ht := by simp [Entry.finish] at ht

theorem close (c : Entry) : EntryOk c.close := by
  constructor <;> simp [Entry.close]

theorem free (c : Entry) : EntryOk c.free := by
  constructor <;> simp [Entry.free]

theorem kill (h : EntryOk c) : EntryOk c.kill where
  closed_dead _ := rfl
  closed_idle := h.closed_idle
  inFlight_unqueued := h.inFlight_unqueued
  timing_used _ := Or.inl rfl

end EntryOk

/-! ## The ledger -/

/-- The limits among the configuration of a manager. -/
structure Limits where
  targetNconn : ℤ
  targetTotalNconnCount : ℤ
  targetGlobalRequestCount : ℤ
  targetRequestCount : ℤ
  burstConn : ℤ
  targetRequestRate : ℤ
  httpKeepalive : ℤ
deriving Repr, DecidableEq

/-- Which of the manager's five timers are pending. -/
structure Timers where
  timer : Bool
  stat : Bool
  running : Bool
  wait : Bool
  cleanup : Bool
deriving Repr, DecidableEq

/-- The abstract manager.  `conns` are the connections on the list, `gone`
those that were freed, `unexpected` counts the complaints about the state. -/
structure Ledger where
  state : CltMgrState
  timers : Timers
  limits : Limits
  pacer : Pacer
  stats : MgrStats
  prevStats : MgrStats
  conns : List Entry
  gone : List Entry
  nextId : ℕ
  unexpected : ℕ
deriving Repr, DecidableEq

namespace Ledger

variable (s : Ledger)

/-- The limits allow another connection. -/
def MayOpen : Prop :=
  (s.state = .running ∨ s.state = .init) ∧
    (0 < s.limits.targetTotalNconnCount →
      (s.stats.connCount : ℤ) < s.limits.targetTotalNconnCount) ∧
    s.stats.nconn < s.limits.targetNconn

/-- The pacer admits another request in this interval. -/
def MayPace : Prop :=
  cltMgrReqratePacerCheck s.limits.targetRequestRate s.pacer = true

/-- The limits of the connection allow another request on it. -/
def MayRequest (c : Entry) : Prop :=
  c.dead = false ∧ (c.target ≤ 0 → s.state = .running) ∧
    s.limits.httpKeepalive ≠ 0 ∧ (0 < c.target → c.cur < c.target)

/-- The limits of the manager allow another request. -/
def MayIssue : Prop :=
  0 < s.limits.targetGlobalRequestCount →
    (s.stats.reqCount : ℤ) < s.limits.targetGlobalRequestCount

/-- The manager has reached a limit on all its requests or connections. -/
def Finished : Prop :=
  (0 < s.limits.targetGlobalRequestCount ∧
      s.limits.targetGlobalRequestCount ≤ s.stats.reqCount) ∨
    (0 < s.limits.targetTotalNconnCount ∧
      s.limits.targetTotalNconnCount ≤ s.stats.connCount)

instance : Decidable s.Finished :=
  inferInstanceAs (Decidable (_ ∨ _))

/-- The pacer after one more admission. -/
def paceInc : Pacer :=
  cltMgrReqratePacerInc s.limits.targetRequestRate s.pacer

/-- A connection attempt failed for lack of memory. -/
def openFailed : Ledger :=
  { s with stats := { s.stats with nconnCreateFailed := s.stats.nconnCreateFailed + 1 } }

/-- A connection was opened. -/
def openOne : Ledger :=
  { s with
    conns := s.conns ++ [Entry.fresh s.nextId s.limits.targetRequestCount]
    nextId := s.nextId + 1
    pacer := s.paceInc
    stats := { s.stats with
      nconn := s.stats.nconn + 1
      connCount := s.stats.connCount + 1 } }

/-- The pacer at the start of a tick. -/
def paced : Ledger :=
  if 0 < s.limits.targetRequestRate then
    { s with pacer := cltMgrReqratePacerUpdate s.limits.targetRequestRate s.pacer }
  else s

theorem paced_of_pos (h : 0 < s.limits.targetRequestRate) :
    s.paced = { s with
      pacer := cltMgrReqratePacerUpdate s.limits.targetRequestRate s.pacer } :=
  if_pos h

theorem paced_of_not_pos (h : ¬ 0 < s.limits.targetRequestRate) : s.paced = s :=
  if_neg h

theorem paced_eq : ∃ p, s.paced = { s with pacer := p } := by
  by_cases h : 0 < s.limits.targetRequestRate
  · exact ⟨_, s.paced_of_pos h⟩
  · exact ⟨s.pacer, s.paced_of_not_pos h⟩

@[simp] theorem paced_state : s.paced.state = s.state := by
  obtain ⟨p, hp⟩ := s.paced_eq
  rw [hp]

@[simp] theorem paced_limits : s.paced.limits = s.limits := by
  obtain ⟨p, hp⟩ := s.paced_eq
  rw [hp]

@[simp] theorem paced_timers : s.paced.timers = s.timers := by
  obtain ⟨p, hp⟩ := s.paced_eq
  rw [hp]

/-- A manager that was just started.  `running` tells whether it has a running
period. -/
def start (limits : Limits) (running : Bool) : Ledger where
  state := .running
  timers := { timer := true, stat := true, running := running, wait := false, cleanup := false }
  limits := limits
  pacer := Pacer.zero
  stats := MgrStats.zero
  prevStats := MgrStats.zero
  conns := []
  gone := []
  nextId := 0
  unexpected := 0

/-- The manager leaves `RUNNING`. -/
def toWaiting : Ledger :=
  { s with state := .waiting, timers := { s.timers with wait := true, running := false } }

/-- The manager leaves `WAITING`. -/
def toCleanup : Ledger :=
  { s with state := .cleanup, timers := { s.timers with wait := false, cleanup := true } }

/-- The state of the manager at the end of a tick in `RUNNING`. -/
def tickEnd : Ledger :=
  if s.Finished then s.toWaiting else s

/-- The periodic timer is added again. -/
def rearm : Ledger :=
  { s with timers := { s.timers with timer := true } }

theorem tickEnd_rearm_eq : ∃ state timers,
    s.tickEnd.rearm = { s with state := state, timers := timers } := by
  by_cases h : s.Finished
  · exact ⟨.waiting, _, by rw [tickEnd, if_pos h, toWaiting, rearm]⟩
  · exact ⟨s.state, _, by rw [tickEnd, if_neg h, rearm]⟩

end Ledger

/-- One connection attempt. -/
inductive TryOpen : Ledger → Ledger → Prop
  | refused (s : Ledger) : TryOpen s s
  | failed {s : Ledger} (hopen : s.MayOpen) (hpace : s.MayPace) :
      TryOpen s s.openFailed
  | opened {s : Ledger} (hopen : s.MayOpen) (hpace : s.MayPace) :
      TryOpen s s.openOne

/-- The connection attempts of one tick, with the number of connections they
opened.  They end with the first attempt that opens none. -/
inductive Burst : Ledger → ℕ → Ledger → Prop
  | done (s : Ledger) : Burst s 0 s
  | failed {s : Ledger} (hopen : s.MayOpen) (hpace : s.MayPace) :
      Burst s 0 s.openFailed
  | opened {s s' : Ledger} {k : ℕ} (hopen : s.MayOpen) (hpace : s.MayPace)
      (hrest : Burst s.openOne k s') : Burst s (k + 1) s'

theorem TryOpen.frame {s s' : Ledger} (h : TryOpen s s') :
    s' = { s with
      conns := s'.conns
      pacer := s'.pacer
      stats := s'.stats
      nextId := s'.nextId } := by
  cases h <;> rfl

theorem Burst.frame {s s' : Ledger} {k : ℕ} (h : Burst s k s') :
    s' = { s with
      conns := s'.conns
      pacer := s'.pacer
      stats := s'.stats
      nextId := s'.nextId } := by
  induction h with
  | done => rfl
  | failed => rfl
  | opened _ _ _ ih => rw [ih]; rfl

theorem TryOpen.state_eq {s s' : Ledger} (h : TryOpen s s') : s'.state = s.state := by
  rw [h.frame]

theorem TryOpen.limits_eq {s s' : Ledger} (h : TryOpen s s') : s'.limits = s.limits := by
  rw [h.frame]

theorem TryOpen.gone_eq {s s' : Ledger} (h : TryOpen s s') : s'.gone = s.gone := by
  rw [h.frame]

theorem Burst.state_eq {s s' : Ledger} {k : ℕ} (h : Burst s k s') : s'.state = s.state := by
  rw [h.frame]

theorem Burst.timers_eq {s s' : Ledger} {k : ℕ} (h : Burst s k s') :
    s'.timers = s.timers := by
  rw [h.frame]

theorem Burst.limits_eq {s s' : Ledger} {k : ℕ} (h : Burst s k s') : s'.limits = s.limits := by
  rw [h.frame]

theorem Burst.gone_eq {s s' : Ledger} {k : ℕ} (h : Burst s k s') : s'.gone = s.gone := by
  rw [h.frame]

/-- What the end of a request counts as. -/
inductive Outcome
  | none
  | err
  | timeout
deriving Repr, DecidableEq

/-- The statistics after an outcome other than a complete response. -/
def Outcome.count (o : Outcome) (stats : MgrStats) : MgrStats :=
  match o with
  | .none => stats
  | .err => { stats with reqCountErr := stats.reqCountErr + 1 }
  | .timeout => { stats with reqCountTimeout := stats.reqCountTimeout + 1 }

/-- The statistics after a complete response. -/
def countOk (status : ℤ) (stats : MgrStats) : MgrStats :=
  mgrStatustypeUpdate { stats with reqCountOk := stats.reqCountOk + 1 } status

theorem countOk_eq (status : ℤ) (stats : MgrStats) :
    countOk status stats = { stats with
      reqCountOk := stats.reqCountOk + 1
      reqStatustype200 := (countOk status stats).reqStatustype200
      reqStatustype302 := (countOk status stats).reqStatustype302
      reqStatustypeOther := (countOk status stats).reqStatustypeOther } := by
  unfold countOk mgrStatustypeUpdate
  split
  · rfl
  · split
    · rfl
    · rfl

/-- An error or a timeout is counted as such, nowhere else. -/
theorem Outcome.count_eq (o : Outcome) (stats : MgrStats) :
    o.count stats = { stats with
      reqCountErr := (o.count stats).reqCountErr
      reqCountTimeout := (o.count stats).reqCountTimeout } := by
  cases o <;> rfl

/-- The statistics after a connection was closed. -/
def countClosing (stats : MgrStats) : MgrStats :=
  { stats with connClosingCount := stats.connClosingCount + 1 }

/-- The connection `c` between `pre` and `post` was closed. -/
def Ledger.closeConn (s : Ledger) (pre : List Entry) (c : Entry) (post : List Entry)
    (o : Outcome) (p : Pacer) : Ledger :=
  { s with
    conns := pre ++ c.close :: post
    pacer := p
    stats := countClosing (o.count s.stats) }

/-- The connection `c` between `pre` and `post` was freed. -/
def Ledger.freeConn (s : Ledger) (pre : List Entry) (c : Entry) (post : List Entry) :
    Ledger :=
  { s with
    conns := pre ++ post
    gone := s.gone ++ [c.free]
    stats := { s.stats with nconn := s.stats.nconn - 1 } }

/-! ## What one event may do -/

/-- The effect of one event on the ledger.  The entry of the connection that
the event is about stands between `pre` and `post`. -/
inductive LedgerStep : LoopEvent → Ledger → Ledger → Prop
  | issue {s : Ledger} {pre post : List Entry} {c : Entry} {strdupOk newOk : Bool}
      (hs : s.conns = pre ++ c :: post) (hqueued : c.queued = true)
      (hidle : c.inFlight = false) (hopen : c.closed = false) :
      LedgerStep (.newHttpReq c.id strdupOk newOk) s
        { s with
          conns := pre ++ c.issue :: post
          stats := { s.stats with reqCount := s.stats.reqCount + 1 } }
  | issueFailed {s : Ledger} {pre post : List Entry} {c : Entry} {strdupOk newOk : Bool}
      (hs : s.conns = pre ++ c :: post) (hqueued : c.queued = true)
      (hfail : strdupOk = false ∨ newOk = false) :
      LedgerStep (.newHttpReq c.id strdupOk newOk) s
        { s with
          conns := pre ++ c.giveUp :: post
          stats := { s.stats with
            reqCountCreateErr := s.stats.reqCountCreateErr + 1 } }
  | data {s : Ledger} {pre post : List Entry} {c : Entry} {hook : DataHook}
      (hs : s.conns = pre ++ c :: post) (hflight : c.inFlight = true) :
      LedgerStep (.data c.id hook) s { s with conns := pre ++ c.hear :: post }
  | connTimeout {s : Ledger} {pre post : List Entry} {c : Entry}
      (hs : s.conns = pre ++ c :: post) (htiming : c.timing = true) :
      LedgerStep (.connTimeout c.id) s
        { s with
          conns := pre ++ c.expire :: post
          stats := Outcome.timeout.count s.stats }
  | completeNext {s : Ledger} {pre post : List Entry} {c : Entry} {status : ℤ}
      (hs : s.conns = pre ++ c :: post) (hflight : c.inFlight = true)
      (hrequest : s.MayRequest c) (hissue : s.MayIssue) (hpace : s.MayPace) :
      LedgerStep (.complete c.id status) s
        { s with
          conns := pre ++ c.next :: post
          pacer := s.paceInc
          stats := countOk status s.stats }
  | completeLast {s : Ledger} {pre post : List Entry} {c : Entry} {status : ℤ}
      (hs : s.conns = pre ++ c :: post) (hflight : c.inFlight = true) :
      LedgerStep (.complete c.id status) s
        { s with
          conns := pre ++ c.finish :: post
          stats := countOk status s.stats }
  | close {s s' : Ledger} {pre post : List Entry} {c : Entry} {cause : CloseCause}
      {order : FreeOrder} {ok : AllocOk} {o : Outcome} {p : Pacer}
      (hs : s.conns = pre ++ c :: post) (hopen : c.closed = false)
      (ho : o = .none ∧ (c.inFlight = false ∨ cause = .quiet) ∨
        o ≠ .none ∧ c.inFlight = true ∧ ∃ errtype, cause = .error errtype)
      (hp : p = s.pacer ∨ s.MayPace ∧ p = s.paceInc)
      (htry : TryOpen (s.closeConn pre c post o p) s') :
      LedgerStep (.close c.id cause order ok) s s'
  | destroyClosed {s : Ledger} {pre post : List Entry} {c : Entry}
      {order : FreeOrder} {ok : AllocOk}
      (hs : s.conns = pre ++ c :: post) (hdead : c.dead = true)
      (hclosed : c.closed = true) :
      LedgerStep (.connDestroy c.id order ok) s (s.freeConn pre c post)
  | destroyOpen {s s₁ : Ledger} {pre post post' : List Entry} {c : Entry}
      {order : FreeOrder} {ok : AllocOk}
      (hs : s.conns = pre ++ c :: post) (hdead : c.dead = true)
      (hopen : c.closed = false)
      (htry : TryOpen (s.closeConn pre c post .none s.pacer) s₁)
      (hs₁ : s₁.conns = pre ++ c.close :: post') :
      LedgerStep (.connDestroy c.id order ok) s (s₁.freeConn pre c.close post')
  | statTimer {s : Ledger} (h : s.timers.stat = true) :
      LedgerStep .statTimer s
        { s with
          prevStats := s.stats
          timers := { s.timers with stat := decide (s.state ≠ .completed) } }
  | runningTimer {s : Ledger} (h : s.timers.running = true) :
      LedgerStep .runningTimer s s.toWaiting
  | waitTimer {s : Ledger} (h : s.timers.wait = true) (hstate : s.state = .waiting) :
      LedgerStep .waitTimer s s.toCleanup
  | waitTimerUnexpected {s : Ledger} (h : s.timers.wait = true)
      (hstate : s.state ≠ .waiting) :
      LedgerStep .waitTimer s
        { s with
          unexpected := s.unexpected + 1
          timers := { s.timers with wait := false } }
  | cleanupTimer {s : Ledger} (h : s.timers.cleanup = true) (hstate : s.state = .cleanup) :
      LedgerStep .cleanupTimer s
        { s with
          state := .cleanupWaiting
          conns := s.conns.map Entry.kill
          timers := { s.timers with cleanup := false } }
  | cleanupTimerUnexpected {s : Ledger} (h : s.timers.cleanup = true)
      (hstate : s.state ≠ .cleanup) :
      LedgerStep .cleanupTimer s
        { s with
          unexpected := s.unexpected + 1
          timers := { s.timers with cleanup := false } }
  | tickRunning {s s' : Ledger} {ok : ℕ → AllocOk} {k : ℕ}
      (h : s.timers.timer = true) (hstate : s.state = .running)
      (hk : (k : ℤ) ≤ max (s.limits.burstConn + 1) 0)
      (hburst : Burst s.paced k s') :
      LedgerStep (.timer ok) s s'.tickEnd.rearm
  | tickWaiting {s : Ledger} {ok : ℕ → AllocOk} (h : s.timers.timer = true)
      (hstate : s.state = .waiting) (hconns : s.stats.nconn ≠ 0) :
      LedgerStep (.timer ok) s s
  | tickWaitingDone {s : Ledger} {ok : ℕ → AllocOk} (h : s.timers.timer = true)
      (hstate : s.state = .waiting) (hconns : s.stats.nconn = 0) :
      LedgerStep (.timer ok) s s.toCleanup
  | tickCleanup {s : Ledger} {ok : ℕ → AllocOk} (h : s.timers.timer = true)
      (hstate : s.state = .cleanup) :
      LedgerStep (.timer ok) s s
  | tickCleanupWaiting {s : Ledger} {ok : ℕ → AllocOk} (h : s.timers.timer = true)
      (hstate : s.state = .cleanupWaiting) (hconns : s.stats.nconn ≠ 0) :
      LedgerStep (.timer ok) s s
  | tickCompleted {s : Ledger} {ok : ℕ → AllocOk} (h : s.timers.timer = true)
      (hstate : s.state = .cleanupWaiting) (hconns : s.stats.nconn = 0) :
      LedgerStep (.timer ok) s
        { s with state := .completed, timers := { s.timers with timer := false } }
  | tickLate {s : Ledger} {ok : ℕ → AllocOk} (h : s.timers.timer = true)
      (hstate : s.state = .completed) :
      LedgerStep (.timer ok) s { s with timers := { s.timers with timer := false } }
  | tickInvalid {s : Ledger} {ok : ℕ → AllocOk} (h : s.timers.timer = true)
      (hstate : s.state = .none ∨ s.state = .init) :
      LedgerStep (.timer ok) s { s with unexpected := s.unexpected + 1 }

theorem LedgerStep.limits_eq {e : LoopEvent} {s s' : Ledger} (h : LedgerStep e s s') :
    s'.limits = s.limits := by
  cases h with
  | close _ _ _ _ htry => exact htry.limits_eq
  | destroyOpen _ _ _ htry => exact htry.limits_eq
  | tickRunning _ _ _ hburst =>
      obtain ⟨p, hp⟩ := s.paced_eq
      obtain ⟨state, timers, hend⟩ := Ledger.tickEnd_rearm_eq _
      rw [hend, hburst.limits_eq, hp]
  | _ => rfl

end EvhtpHttp.Client

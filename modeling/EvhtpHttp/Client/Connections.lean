import EvhtpHttp.Client.Refinement

/-!
# Connection accounting

The counters of a manager against its connections: how many there are, how many
were opened, closed and freed, and how the limits bound these numbers.
-/

namespace EvhtpHttp.Client

open EvhtpHttp.Support

/-- The counters agree with the connections and respect the limits, and a
manager that has completed has none left. -/
structure Accounts (state : CltMgrState) (limits : Limits) (stats : MgrStats)
    (conns gone : List Entry) : Prop where
  nconn : stats.nconn = conns.length
  opened : stats.connCount = conns.length + gone.length
  closing : stats.connClosingCount = conns.countP Entry.closed + gone.length
  cap : stats.nconn ≤ max limits.targetNconn 0
  total : 0 < limits.targetTotalNconnCount →
    (stats.connCount : ℤ) ≤ limits.targetTotalNconnCount
  completed : state = .completed → conns = []
  freed : ∀ c ∈ gone, c.queued = false ∧ c.timing = false

def Ledger.AccountsOk (s : Ledger) : Prop :=
  Accounts s.state s.limits s.stats s.conns s.gone

namespace Accounts

variable {state : CltMgrState} {limits : Limits} {stats stats' : MgrStats}
  {pre post conns gone : List Entry} {c c' : Entry}

theorem replace (h : Accounts state limits stats (pre ++ c :: post) gone)
    (hclosed : c'.closed = c.closed) (hnconn : stats'.nconn = stats.nconn)
    (hopened : stats'.connCount = stats.connCount)
    (hclosing : stats'.connClosingCount = stats.connClosingCount) :
    Accounts state limits stats' (pre ++ c' :: post) gone where
  nconn := by
    rw [hnconn, h.nconn]
    simp
  opened := by
    rw [hopened, h.opened]
    simp
  closing := by
    rw [hclosing, h.closing]
    simp [List.countP_cons, hclosed]
  cap := by rw [hnconn]; exact h.cap
  total := by rw [hopened]; exact h.total
  completed hstate := by
    have hnone := h.completed hstate
    simp at hnone
  freed := h.freed

theorem close (h : Accounts state limits stats (pre ++ c :: post) gone)
    (hopen : c.closed = false) (o : Outcome) :
    Accounts state limits (countClosing (o.count stats)) (pre ++ c.close :: post) gone := by
  rw [Outcome.count_eq]
  exact {
    nconn := by
      have hnconn := h.nconn
      simpa [countClosing] using hnconn
    opened := by
      have hopened := h.opened
      simpa [countClosing] using hopened
    closing := by
      have hclosing := h.closing
      simp only [countClosing, List.countP_append, List.countP_cons, Entry.close, hopen,
        Bool.false_eq_true, if_false, if_true] at hclosing ⊢
      omega
    cap := h.cap
    total := h.total
    completed := fun hstate => by
      have hnone := h.completed hstate
      simp at hnone
    freed := h.freed }

theorem free (h : Accounts state limits stats (pre ++ c :: post) gone)
    (hclosed : c.closed = true) :
    Accounts state limits { stats with nconn := stats.nconn - 1 } (pre ++ post)
      (gone ++ [c.free]) where
  nconn := by
    have hnconn := h.nconn
    simp only [List.length_append, List.length_cons] at hnconn ⊢
    push_cast at hnconn ⊢
    omega
  opened := by
    have hopened := h.opened
    simp only [List.length_append, List.length_cons, List.length_nil] at hopened ⊢
    omega
  closing := by
    have hclosing := h.closing
    simp only [List.countP_append, List.countP_cons, hclosed, if_true, List.length_append,
      List.length_cons, List.length_nil] at hclosing ⊢
    omega
  cap := by
    have hcap := h.cap
    simp only
    omega
  total := h.total
  completed hstate := by
    have hnone := h.completed hstate
    simp at hnone
  freed := by
    intro x hx
    rcases List.mem_append.mp hx with hx | hx
    · exact h.freed x hx
    · cases List.mem_singleton.mp hx
      exact ⟨rfl, rfl⟩

theorem kill (h : Accounts state limits stats conns gone)
    {state' : CltMgrState} (hstate' : state' ≠ .completed) :
    Accounts state' limits stats (conns.map Entry.kill) gone where
  nconn := by simpa using h.nconn
  opened := by simpa using h.opened
  closing := by
    have hkill : conns.countP Entry.closed = (conns.map Entry.kill).countP Entry.closed := by
      rw [List.countP_map]
      rfl
    rw [h.closing, hkill]
  cap := h.cap
  total := h.total
  completed hcompleted := absurd hcompleted hstate'
  freed := h.freed

/-- A change of state that does not complete the manager, or that completes one
without connections. -/
theorem changeState (h : Accounts state limits stats conns gone) {state' : CltMgrState}
    (hstate : state' = .completed → conns = []) :
    Accounts state' limits stats conns gone where
  nconn := h.nconn
  opened := h.opened
  closing := h.closing
  cap := h.cap
  total := h.total
  completed := hstate
  freed := h.freed

end Accounts

/-! ## Steps -/

theorem accountsOk_openOne {s : Ledger} (hs : s.AccountsOk) (hopen : s.MayOpen) :
    s.openOne.AccountsOk where
  nconn := by
    have hnconn := hs.nconn
    simp only [Ledger.openOne, List.length_append, List.length_singleton]
    push_cast
    omega
  opened := by
    have hopened := hs.opened
    simp only [Ledger.openOne, List.length_append, List.length_singleton]
    omega
  closing := by
    have hclosing := hs.closing
    simpa [Ledger.openOne, Entry.fresh] using hclosing
  cap := by
    have hroom := hopen.2.2
    simp only [Ledger.openOne]
    omega
  total hlimit := by
    have hroom := hopen.2.1 hlimit
    simp only [Ledger.openOne] at hlimit ⊢
    push_cast
    omega
  completed hstate := by
    have hcompleted : s.state = .completed := hstate
    rcases hopen.1 with hrunning | hinit
    · rw [hcompleted] at hrunning
      cases hrunning
    · rw [hcompleted] at hinit
      cases hinit
  freed := hs.freed

theorem TryOpen.accountsOk {s s' : Ledger} (h : TryOpen s s') (hs : s.AccountsOk) :
    s'.AccountsOk := by
  cases h with
  | refused => exact hs
  | failed =>
      exact ⟨hs.nconn, hs.opened, hs.closing, hs.cap, hs.total, hs.completed, hs.freed⟩
  | opened hopen => exact accountsOk_openOne hs hopen

theorem Burst.accountsOk {s s' : Ledger} {k : ℕ} (h : Burst s k s') (hs : s.AccountsOk) :
    s'.AccountsOk := by
  induction h with
  | done => exact hs
  | failed =>
      exact ⟨hs.nconn, hs.opened, hs.closing, hs.cap, hs.total, hs.completed, hs.freed⟩
  | opened hopen _ _ ih => exact ih (accountsOk_openOne hs hopen)

theorem accountsOk_closeConn {s : Ledger} {pre post : List Entry} {c : Entry}
    (hs : s.AccountsOk) (hsplit : s.conns = pre ++ c :: post) (hopen : c.closed = false)
    (o : Outcome) (p : Pacer) : (s.closeConn pre c post o p).AccountsOk := by
  have haccounts : Accounts s.state s.limits s.stats s.conns s.gone := hs
  rw [hsplit] at haccounts
  exact haccounts.close hopen o

theorem accountsOk_freeConn {s : Ledger} {pre post : List Entry} {c : Entry}
    (hs : s.AccountsOk) (hsplit : s.conns = pre ++ c :: post) (hclosed : c.closed = true) :
    (s.freeConn pre c post).AccountsOk := by
  have haccounts : Accounts s.state s.limits s.stats s.conns s.gone := hs
  rw [hsplit] at haccounts
  exact haccounts.free hclosed

theorem LedgerStep.accountsOk {e : LoopEvent} {s s' : Ledger} (h : LedgerStep e s s')
    (hs : s.AccountsOk) : s'.AccountsOk := by
  have haccounts : Accounts s.state s.limits s.stats s.conns s.gone := hs
  cases h with
  | issue hsplit =>
      rw [hsplit] at haccounts
      exact haccounts.replace rfl rfl rfl rfl
  | issueFailed hsplit =>
      rw [hsplit] at haccounts
      exact haccounts.replace rfl rfl rfl rfl
  | data hsplit =>
      rw [hsplit] at haccounts
      exact haccounts.replace rfl rfl rfl rfl
  | connTimeout hsplit =>
      rw [hsplit] at haccounts
      exact haccounts.replace rfl rfl rfl rfl
  | completeNext hsplit =>
      rw [hsplit] at haccounts
      rw [countOk_eq]
      exact haccounts.replace rfl rfl rfl rfl
  | completeLast hsplit =>
      rw [hsplit] at haccounts
      rw [countOk_eq]
      exact haccounts.replace rfl rfl rfl rfl
  | close hsplit hopen _ _ htry =>
      exact htry.accountsOk (accountsOk_closeConn hs hsplit hopen _ _)
  | destroyClosed hsplit _ hclosed => exact accountsOk_freeConn hs hsplit hclosed
  | destroyOpen hsplit _ hopen htry hsplit₁ =>
      exact accountsOk_freeConn (htry.accountsOk (accountsOk_closeConn hs hsplit hopen _ _))
        hsplit₁ rfl
  | runningTimer => exact haccounts.changeState (by simp [Ledger.toWaiting])
  | waitTimer => exact haccounts.changeState (by simp [Ledger.toCleanup])
  | cleanupTimer => exact haccounts.kill (by simp)
  | tickRunning _ _ _ hburst =>
      have hpaced : s.paced.AccountsOk := by
        obtain ⟨p, hp⟩ := s.paced_eq
        rw [hp]
        exact haccounts
      have hopened := hburst.accountsOk hpaced
      unfold Ledger.tickEnd
      split
      · exact Accounts.changeState hopened (by simp [Ledger.toWaiting, Ledger.rearm])
      · exact hopened
  | tickWaitingDone => exact haccounts.changeState (by simp [Ledger.toCleanup])
  | tickCompleted _ _ hconns =>
      refine haccounts.changeState fun _ => ?_
      have hlength := hs.nconn
      rw [hconns] at hlength
      exact List.eq_nil_of_length_eq_zero (by exact_mod_cast hlength.symm)
  | _ => exact haccounts

theorem accountsOk_start (limits : Limits) (running : Bool) :
    (Ledger.start limits running).AccountsOk :=
  ⟨rfl, rfl, rfl, le_max_right _ _, fun hlimit => hlimit.le, fun _ => rfl,
    by simp [Ledger.start]⟩

theorem accountsOk_of_reachable {cfg : MgrConfig} {m : CltMgr}
    (h : (cltMgrSystem cfg).Reachable m) : m.ledger.AccountsOk :=
  ledger_invariant (accountsOk_start cfg.limits)
    (fun _ _ _ _ _ hs hstep => hstep.accountsOk hs) h

/-! ## Destroyed connections -/

/-- The connection that `_clt_mgr_conn_destroy` is called for. -/
def LoopEvent.destroyed : LoopEvent → Option ℕ
  | .connDestroy id _ _ => some id
  | _ => none

theorem LedgerStep.gone_ids {e : LoopEvent} {s s' : Ledger} (h : LedgerStep e s s') :
    s'.gone.map Entry.id = s.gone.map Entry.id ++ e.destroyed.toList := by
  cases h with
  | close _ _ _ _ htry =>
      rw [htry.gone_eq]
      simp [Ledger.closeConn, LoopEvent.destroyed]
  | destroyClosed =>
      simp [Ledger.freeConn, Entry.free, LoopEvent.destroyed]
  | destroyOpen _ _ _ htry =>
      rw [Ledger.freeConn, htry.gone_eq]
      simp [Ledger.closeConn, Entry.free, Entry.close, LoopEvent.destroyed]
  | tickRunning _ _ _ hburst =>
      obtain ⟨p, hp⟩ := Ledger.paced_eq s
      obtain ⟨state, timers, hend⟩ := Ledger.tickEnd_rearm_eq _
      rw [hend, hburst.gone_eq, hp]
      simp [LoopEvent.destroyed]
  | _ => simp [LoopEvent.destroyed, Ledger.toWaiting, Ledger.toCleanup]

/-- The freed connections are those that were destroyed, in the same order. -/
theorem freed_ids_of_run {cfg : MgrConfig} {es : List LoopEvent} {m : CltMgr}
    (h : (cltMgrSystem cfg).run es = some m) :
    (m.freedConns.map fun c => c.id) = es.filterMap LoopEvent.destroyed := by
  have hgone : m.ledger.gone.map Entry.id = es.filterMap LoopEvent.destroyed := by
    refine ledger_run_induction
      (P := fun es s => s.gone.map Entry.id = es.filterMap LoopEvent.destroyed)
      ?_ ?_ es m h
    · intro running
      rfl
    · intro es e s s' _ _ hs hstep
      rw [hstep.gone_ids, hs, List.filterMap_append]
      congr 1
  rw [← hgone, CltMgr.ledger, List.map_map]
  rfl

/-- The connections of a manager against its counters and limits, at every event
boundary of every run. -/
theorem connection_accounting {cfg : MgrConfig} {es : List LoopEvent} {m : CltMgr}
    (h : (cltMgrSystem cfg).run es = some m) :
    m.stats.nconn = m.mgrConnList.length ∧
      0 ≤ m.stats.nconn ∧ m.stats.nconn ≤ max cfg.targetNconn 0 ∧
      (0 < cfg.targetTotalNconnCount →
        (m.stats.connCount : ℤ) ≤ cfg.targetTotalNconnCount) ∧
      (es.filterMap LoopEvent.destroyed).Nodup ∧
      (∀ c ∈ m.mgrConnList, c.id ∉ es.filterMap LoopEvent.destroyed) ∧
      (∀ c ∈ m.freedConns, isPending c.evNewHttpReq = false ∧
        isPending c.evConnDestroy = false ∧ isPending c.req.evTimeout = false) ∧
      (m.stats.connCount : ℤ) - m.stats.nconn ≤ m.stats.connClosingCount ∧
      m.stats.connClosingCount ≤ m.stats.connCount ∧
      (m.mgrState = .completed → m.stats.connClosingCount = m.stats.connCount) := by
  have hreach : (cltMgrSystem cfg).Reachable m := ⟨es, h⟩
  have hm := cltMgrOk_of_reachable hreach
  have haccounts : Accounts _ _ _ _ _ := accountsOk_of_reachable hreach
  have hlimits : m.ledger.limits = cfg.limits := limits_of_reachable hreach
  have hnconn : m.stats.nconn = m.mgrConnList.length := by
    simpa [CltMgr.ledger] using haccounts.nconn
  have hopened : m.stats.connCount = m.mgrConnList.length + m.freedConns.length := by
    simpa [CltMgr.ledger] using haccounts.opened
  have hclosing := haccounts.closing
  have hsome : m.ledger.conns.countP Entry.closed ≤ m.ledger.conns.length :=
    List.countP_le_length
  simp only [CltMgr.ledger, List.length_map] at hclosing hsome
  have hnodup := hm.roster.nodup
  simp only [CltMgr.ledger, List.map_append, List.map_map] at hnodup
  obtain ⟨-, hfreed, hdisjoint⟩ := List.nodup_append.mp hnodup
  have hids := freed_ids_of_run h
  refine ⟨hnconn, by omega, ?_, ?_, hids ▸ hfreed, ?_, ?_, by omega, by omega, ?_⟩
  · have hcap := haccounts.cap
    rw [hlimits] at hcap
    exact hcap
  · have htotal := haccounts.total
    rw [hlimits] at htotal
    exact htotal
  · intro c hc hmem
    rw [← hids] at hmem
    exact hdisjoint c.id (List.mem_map_of_mem hc) c.id hmem rfl
  · intro c hc
    obtain ⟨hqueued, htiming⟩ := haccounts.freed c.entry (List.mem_map_of_mem hc)
    exact ⟨hqueued, hm.freed c hc, htiming⟩
  · intro hstate
    have hnone : m.mgrConnList.map CltMgrConn.entry = [] := haccounts.completed hstate
    rw [hnone] at hclosing
    have hlength := congrArg List.length hnone
    simp only [List.length_map, List.length_nil, List.countP_nil] at hlength hclosing
    omega

theorem connection_accounting_closed :
    ∃ m, (cltMgrSystem oneHostConfig).run
        [.timer fun _ => allocAll, .close 0 .quiet .requestFirst allocAll,
          .connDestroy 0 .requestFirst allocAll] = some m ∧
      m.stats.connCount = 3 ∧ m.stats.nconn = 2 ∧
      (m.stats.connCount : ℤ) - m.stats.nconn ≤ m.stats.connClosingCount := by
  have hrun : ∃ m, (cltMgrSystem oneHostConfig).run
        [.timer fun _ => allocAll, .close 0 .quiet .requestFirst allocAll,
          .connDestroy 0 .requestFirst allocAll] = some m ∧
      m.stats.connCount = 3 ∧ m.stats.nconn = 2 :=
    ⟨_, rfl, rfl, rfl⟩
  obtain ⟨m, hm, hcount, hnconn⟩ := hrun
  obtain ⟨-, -, -, -, -, -, -, hclosing, -, -⟩ := connection_accounting hm
  exact ⟨m, hm, hcount, hnconn, hclosing⟩

end EvhtpHttp.Client

import EvhtpHttp.Client.Connections
import EvhtpHttp.Client.PacerBounds
import Mathlib.Algebra.Order.BigOperators.Group.Finset

/-!
# The limit on all connections of the program

`main` divides the configuration among the worker threads and each manager
checks its own share of the limits.  A share of zero is no limit, so the shares
of a limit below the number of threads limit nothing.
-/

namespace EvhtpHttp.Client

open EvhtpHttp.Support

/-- The configuration that `main` gives to each of its workers. -/
def workerConfig (cfg : MgrConfig) : MgrConfig :=
  mgrConfigCopyThread cfg MgrConfig.zero cfg.numThreads

/-- The managers of all workers, side by side. -/
def workers (cfg : MgrConfig) :
    System (Fin cfg.numThreads.toNat → CltMgr) (Fin cfg.numThreads.toNat × LoopEvent) :=
  System.interleave fun _ => cltMgrSystem (workerConfig cfg)

/-- The connections opened by all workers. -/
def totalConnCount {cfg : MgrConfig} (s : Fin cfg.numThreads.toNat → CltMgr) : ℕ :=
  ∑ i, (s i).stats.connCount

/-- The shares of the configuration let a worker open a connection: it may have
one, a tick tries at least once, and the pacer has a target or none is set. -/
def CanConnect (cfg : MgrConfig) : Prop :=
  cfg.numThreads ≤ cfg.targetNconn ∧ -cfg.numThreads < cfg.burstConn ∧
    (cfg.targetRequestRate < 0 ∨ 100 * cfg.numThreads ≤ cfg.targetRequestRate)

/-! ## Shares -/

section Shares

variable {cfg : MgrConfig}

theorem workerConfig_targetNconn (h : 1 ≤ cfg.numThreads) :
    (workerConfig cfg).targetNconn = cfg.targetNconn.tdiv cfg.numThreads := by
  have hne : cfg.numThreads ≠ 0 := by omega
  simp [workerConfig, mgrConfigCopyThread, hne]

theorem workerConfig_burstConn (h : 1 ≤ cfg.numThreads) :
    (workerConfig cfg).burstConn = cfg.burstConn.tdiv cfg.numThreads := by
  have hne : cfg.numThreads ≠ 0 := by omega
  simp [workerConfig, mgrConfigCopyThread, hne]

theorem workerConfig_targetRequestRate (h : 1 ≤ cfg.numThreads) :
    (workerConfig cfg).targetRequestRate = divvy cfg.targetRequestRate cfg.numThreads := by
  have hne : cfg.numThreads ≠ 0 := by omega
  simp [workerConfig, mgrConfigCopyThread, hne]

theorem workerConfig_targetTotalNconnCount (h : 1 ≤ cfg.numThreads)
    (hlimit : 0 < cfg.targetTotalNconnCount) :
    (workerConfig cfg).targetTotalNconnCount =
      cfg.targetTotalNconnCount.tdiv cfg.numThreads := by
  have hne : cfg.numThreads ≠ 0 := by omega
  simp [workerConfig, mgrConfigCopyThread, divvy, hne, hlimit]

theorem divvy_neg_iff {a n : ℤ} (hn : 0 < n) : divvy a n < 0 ↔ a < 0 := by
  unfold divvy
  split
  · have hshare : 0 ≤ a.tdiv n := Int.tdiv_nonneg (by omega) hn.le
    omega
  · exact Iff.rfl

theorem le_divvy_iff {k a n : ℤ} (hn : 0 < n) (hk : 0 < k) : k ≤ divvy a n ↔ k * n ≤ a := by
  have hmul : 0 < k * n := Int.mul_pos hk hn
  unfold divvy
  split
  · exact le_tdiv_iff hn hk
  · omega

theorem divvy_le {a n : ℤ} : divvy a n ≤ max a 0 := by
  unfold divvy
  split
  · rw [Int.tdiv_eq_ediv_of_nonneg (by omega)]
    have hle := Int.ediv_le_self n (a := a) (by omega)
    omega
  · omega

end Shares

/-! ## Managers that never open a connection -/

/-- The limits keep the manager from ever opening a connection. -/
def Limits.Blocked (l : Limits) : Prop :=
  l.targetNconn ≤ 0 ∨ l.burstConn < 0 ∨ 0 ≤ l.targetRequestRate ∧ l.targetRequestRate < 100

/-- No connection was opened, and a rate below one request per interval gives
the pacer no target. -/
structure Ledger.Unopened (s : Ledger) : Prop where
  conns : s.conns = []
  nconn : s.stats.nconn = 0
  connCount : s.stats.connCount = 0
  pacer : 0 ≤ s.limits.targetRequestRate → s.limits.targetRequestRate < 100 →
    s.pacer.requestCountCur = 0 ∧ s.pacer.requestCountTarget = 0

/-- A blocked manager may not open a connection, unless only the number of
attempts blocks it. -/
theorem Ledger.Unopened.refused {s : Ledger} (h : s.Unopened) (hopen : s.MayOpen)
    (hpace : s.MayPace) (hblocked : s.limits.Blocked) : s.limits.burstConn < 0 := by
  rcases hblocked with hnconn | hburst | ⟨hrate, hlow⟩
  · have hroom := hopen.2.2
    have hnone := h.nconn
    omega
  · exact hburst
  · obtain ⟨hcur, htarget⟩ := h.pacer hrate hlow
    have hnot : ¬ s.limits.targetRequestRate < 0 := by omega
    simp [Ledger.MayPace, cltMgrReqratePacerCheck, hnot, hcur, htarget] at hpace

theorem Ledger.Unopened.paced {s : Ledger} (h : s.Unopened) : s.paced.Unopened := by
  by_cases hrate : 0 < s.limits.targetRequestRate
  · rw [s.paced_of_pos hrate]
    exact ⟨h.conns, h.nconn, h.connCount,
      fun hnonneg hlow => pacerUpdate_of_low_rate hnonneg hlow s.pacer⟩
  · rw [s.paced_of_not_pos hrate]
    exact h

theorem Burst.unopened {s s' : Ledger} {k : ℕ} (h : Burst s k s') (hs : s.Unopened)
    (hblocked : s.limits.Blocked) (hk : (k : ℤ) ≤ max (s.limits.burstConn + 1) 0) :
    s'.Unopened := by
  cases h with
  | done => exact hs
  | failed => exact ⟨hs.conns, hs.nconn, hs.connCount, hs.pacer⟩
  | opened hopen hpace =>
      have hburst := hs.refused hopen hpace hblocked
      push_cast at hk
      omega

theorem LedgerStep.unopened {e : LoopEvent} {s s' : Ledger} (h : LedgerStep e s s')
    (hs : s.Unopened) (hblocked : s.limits.Blocked) : s'.Unopened := by
  have hnone : ∀ {pre post : List Entry} {c : Entry}, s.conns ≠ pre ++ c :: post := by
    intro pre post c hsplit
    rw [hs.conns] at hsplit
    simp at hsplit
  cases h with
  | issue hsplit => exact absurd hsplit hnone
  | issueFailed hsplit => exact absurd hsplit hnone
  | data hsplit => exact absurd hsplit hnone
  | connTimeout hsplit => exact absurd hsplit hnone
  | completeNext hsplit => exact absurd hsplit hnone
  | completeLast hsplit => exact absurd hsplit hnone
  | close hsplit => exact absurd hsplit hnone
  | destroyClosed hsplit => exact absurd hsplit hnone
  | destroyOpen hsplit => exact absurd hsplit hnone
  | cleanupTimer =>
      exact ⟨by simp [hs.conns], hs.nconn, hs.connCount, hs.pacer⟩
  | tickRunning _ _ hk hburst =>
      have hlimits := s.paced_limits
      have hopened := hburst.unopened hs.paced (hlimits ▸ hblocked) (hlimits ▸ hk)
      obtain ⟨state, timers, hend⟩ := Ledger.tickEnd_rearm_eq _
      rw [hend]
      exact ⟨hopened.conns, hopened.nconn, hopened.connCount, hopened.pacer⟩
  | _ => exact ⟨hs.conns, hs.nconn, hs.connCount, hs.pacer⟩

theorem connCount_of_blocked {cfg : MgrConfig} (hblocked : cfg.limits.Blocked) {m : CltMgr}
    (h : (cltMgrSystem cfg).Reachable m) : m.stats.connCount = 0 := by
  have hunopened : m.ledger.Unopened := by
    refine ledger_invariant (P := fun s => s.Unopened) ?_ ?_ h
    · intro running
      exact ⟨rfl, rfl, rfl, fun _ _ => ⟨rfl, rfl⟩⟩
    · intro e s s' _ hlimits hs hstep
      exact hstep.unopened hs (hlimits ▸ hblocked)
  exact hunopened.connCount

/-! ## Managers that open a connection -/

/-- The read cursor is on an address. -/
def CltMgr.AddressOk (m : CltMgr) : Prop :=
  m.cfg.ipv4Dst.cur < m.cfg.ipv4Dst.ipv4.length

/-- With an address and memory an attempt to open a connection comes to an end,
and opens one when the two checks pass. -/
theorem cltMgrConnTryCreate_total {m : CltMgr} (h : m.AddressOk) :
    ∃ m' rc, cltMgrConnTryCreate allocAll m = some (m', rc) ∧ m'.AddressOk ∧
      (cltMgrCheckCreateConn m = true → m.pacerCheck = true → rc = 0) := by
  by_cases hcheck : cltMgrCheckCreateConn m = true
  · by_cases hpace : m.pacerCheck = true
    · obtain ⟨addr, dst, hnext, hdst⟩ := cfgIpv4ArrayGetNext_of_lt h
      have hall : ∀ b ∈ connBlocks, allocAll b = true := fun _ _ => rfl
      exact ⟨_, 0, cltMgrConnTryCreate_made hcheck hpace hall rfl hnext, hdst, fun _ _ => rfl⟩
    · refine ⟨m, -1, ?_, h, fun _ hp => absurd hp hpace⟩
      simp [cltMgrConnTryCreate, hcheck, hpace]
  · refine ⟨m, -1, ?_, h, fun hc => absurd hc hcheck⟩
    simp [cltMgrConnTryCreate, hcheck]

theorem cltMgrBurst_total (fuel : ℕ) :
    ∀ (i : ℤ) (j : ℕ) {m : CltMgr}, m.AddressOk →
      ∃ m', cltMgrBurst (fun _ => allocAll) fuel i j m = some m' := by
  induction fuel with
  | zero => exact fun _ _ m _ => ⟨m, rfl⟩
  | succ fuel ih =>
      intro i j m h
      obtain ⟨m₁, rc, htry, haddr, -⟩ := cltMgrConnTryCreate_total h
      simp only [cltMgrBurst, htry, Option.bind_eq_bind, Option.bind_some]
      split
      · split
        · exact ⟨m₁, rfl⟩
        · exact ih _ _ haddr
      · exact ⟨m, rfl⟩

theorem Burst.connCount_le {s s' : Ledger} {k : ℕ} (h : Burst s k s') :
    s.stats.connCount ≤ s'.stats.connCount := by
  induction h with
  | opened _ _ _ ih => exact (Nat.le_succ _).trans ih
  | _ => exact le_refl _

/-- The connection loop opens a connection when its first attempt is admitted. -/
theorem cltMgrBurst_opens {m : CltMgr} (fuel : ℕ) {i : ℤ} (hroster : m.ledger.RosterOk)
    (haddr : m.AddressOk) (hi : i < m.cfg.targetNconn) (hburst : 0 ≤ m.cfg.burstConn)
    (hcheck : cltMgrCheckCreateConn m = true) (hpace : m.pacerCheck = true) :
    ∃ m', cltMgrBurst (fun _ => allocAll) (fuel + 1) i 0 m = some m' ∧
      1 ≤ m'.stats.connCount := by
  obtain ⟨m₁, rc, htry, haddr₁, hrc⟩ := cltMgrConnTryCreate_total haddr
  obtain rfl : rc = 0 := hrc hcheck hpace
  have hids := RosterOk.ne_nextId hroster
  have hroster₁ := (cltMgrConnTryCreate_tryOpen hids htry).rosterOk hroster
  obtain ⟨m', hrest⟩ := cltMgrBurst_total fuel (i + 1) 1 haddr₁
  refine ⟨m', ?_, ?_⟩
  · simp [cltMgrBurst, hi, hburst, htry, hrest]
  · obtain ⟨-, ⟨hfail, -⟩ | ⟨-, -, -, hledger⟩⟩ := cltMgrConnTryCreate_spec hids htry
    · cases hfail
    · obtain ⟨-, k, -, hmore⟩ := cltMgrBurst_burst hroster₁ hrest
      have hle := hmore.connCount_le
      rw [hledger] at hle
      have hone : 1 ≤ m.ledger.openOne.stats.connCount := Nat.le_add_left 1 _
      exact hone.trans hle

/-- The manager after the pacer's update at the start of a tick. -/
def CltMgr.paced (m : CltMgr) : CltMgr :=
  if m.cfg.targetRequestRate > 0 then
    { m with pacer := cltMgrReqratePacerUpdate m.cfg.targetRequestRate m.pacer }
  else m

theorem CltMgr.paced_eq (m : CltMgr) : ∃ p, m.paced = { m with pacer := p } := by
  unfold CltMgr.paced
  split
  · exact ⟨_, rfl⟩
  · exact ⟨m.pacer, rfl⟩

theorem cltMgrTimer_of_burst {ok : ℕ → AllocOk} {m m₁ : CltMgr}
    (hstate : m.mgrState = .running)
    (hburst : cltMgrBurst ok (m.cfg.burstConn + 1).toNat m.stats.nconn 0 m.paced =
      some m₁) :
    ∃ m', cltMgrTimer ok m = some m' ∧ m'.stats = m₁.stats := by
  have hrunning : ∃ m₂, cltMgrTimerStateRunning ok m = some m₂ ∧ m₂.stats = m₁.stats := by
    have hbody : cltMgrTimerStateRunning ok m = do
        let m ← cltMgrBurst ok (m.paced.cfg.burstConn + 1).toNat m.paced.stats.nconn 0 m.paced
        if cltMgrCheckFinished m then return cltMgrStateSetWaiting m
        else return m := rfl
    obtain ⟨p, hp⟩ := m.paced_eq
    have hsame : m.paced.cfg = m.cfg ∧ m.paced.stats = m.stats := by
      rw [hp]
      exact ⟨rfl, rfl⟩
    rw [hbody, hsame.1, hsame.2, hburst]
    simp only [Option.bind_eq_bind, Option.bind_some]
    split
    · exact ⟨_, rfl, rfl⟩
    · exact ⟨_, rfl, rfl⟩
  obtain ⟨m₂, hm₂, hstats⟩ := hrunning
  simp only [cltMgrTimer, hstate, hm₂, Option.bind_eq_bind, Option.bind_some]
  split
  · exact ⟨_, rfl, hstats⟩
  · exact ⟨_, rfl, hstats⟩

/-- A tick in `RUNNING` opens a connection when the limits and the pacer let its
first attempt pass. -/
theorem tick_opens {m : CltMgr} (hm : CltMgrOk m) (hstate : m.mgrState = .running)
    (htimer : m.tTimerev.pending = true) (haddr : m.AddressOk) (hburst : 0 ≤ m.cfg.burstConn)
    (hopen : m.ledger.MayOpen) (hpace : m.paced.pacerCheck = true) :
    ∃ m', cltMgrStep (.timer fun _ => allocAll) m = some m' ∧ 1 ≤ m'.stats.connCount := by
  let m₀ : CltMgr := { m with tTimerev := ⟨false⟩ }
  have hpaced : ∃ p, m₀.paced = { m₀ with pacer := p } ∧
      cltMgrReqratePacerCheck m.cfg.targetRequestRate p = true := by
    by_cases hrate : m.cfg.targetRequestRate > 0
    · rw [CltMgr.paced, if_pos hrate] at hpace
      exact ⟨_, if_pos hrate, hpace⟩
    · rw [CltMgr.paced, if_neg hrate] at hpace
      exact ⟨_, if_neg hrate, hpace⟩
  obtain ⟨p, hp, hcheck⟩ := hpaced
  have hroster : ({ m₀ with pacer := p } : CltMgr).ledger.RosterOk := hm.roster
  have hfuel : (m.cfg.burstConn + 1).toNat = m.cfg.burstConn.toNat + 1 := by omega
  obtain ⟨m₁, hm₁, hcount⟩ := cltMgrBurst_opens (m := { m₀ with pacer := p })
    m.cfg.burstConn.toNat (i := m.stats.nconn) hroster haddr hopen.2.2 hburst
    (cltMgrCheckCreateConn_eq_true.mpr hopen) hcheck
  have hrest : cltMgrBurst (fun _ => allocAll) (m₀.cfg.burstConn + 1).toNat m₀.stats.nconn 0
      m₀.paced = some m₁ := by
    rw [hp]
    rw [← hfuel] at hm₁
    exact hm₁
  obtain ⟨m', htick, hstats⟩ := cltMgrTimer_of_burst (m := m₀) hstate hrest
  refine ⟨m', ?_, hstats ▸ hcount⟩
  rw [cltMgrStep, if_pos htimer]
  exact htick

/-- The pacer admits a request in its first interval at one request per interval
or more. -/
theorem pacerCheck_first_interval {rate : ℤ} (hrate : 100 ≤ rate) (hint : IsInt32 rate) :
    cltMgrReqratePacerCheck rate (cltMgrReqratePacerUpdate rate Pacer.zero) = true := by
  have hmax := (isInt32_iff.mp hint).2
  have hproduct := isInt32_iff.mp (isInt32_int32 (rate * reqrateFixedMult))
  have hshare : -21474836 ≤ pacerShare rate ∧ pacerShare rate ≤ 21474836 :=
    tdiv_bounds (by decide) (by decide) (by simp only [reqrateInt]; omega)
      (by simp only [reqrateInt]; omega)
  have hzero : int32 (Pacer.zero.requestRateError -
      int32 (Pacer.zero.requestCountCur * reqrateFixedMult)) = 0 := by decide
  have hfits : IsInt32 (0 + pacerShare rate) := by
    rw [isInt32_iff]
    omega
  have hneg : IsInt32 (-pacerShare rate) := by
    rw [isInt32_iff]
    omega
  have hclamp : 0 ≤ pacerClamp (pacerShare rate) (0 + pacerShare rate) ∧
      pacerClamp (pacerShare rate) (0 + pacerShare rate) ≤ 21474836 := by
    simp only [pacerClamp, int32_of_isInt32 hneg]
    split
    · omega
    · split
      · omega
      · omega
  rw [cltMgrReqratePacerCheck_eq_true (by omega)]
  simp only [cltMgrReqratePacerUpdate, hzero, int32_of_isInt32 hfits]
  simp only [reqrateInt, reqrateFixedMult]
  rw [Int.tdiv_eq_ediv_of_nonneg (by omega), Int.tdiv_eq_ediv_of_nonneg hclamp.1]
  have htarget : IsInt32 (rate / 100 +
      pacerClamp (pacerShare rate) (0 + pacerShare rate) / 1000) := by
    rw [isInt32_iff]
    omega
  rw [int32_of_isInt32 htarget]
  omega

/-- A manager that its limits let connect opens a connection in its first tick. -/
theorem exists_connected {cfg : MgrConfig} (hnconn : 0 < cfg.targetNconn)
    (hburst : 0 ≤ cfg.burstConn) (htotal : cfg.targetTotalNconnCount ≤ 0)
    (hrate : cfg.targetRequestRate < 0 ∨ 100 ≤ cfg.targetRequestRate)
    (hint : IsInt32 cfg.targetRequestRate)
    (haddr : cfg.ipv4Dst.cur < cfg.ipv4Dst.ipv4.length) :
    ∃ m, (cltMgrSystem cfg).Reachable m ∧ 1 ≤ m.stats.connCount := by
  have hinit : ∃ running : Event, (cltMgrSystem cfg).init =
      { cltMgrSetup cfg with
        mgrState := .running
        tTimerev := ⟨true⟩
        tStatTimerev := ⟨true⟩
        tRunningTimerev := running } := by
    unfold cltMgrSystem cltMgrStart cltMgrSetRunningTimer
    split
    · exact ⟨⟨false⟩, rfl⟩
    · exact ⟨⟨true⟩, rfl⟩
  have hm := cltMgrOk_init cfg
  obtain ⟨running, hinit⟩ := hinit
  have hopen : (cltMgrSystem cfg).init.ledger.MayOpen := by
    rw [hinit]
    exact ⟨Or.inl rfl, fun hlimit => absurd hlimit (not_lt.mpr htotal), hnconn⟩
  have hpace : (cltMgrSystem cfg).init.paced.pacerCheck = true := by
    rw [hinit, CltMgr.paced]
    rcases hrate with hnone | hrate
    · rw [if_neg (by simp only [cltMgrSetup]; omega)]
      simp [CltMgr.pacerCheck, cltMgrSetup, cltMgrReqratePacerCheck, hnone]
    · rw [if_pos (by simp only [cltMgrSetup]; omega)]
      exact pacerCheck_first_interval hrate hint
  obtain ⟨m', htick, hcount⟩ := tick_opens hm (by rw [hinit]) (by rw [hinit])
    (by rw [hinit]; exact haddr) (by rw [hinit]; exact hburst) hopen hpace
  exact ⟨m', (System.Reachable.init (cltMgrSystem cfg)).step
    (e := .timer fun _ => allocAll) htick, hcount⟩

/-! ## The program -/

theorem connCount_le_share {cfg : MgrConfig} (hthreads : 1 ≤ cfg.numThreads)
    (hlimit : cfg.numThreads ≤ cfg.targetTotalNconnCount) {m : CltMgr}
    (h : (cltMgrSystem (workerConfig cfg)).Reachable m) :
    (m.stats.connCount : ℤ) ≤ cfg.targetTotalNconnCount.tdiv cfg.numThreads := by
  have haccounts : Accounts _ _ _ _ _ := accountsOk_of_reachable h
  have htotal := haccounts.total
  rw [limits_of_reachable h] at htotal
  have hshare := workerConfig_targetTotalNconnCount hthreads (by omega)
  have hpos : 1 ≤ cfg.targetTotalNconnCount.tdiv cfg.numThreads :=
    (le_tdiv_iff (by omega) (by decide)).mpr (by omega)
  have hcap : (m.stats.connCount : ℤ) ≤ (workerConfig cfg).targetTotalNconnCount :=
    htotal (by simp only [MgrConfig.limits, hshare]; omega)
  rw [hshare] at hcap
  exact hcap

theorem blocked_of_not_canConnect {cfg : MgrConfig} (hthreads : 1 ≤ cfg.numThreads)
    (h : ¬ CanConnect cfg) : (workerConfig cfg).limits.Blocked := by
  have hpos : 0 < cfg.numThreads := by omega
  have hnconn := le_tdiv_iff (k := 1) (a := cfg.targetNconn) hpos (by decide)
  have hburst := tdiv_neg_iff (a := cfg.burstConn) hpos
  have hrate := divvy_neg_iff (a := cfg.targetRequestRate) hpos
  have hrate' := le_divvy_iff (k := 100) (a := cfg.targetRequestRate) hpos (by decide)
  simp only [Limits.Blocked, MgrConfig.limits, workerConfig_targetNconn hthreads,
    workerConfig_burstConn hthreads, workerConfig_targetRequestRate hthreads]
  unfold CanConnect at h
  omega

theorem exists_worker_connected {cfg : MgrConfig} (hthreads : 1 ≤ cfg.numThreads)
    (hlimit : 0 < cfg.targetTotalNconnCount)
    (hshort : cfg.targetTotalNconnCount < cfg.numThreads)
    (hint : IsInt32 cfg.targetRequestRate) (hhost : cfg.ipv4Dst.ipv4 ≠ [])
    (h : CanConnect cfg) :
    ∃ m, (cltMgrSystem (workerConfig cfg)).Reachable m ∧ 1 ≤ m.stats.connCount := by
  have hpos : 0 < cfg.numThreads := by omega
  obtain ⟨hnconn, hburst, hrate⟩ := h
  have hint' := isInt32_iff.mp hint
  apply exists_connected
  · rw [workerConfig_targetNconn hthreads]
    have hshare := (le_tdiv_iff (k := 1) hpos (by decide)).mpr (by omega : 1 * _ ≤ cfg.targetNconn)
    omega
  · rw [workerConfig_burstConn hthreads]
    have hshare := tdiv_neg_iff (a := cfg.burstConn) hpos
    omega
  · rw [workerConfig_targetTotalNconnCount hthreads hlimit]
    have hshare := le_tdiv_iff (k := 1) (a := cfg.targetTotalNconnCount) hpos (by decide)
    omega
  · rw [workerConfig_targetRequestRate hthreads, divvy_neg_iff hpos,
      le_divvy_iff hpos (by decide)]
    exact hrate
  · rw [workerConfig_targetRequestRate hthreads, isInt32_iff]
    have hneg := divvy_neg_iff (a := cfg.targetRequestRate) hpos
    have hle := divvy_le (a := cfg.targetRequestRate) (n := cfg.numThreads)
    by_cases hunset : cfg.targetRequestRate < 0
    · have hsame : divvy cfg.targetRequestRate cfg.numThreads = cfg.targetRequestRate :=
        if_neg (by omega)
      omega
    · omega
  · exact List.length_pos_iff.mpr hhost

/-- The connections opened by all workers stay within the limit in every run
exactly when there is at least one connection for each thread, or when no worker
can open a connection at all. -/
theorem total_connection_cap_iff {cfg : MgrConfig} (hthreads : 1 ≤ cfg.numThreads)
    (hlimit : 0 < cfg.targetTotalNconnCount) (hint : IsInt32 cfg.targetRequestRate)
    (hhost : cfg.ipv4Dst.ipv4 ≠ []) :
    (∀ s, (workers cfg).Reachable s → (totalConnCount s : ℤ) ≤ cfg.targetTotalNconnCount) ↔
      cfg.numThreads ≤ cfg.targetTotalNconnCount ∨ ¬ CanConnect cfg := by
  have hn : (cfg.numThreads.toNat : ℤ) = cfg.numThreads := by omega
  constructor
  · intro hcap
    by_contra hnot
    obtain ⟨hshort, hconnect⟩ := not_or.mp hnot
    obtain ⟨m, hm, hcount⟩ := exists_worker_connected hthreads hlimit (not_le.mp hshort) hint
      hhost (not_not.mp hconnect)
    have hall : (workers cfg).Reachable fun _ => m :=
      System.interleave_reachable_iff.mpr fun _ => hm
    have htotal := hcap _ hall
    have hsum : totalConnCount (fun _ : Fin cfg.numThreads.toNat => m) =
        cfg.numThreads.toNat * m.stats.connCount := by
      simp [totalConnCount]
    have hle : cfg.numThreads.toNat ≤ cfg.numThreads.toNat * m.stats.connCount :=
      Nat.le_mul_of_pos_right _ hcount
    omega
  · rintro (hroom | hblocked) s hs
    · have hshare : ∀ i, (s i).stats.connCount ≤
          (cfg.targetTotalNconnCount.tdiv cfg.numThreads).toNat := by
        intro i
        have hle := connCount_le_share hthreads hroom
          (System.interleave_component_reachable hs i)
        omega
      have hsum : totalConnCount s ≤ cfg.numThreads.toNat *
          (cfg.targetTotalNconnCount.tdiv cfg.numThreads).toNat := by
        have hle := Finset.sum_le_card_nsmul Finset.univ (fun i => (s i).stats.connCount) _
          fun i _ => hshare i
        simpa [totalConnCount] using hle
      have hwhole : cfg.numThreads * cfg.targetTotalNconnCount.tdiv cfg.numThreads ≤
          cfg.targetTotalNconnCount := by
        rw [Int.tdiv_eq_ediv_of_nonneg hlimit.le]
        exact Int.mul_ediv_self_le (by omega)
      have hnonneg : 0 ≤ cfg.targetTotalNconnCount.tdiv cfg.numThreads :=
        Int.tdiv_nonneg hlimit.le (by omega)
      have hcast : ((cfg.numThreads.toNat *
          (cfg.targetTotalNconnCount.tdiv cfg.numThreads).toNat : ℕ) : ℤ) =
          cfg.numThreads * cfg.targetTotalNconnCount.tdiv cfg.numThreads := by
        rw [Nat.cast_mul, hn, Int.toNat_of_nonneg hnonneg]
      omega
    · have hnone : totalConnCount s = 0 := by
        refine Finset.sum_eq_zero fun i _ => ?_
        exact connCount_of_blocked (blocked_of_not_canConnect hthreads hblocked)
          (System.interleave_component_reachable hs i)
      omega

/-- Two workers that share a limit of one connection both open one. -/
theorem total_connection_cap_exceeded :
    ∃ s, (workers { oneHostConfig with numThreads := 2, targetTotalNconnCount := 1 }).run
        [(⟨0, by decide⟩, .timer fun _ => allocAll),
          (⟨1, by decide⟩, .timer fun _ => allocAll)] = some s ∧
      totalConnCount s = 2 :=
  ⟨_, rfl, rfl⟩

/-- Two workers that share a limit of two connections open one each. -/
theorem total_connection_cap_two_workers :
    ∃ s, (workers { oneHostConfig with numThreads := 2, targetTotalNconnCount := 2 }).run
        [(⟨0, by decide⟩, .timer fun _ => allocAll),
          (⟨1, by decide⟩, .timer fun _ => allocAll)] = some s ∧
      (totalConnCount s : ℤ) ≤ 2 := by
  have hrun : ∃ s, (workers { oneHostConfig with numThreads := 2, targetTotalNconnCount := 2 }).run
        [(⟨0, by decide⟩, .timer fun _ => allocAll),
          (⟨1, by decide⟩, .timer fun _ => allocAll)] = some s := ⟨_, rfl⟩
  obtain ⟨s, hs⟩ := hrun
  have hcap := (total_connection_cap_iff (by decide) (by decide) (by decide) (by decide)).mpr
    (Or.inl (by decide)) s ⟨_, hs⟩
  exact ⟨s, hs, hcap⟩

end EvhtpHttp.Client

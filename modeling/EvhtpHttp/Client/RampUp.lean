import EvhtpHttp.Client.BurstLimit
import EvhtpHttp.Client.Program
import EvhtpHttp.Client.Shutdown
import EvhtpHttp.Support.Potential

/-!
# How the pool fills

A manager without a request rate opens connections as fast as `burst_conn` lets
it: a tick in `RUNNING` fills the pool by `burst_conn + 1` connections, or up to
`target_nconn`.  From any moment on, the pool is as full as the ticks make it,
less the connections destroyed since.
-/

namespace EvhtpHttp.Client

open EvhtpHttp.Support

/-! ## One tick -/

/-- The connections that one tick can open. -/
def MgrConfig.burst (cfg : MgrConfig) : ℤ :=
  max (cfg.burstConn + 1) 0

theorem MgrConfig.burst_nonneg (cfg : MgrConfig) : 0 ≤ cfg.burst :=
  le_max_right _ _

/-- All allocations for a connection succeed in every iteration of a tick. -/
def Plenty (ok : ℕ → AllocOk) : Prop :=
  ∀ j, ∀ b ∈ connBlocks, ok j b = true

/-- The limit on all connections has been reached. -/
def CltMgr.Exhausted (m : CltMgr) : Prop :=
  0 < m.cfg.targetTotalNconnCount ∧ m.cfg.targetTotalNconnCount ≤ m.stats.connCount

section Tick

variable {ok : ℕ → AllocOk} {m m' : CltMgr}

/-- Without a request rate an attempt with enough memory fails only where a limit on
the connections is reached. -/
theorem attemptSucceeds_of_plenty (hrate : m.cfg.targetRequestRate < 0) (hok : Plenty ok) (j : ℕ)
    (hroom : m.stats.nconn < m.cfg.targetNconn) (htotal : ¬ m.Exhausted) :
    AttemptSucceeds (ok j) m 0 where
  room := by simpa using hroom
  total hpos := by
    have hbelow := not_and.mp htotal hpos
    simpa using not_le.mp hbelow
  pace := if_pos hrate
  alloc := hok j

theorem tryCreate_of_exhausted (h : m.Exhausted) (ok : AllocOk) :
    cltMgrConnTryCreate ok m = some (m, -1) := by
  have hcheck : cltMgrCheckCreateConn m = false := by
    simp [cltMgrCheckCreateConn, h.1, h.2]
  simp [cltMgrConnTryCreate, hcheck]

/-- The loop fills the pool as far as it goes, if it is not stopped by the limit on all
connections. -/
theorem cltMgrBurst_fills (hok : Plenty ok) {fuel : ℕ} :
    ∀ {j : ℕ} {m m' : CltMgr}, m.mgrState = .running → m.cfg.targetRequestRate < 0 →
      (j : ℤ) + fuel = m.cfg.burstConn + 1 →
      cltMgrBurst ok fuel m.stats.nconn j m = some m' → ¬ m'.Exhausted →
        m'.stats.nconn = min (m.stats.nconn + fuel) (max m.stats.nconn m.cfg.targetNconn) := by
  induction fuel with
  | zero =>
      intro j m m' _ _ _ h _
      cases h
      simp
  | succ fuel ih =>
      intro j m m' hstate hrate hj h hlimit
      have hmore : (j : ℤ) ≤ m.cfg.burstConn := by
        push_cast at hj
        omega
      obtain ⟨hend, hsame⟩ | ⟨⟨hroom, -⟩, m₁, rc, htry, hrest⟩ := cltMgrBurst_succ_eq_some h
      · have hfull : ¬ m.stats.nconn < m.cfg.targetNconn := fun hroom => hend ⟨hroom, hmore⟩
        rw [hsame]
        push_cast
        omega
      have hopen : ¬ m.Exhausted := by
        intro hexhausted
        rw [tryCreate_of_exhausted hexhausted] at htry
        obtain ⟨rfl, rfl⟩ := Prod.mk.inj (Option.some.inj htry)
        obtain ⟨-, rfl⟩ := hrest.resolve_right fun hmore => hmore.1 (by decide)
        exact hlimit hexhausted
      have hfirst := attemptSucceeds_of_plenty hrate hok j hroom hopen
      obtain ⟨-, rfl, hopened⟩ := (cltMgrConnTryCreate_cases hstate htry).resolve_right
        fun hfailed => hfailed.1 hfirst
      obtain ⟨-, h⟩ := hrest.resolve_left fun hstop => absurd hstop.1 (by decide)
      rw [← hopened.nconn] at h
      have hburst : m₁.cfg.burstConn = m.cfg.burstConn :=
        congrArg Limits.burstConn hopened.limits
      have htarget : m₁.cfg.targetNconn = m.cfg.targetNconn :=
        congrArg Limits.targetNconn hopened.limits
      have hrate₁ : m₁.cfg.targetRequestRate = m.cfg.targetRequestRate :=
        congrArg Limits.targetRequestRate hopened.limits
      have hfills := ih (hopened.state.trans hstate) (by rw [hrate₁]; exact hrate)
        (by rw [hburst]; push_cast at hj ⊢; omega) h hlimit
      rw [hfills, hopened.nconn, htarget]
      push_cast
      omega

theorem cltMgrTimerStateRunning_fills (hrate : m.cfg.targetRequestRate < 0) (hok : Plenty ok)
    (hstate : m.mgrState = .running) (h : cltMgrTimerStateRunning ok m = some m')
    (hstate' : m'.mgrState = .running) :
    m'.stats.nconn = min (m.stats.nconn + m.cfg.burst) (max m.stats.nconn m.cfg.targetNconn) := by
  obtain ⟨p, m₂, -, hburst, rfl⟩ := cltMgrTimerStateRunning_eq_some h
  have hopen : cltMgrCheckFinished m₂ ≠ true := by
    intro hfinished
    rw [if_pos hfinished] at hstate'
    exact absurd hstate' (by simp [cltMgrStateSetWaiting, cltMgrStateChange, cltMgrWaitingSchedule])
  rw [if_neg hopen, MgrConfig.burst]
  by_cases hneg : m.cfg.burstConn + 1 < 0
  · have hnone : (m.cfg.burstConn + 1).toNat = 0 := by omega
    rw [hnone] at hburst
    obtain rfl := Option.some.inj hburst
    simp only
    omega
  · have hlimit : ¬ m₂.Exhausted := fun hexhausted =>
      hopen (cltMgrCheckFinished_eq_true.mpr (Or.inr hexhausted))
    have hfuel : ((0 : ℕ) : ℤ) + (m.cfg.burstConn + 1).toNat = m.cfg.burstConn + 1 := by omega
    have hfills := cltMgrBurst_fills hok (m := { m with pacer := p }) hstate hrate hfuel hburst
      hlimit
    rw [hfills]
    simp only
    omega

theorem tick_fills (hrate : m.cfg.targetRequestRate < 0) (hok : Plenty ok)
    (hstate : m.mgrState = .running) (h : cltMgrStep (.timer ok) m = some m')
    (hstate' : m'.mgrState = .running) :
    m'.stats.nconn = min (m.stats.nconn + m.cfg.burst) (max m.stats.nconn m.cfg.targetNconn) := by
  simp only [cltMgrStep] at h
  obtain ⟨-, h⟩ := Option.ite_none_right_eq_some.mp h
  simp only [cltMgrTimer, hstate, Option.bind_eq_bind] at h
  obtain ⟨m₁, hrun, h⟩ := Option.bind_eq_some_iff.mp h
  have hsame : m'.stats = m₁.stats ∧ m'.mgrState = m₁.mgrState := by
    split at h
    · obtain rfl := Option.some.inj h
      exact ⟨rfl, rfl⟩
    · obtain rfl := Option.some.inj h
      exact ⟨rfl, rfl⟩
  set m₀ : CltMgr := { m with tTimerev := ⟨false⟩ } with hdef
  have hrun₀ : cltMgrTimerStateRunning ok m₀ = some m₁ := by
    simpa only [hdef, hstate] using hrun
  rw [hsame.2] at hstate'
  rw [hsame.1]
  exact cltMgrTimerStateRunning_fills (m := m₀) hrate hok hstate hrun₀ hstate'

end Tick

theorem Burst.nconn_le {s s' : Ledger} {k : ℕ} (h : Burst s k s') :
    s'.stats.nconn ≤ s.stats.nconn + k := by
  induction h with
  | done => simp
  | failed => simp [Ledger.openFailed]
  | opened _ _ _ ih =>
      simp only [Ledger.openOne] at ih
      push_cast
      omega

/-! ## Runs -/

/-- The periodic timer. -/
def LoopEvent.isTick : LoopEvent → Bool
  | .timer _ => true
  | _ => false

/-- The end of a connection, after which another may be opened. -/
def LoopEvent.isClose : LoopEvent → Bool
  | .close _ _ _ _ => true
  | _ => false

/-- The deferred event that frees a connection. -/
def LoopEvent.isDestroy : LoopEvent → Bool
  | .connDestroy _ _ _ => true
  | _ => false

section Run

variable {cfg : MgrConfig} {m m' : CltMgr} {e : LoopEvent}

theorem running_of_step (hm : (cltMgrSystem cfg).Reachable m) (h : cltMgrStep e m = some m')
    (hstate' : m'.mgrState = .running) : m.mgrState = .running := by
  by_contra hstate
  obtain ⟨-, hstep⟩ := cltMgrStep_refines (cltMgrOk_of_reachable hm) h
  exact (hstep.onlyDrains (phaseOk_of_reachable hm) hstate).2 hstate'

theorem nconn_add_gone (hm : (cltMgrSystem cfg).Reachable m) :
    m.stats.nconn + m.ledger.gone.length = m.stats.connCount := by
  have haccounts : Accounts _ _ _ _ _ := accountsOk_of_reachable hm
  have hnconn : m.stats.nconn = m.ledger.conns.length := haccounts.nconn
  have hopened : m.stats.connCount = m.ledger.conns.length + m.ledger.gone.length :=
    haccounts.opened
  omega

theorem nconn_le_of_step (hm : (cltMgrSystem cfg).Reachable m) (h : cltMgrStep e m = some m') :
    m.stats.nconn ≤ m'.stats.nconn + if e.isDestroy then 1 else 0 := by
  have hm' : (cltMgrSystem cfg).Reachable m' := hm.step h
  obtain ⟨-, hstep⟩ := cltMgrStep_refines (cltMgrOk_of_reachable hm) h
  have hcount : m.stats.connCount ≤ m'.stats.connCount :=
    (countersLe_iff.mp hstep.advances.counters).2.1
  have hgone := congrArg List.length hstep.gone_ids
  rw [List.length_append, List.length_map, List.length_map] at hgone
  have hdestroyed : (e.destroyed.toList.length : ℤ) = if e.isDestroy then 1 else 0 := by
    cases e <;> rfl
  have hbefore := nconn_add_gone hm
  have hafter := nconn_add_gone hm'
  omega

theorem LedgerStep.nconn_le {s s' : Ledger} (h : LedgerStep e s s')
    (hlimits : s.limits = cfg.limits) :
    s'.stats.nconn ≤ s.stats.nconn + ((if e.isTick then cfg.burst else 0) +
      if e.isClose then 1 else 0) := by
  have htry : ∀ {s s' : Ledger}, TryOpen s s' → s'.stats.nconn ≤ s.stats.nconn + 1 := by
    intro s s' htry
    cases htry with
    | refused => omega
    | failed => simp [Ledger.openFailed]
    | opened => simp [Ledger.openOne]
  have hclosed : ∀ pre c post o p, (s.closeConn pre c post o p).stats.nconn = s.stats.nconn := by
    intro pre c post o p
    rw [Ledger.closeConn, Outcome.count_eq]
    rfl
  cases h with
  | completeNext => rw [countOk_eq]; simp [LoopEvent.isTick, LoopEvent.isClose]
  | completeLast => rw [countOk_eq]; simp [LoopEvent.isTick, LoopEvent.isClose]
  | connTimeout => simp [LoopEvent.isTick, LoopEvent.isClose, Outcome.count]
  | @close _ _ pre post c cause order ok o p _ _ _ _ hopened =>
      have hone := htry hopened
      rw [hclosed] at hone
      simpa [LoopEvent.isTick, LoopEvent.isClose] using hone
  | destroyOpen _ _ _ hopened =>
      have hone := htry hopened
      rw [hclosed] at hone
      simp only [LoopEvent.isTick, LoopEvent.isClose, Ledger.freeConn]
      simp only [Bool.false_eq_true, if_false]
      omega
  | @tickRunning _ s₁ ok k _ _ hk hburst =>
      have hcount := hburst.nconn_le
      obtain ⟨p, hp⟩ := s.paced_eq
      obtain ⟨state, timers, hend⟩ := Ledger.tickEnd_rearm_eq s₁
      have hsame : s.limits.burstConn = cfg.burstConn := congrArg Limits.burstConn hlimits
      have hbound : cfg.burst = max (cfg.burstConn + 1) 0 := rfl
      rw [hp] at hcount
      have hcount' : s₁.stats.nconn ≤ s.stats.nconn + k := hcount
      rw [hsame] at hk
      rw [hend]
      simp only [LoopEvent.isTick, LoopEvent.isClose, if_true, Bool.false_eq_true, if_false]
      omega
  | _ =>
      simp [LoopEvent.isTick, LoopEvent.isClose, Ledger.toWaiting, Ledger.toCleanup,
        Ledger.freeConn, MgrConfig.burst_nonneg]

/-- One event, with enough memory, fills the pool by what it can, and drains it by what
it destroys. -/
theorem refill_step (hrate : cfg.targetRequestRate < 0)
    (hok : ∀ ok, e = .timer ok → Plenty ok) (hm : (cltMgrSystem cfg).Reachable m)
    (h : cltMgrStep e m = some m') (hstate' : m'.mgrState = .running) :
    min (max cfg.targetNconn 0) (m.stats.nconn + if e.isTick then cfg.burst else 0) ≤
      m'.stats.nconn + if e.isDestroy then 1 else 0 := by
  have hdrains := nconn_le_of_step hm h
  have hnonneg := (sound_of_reachable hm).nonneg
  cases e with
  | timer ok =>
      have hlimits : m.cfg.limits = cfg.limits := limits_of_reachable hm
      have htarget : m.cfg.targetNconn = cfg.targetNconn := congrArg Limits.targetNconn hlimits
      have hburst : m.cfg.burst = cfg.burst :=
        congrArg (fun l : Limits => max (l.burstConn + 1) 0) hlimits
      have hrate' : m.cfg.targetRequestRate < 0 := by
        rw [show m.cfg.targetRequestRate = cfg.targetRequestRate from
          congrArg Limits.targetRequestRate hlimits]
        exact hrate
      have hfills := tick_fills hrate' (hok ok rfl) (running_of_step hm h hstate') h hstate'
      rw [hfills, htarget, hburst]
      simp only [LoopEvent.isTick, LoopEvent.isDestroy, if_true, Bool.false_eq_true, if_false]
      omega
  | _ =>
      simp only [LoopEvent.isTick, Bool.false_eq_true, if_false] at hdrains ⊢
      omega

/-- From any moment of a run without a request rate, as long as the manager stays in
`RUNNING` and its ticks find memory, the pool is as full as the ticks make it, a burst
each as far as `target_nconn`, less the connections destroyed since, and no fuller than
that but for the connections that replace those that ended. -/
theorem pool_refills (hrate : cfg.targetRequestRate < 0)
    (hm : (cltMgrSystem cfg).Reachable m) {es : List LoopEvent}
    (h : (cltMgrSystem cfg).runFrom es m = some m') (hstate' : m'.mgrState = .running)
    (hok : ∀ ok, .timer ok ∈ es → Plenty ok) :
    min (max cfg.targetNconn 0) (m.stats.nconn + es.countP LoopEvent.isTick * cfg.burst) ≤
        m'.stats.nconn + es.countP LoopEvent.isDestroy ∧
      m'.stats.nconn ≤ min (max cfg.targetNconn 0)
        (m.stats.nconn + es.countP LoopEvent.isTick * cfg.burst +
          es.countP LoopEvent.isClose) := by
  constructor
  · have hrefill := (System.refill_le (T := cltMgrSystem cfg)
      (P := (cltMgrSystem cfg).Reachable) (Q := fun m => m.mgrState = .running)
      (x := fun m => m.stats.nconn) (b := max cfg.targetNconn 0)
      (g := fun e => if e.isTick then cfg.burst else 0)
      (c := fun e => if e.isDestroy then 1 else 0) ?_ ?_ ?_ hm h hstate').2
    · rw [sum_map_ite, sum_map_ite, Int.mul_one] at hrefill
      exact hrefill
    · intro e
      have hburst := cfg.burst_nonneg
      split <;> omega
    · intro e
      split <;> omega
    · intro m e he m' hm hstep
      refine ⟨hm.step hstep, fun hstate' => ⟨running_of_step hm hstep hstate', ?_⟩⟩
      exact refill_step hrate (fun ok hok' => hok ok (hok' ▸ he)) hm hstep hstate'
  · have hraise := (System.potential_le (T := cltMgrSystem cfg)
      (P := (cltMgrSystem cfg).Reachable) (V := fun m => m.stats.nconn)
      (w := fun e _ => (if e.isTick then cfg.burst else 0) + if e.isClose then 1 else 0)
      ?_ hm h).2
    · rw [System.sumFrom_event h, List.sum_map_add, sum_map_ite, sum_map_ite, Int.mul_one] at hraise
      have hcap := (sound_of_reachable (hm.runFrom h)).le_bound
      omega
    · intro m e m' hm hstep
      refine ⟨hm.step hstep, ?_⟩
      obtain ⟨-, hledger⟩ := cltMgrStep_refines (cltMgrOk_of_reachable hm) hstep
      exact hledger.nconn_le (limits_of_reachable hm)

/-- With the defaults the first two ticks open two connections each. -/
theorem pool_refills_two_ticks :
    ∃ m, (cltMgrSystem oneHostConfig).run
        [.timer fun _ => allocAll, .statTimer, .timer fun _ => allocAll] = some m ∧
      m.stats.nconn = 4 := by
  have hrun : ∃ m, (cltMgrSystem oneHostConfig).runFrom
      [.timer fun _ => allocAll, .statTimer, .timer fun _ => allocAll]
      (cltMgrSystem oneHostConfig).init = some m ∧ m.mgrState = .running :=
    ⟨_, rfl, rfl⟩
  obtain ⟨m, hm, hstate⟩ := hrun
  have hplenty : ∀ ok, LoopEvent.timer ok ∈
      [.timer fun _ => allocAll, .statTimer, .timer fun _ => allocAll] → Plenty ok := by
    intro ok hok
    have hsame : ok = fun _ => allocAll := by simpa using hok
    rw [hsame]
    exact fun _ _ _ => rfl
  obtain ⟨hlow, hhigh⟩ := pool_refills (by decide) (System.Reachable.init _) hm hstate hplenty
  have hstart : (cltMgrSystem oneHostConfig).init.stats.nconn = 0 := rfl
  have hburst : oneHostConfig.burst = 2 := rfl
  have htarget : oneHostConfig.targetNconn = 128 := rfl
  simp only [hstart, hburst, htarget, List.countP_cons, List.countP_nil, LoopEvent.isTick,
    LoopEvent.isDestroy, LoopEvent.isClose] at hlow hhigh
  simp only [Bool.false_eq_true, if_true, if_false] at hlow hhigh
  exact ⟨m, hm, by omega⟩

end Run

end EvhtpHttp.Client

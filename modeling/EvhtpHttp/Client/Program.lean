import EvhtpHttp.Client.ConnectionCap
import EvhtpHttp.Client.Intervals

/-!
# The whole program

The managers of all workers together with the thread that adds up what they
publish.  A worker publishes the statistics of its manager when its statistics
timer is delivered; nothing else connects a manager with the other threads.
-/

namespace EvhtpHttp.Client

open EvhtpHttp.Support

/-! ## What a manager counts -/

/-- From `s` to `t` no counter decreases, and complete responses stay counted
together with their status. -/
structure MgrStats.Advances (s t : MgrStats) : Prop where
  counters : s.CountersLe t
  balanced : s.Balanced → t.Balanced

theorem MgrStats.Advances.refl (s : MgrStats) : s.Advances s :=
  ⟨CountersLe.refl s, id⟩

theorem MgrStats.Advances.trans {s t u : MgrStats} (h : s.Advances t) (h' : t.Advances u) :
    s.Advances u :=
  ⟨h.counters.trans h'.counters, h'.balanced ∘ h.balanced⟩

theorem countersLe_iff {s t : MgrStats} : s.CountersLe t ↔
    s.nconnCreateFailed ≤ t.nconnCreateFailed ∧ s.connCount ≤ t.connCount ∧
      s.connClosingCount ≤ t.connClosingCount ∧ s.reqCount ≤ t.reqCount ∧
      s.reqCountOk ≤ t.reqCountOk ∧ s.reqCountErr ≤ t.reqCountErr ∧
      s.reqCountCreateErr ≤ t.reqCountCreateErr ∧ s.reqCountTimeout ≤ t.reqCountTimeout ∧
      s.reqStatustype200 ≤ t.reqStatustype200 ∧ s.reqStatustype302 ≤ t.reqStatustype302 ∧
      s.reqStatustypeOther ≤ t.reqStatustypeOther := by
  constructor
  · intro h
    have hcounter : ∀ f, f ≠ .nconn → s.field f ≤ t.field f := h
    exact ⟨Int.ofNat_le.mp (hcounter .nconnCreateFailed (by decide)),
      Int.ofNat_le.mp (hcounter .connCount (by decide)),
      Int.ofNat_le.mp (hcounter .connClosingCount (by decide)),
      Int.ofNat_le.mp (hcounter .reqCount (by decide)),
      Int.ofNat_le.mp (hcounter .reqCountOk (by decide)),
      Int.ofNat_le.mp (hcounter .reqCountErr (by decide)),
      Int.ofNat_le.mp (hcounter .reqCountCreateErr (by decide)),
      Int.ofNat_le.mp (hcounter .reqCountTimeout (by decide)),
      Int.ofNat_le.mp (hcounter .reqStatustype200 (by decide)),
      Int.ofNat_le.mp (hcounter .reqStatustype302 (by decide)),
      Int.ofNat_le.mp (hcounter .reqStatustypeOther (by decide))⟩
  · rintro ⟨h₁, h₂, h₃, h₄, h₅, h₆, h₇, h₈, h₉, h₁₀, h₁₁⟩ f hf
    cases f with
    | nconn => exact absurd rfl hf
    | nconnCreateFailed => exact Int.ofNat_le.mpr h₁
    | connCount => exact Int.ofNat_le.mpr h₂
    | connClosingCount => exact Int.ofNat_le.mpr h₃
    | reqCount => exact Int.ofNat_le.mpr h₄
    | reqCountOk => exact Int.ofNat_le.mpr h₅
    | reqCountErr => exact Int.ofNat_le.mpr h₆
    | reqCountCreateErr => exact Int.ofNat_le.mpr h₇
    | reqCountTimeout => exact Int.ofNat_le.mpr h₈
    | reqStatustype200 => exact Int.ofNat_le.mpr h₉
    | reqStatustype302 => exact Int.ofNat_le.mpr h₁₀
    | reqStatustypeOther => exact Int.ofNat_le.mpr h₁₁

theorem Outcome.advances (o : Outcome) (stats : MgrStats) : stats.Advances (o.count stats) := by
  cases o with
  | none => exact MgrStats.Advances.refl stats
  | err => exact ⟨by simp [countersLe_iff, Outcome.count], id⟩
  | timeout => exact ⟨by simp [countersLe_iff, Outcome.count], id⟩

theorem countOk_advances (status : ℤ) (stats : MgrStats) :
    stats.Advances (countOk status stats) := by
  unfold countOk mgrStatustypeUpdate
  split
  · refine ⟨by simp [countersLe_iff], ?_⟩
    simp only [MgrStats.Balanced]
    omega
  · split
    · refine ⟨by simp [countersLe_iff], ?_⟩
      simp only [MgrStats.Balanced]
      omega
    · refine ⟨by simp [countersLe_iff], ?_⟩
      simp only [MgrStats.Balanced]
      omega

theorem countClosing_advances (stats : MgrStats) : stats.Advances (countClosing stats) :=
  ⟨by simp [countersLe_iff, countClosing], id⟩

theorem openFailed_advances (s : Ledger) : s.stats.Advances s.openFailed.stats :=
  ⟨by simp [countersLe_iff, Ledger.openFailed], id⟩

theorem openOne_advances (s : Ledger) : s.stats.Advances s.openOne.stats :=
  ⟨by simp [countersLe_iff, Ledger.openOne], id⟩

theorem closeConn_advances (s : Ledger) (pre : List Entry) (c : Entry) (post : List Entry)
    (o : Outcome) (p : Pacer) : s.stats.Advances (s.closeConn pre c post o p).stats :=
  (o.advances s.stats).trans (countClosing_advances _)

theorem freeConn_advances (s : Ledger) (pre : List Entry) (c : Entry) (post : List Entry) :
    s.stats.Advances (s.freeConn pre c post).stats :=
  ⟨by simp [countersLe_iff, Ledger.freeConn], id⟩

theorem TryOpen.advances {s s' : Ledger} (h : TryOpen s s') : s.stats.Advances s'.stats := by
  cases h with
  | refused => exact MgrStats.Advances.refl _
  | failed => exact openFailed_advances s
  | opened => exact openOne_advances s

theorem Burst.advances {s s' : Ledger} {k : ℕ} (h : Burst s k s') :
    s.stats.Advances s'.stats := by
  induction h with
  | done => exact MgrStats.Advances.refl _
  | failed => exact openFailed_advances _
  | opened _ _ _ ih => exact (openOne_advances _).trans ih

theorem LedgerStep.advances {e : LoopEvent} {s s' : Ledger} (h : LedgerStep e s s') :
    s.stats.Advances s'.stats := by
  cases h with
  | issue => exact ⟨by simp [countersLe_iff], id⟩
  | issueFailed => exact ⟨by simp [countersLe_iff], id⟩
  | connTimeout => exact Outcome.advances .timeout s.stats
  | completeNext => exact countOk_advances _ s.stats
  | completeLast => exact countOk_advances _ s.stats
  | close _ _ _ _ htry => exact (closeConn_advances s _ _ _ _ _).trans htry.advances
  | destroyClosed => exact freeConn_advances s _ _ _
  | destroyOpen _ _ _ htry =>
      apply (closeConn_advances s _ _ _ _ _).trans
      exact htry.advances.trans (freeConn_advances _ _ _ _)
  | tickRunning _ _ _ hburst =>
      obtain ⟨p, hp⟩ := s.paced_eq
      obtain ⟨state, timers, hend⟩ := Ledger.tickEnd_rearm_eq _
      have hcounted := hburst.advances
      rw [hp] at hcounted
      rw [hend]
      exact hcounted
  | _ => exact MgrStats.Advances.refl _

theorem LedgerStep.prevStats_eq {e : LoopEvent} {s s' : Ledger} (h : LedgerStep e s s')
    (he : e ≠ .statTimer) : s'.prevStats = s.prevStats := by
  cases h with
  | close _ _ _ _ htry => rw [htry.frame]; rfl
  | destroyOpen _ _ _ htry => rw [Ledger.freeConn, htry.frame]; rfl
  | statTimer => exact absurd rfl he
  | tickRunning _ _ _ hburst =>
      obtain ⟨p, hp⟩ := s.paced_eq
      obtain ⟨state, timers, hend⟩ := Ledger.tickEnd_rearm_eq _
      rw [hend, hburst.frame, hp]
  | _ => rfl

/-- What was published is behind what is counted by now. -/
structure Ledger.CountsOk (s : Ledger) : Prop where
  accounts : s.AccountsOk
  balanced : s.stats.Balanced
  behind : s.prevStats.CountersLe s.stats

theorem countsOk_start (limits : Limits) (running : Bool) :
    (Ledger.start limits running).CountsOk :=
  ⟨accountsOk_start limits running, rfl, MgrStats.CountersLe.refl _⟩

theorem LedgerStep.countsOk {e : LoopEvent} {s s' : Ledger} (h : LedgerStep e s s')
    (hs : s.CountsOk) : s'.CountsOk := by
  have hcounted := h.advances
  refine ⟨h.accountsOk hs.accounts, hcounted.balanced hs.balanced, ?_⟩
  by_cases he : e = .statTimer
  · subst he
    cases h with
    | statTimer => exact MgrStats.CountersLe.refl _
  · rw [h.prevStats_eq he]
    exact hs.behind.trans hcounted.counters

theorem countsOk_of_reachable {cfg : MgrConfig} {m : CltMgr}
    (h : (cltMgrSystem cfg).Reachable m) : m.ledger.CountsOk :=
  ledger_invariant (countsOk_start cfg.limits) (fun _ _ _ _ _ hs hstep => hstep.countsOk hs) h

/-- The statistics of a manager never show more connections than its limit. -/
theorem sound_of_reachable {cfg : MgrConfig} {m : CltMgr}
    (h : (cltMgrSystem cfg).Reachable m) : m.stats.Sound (max cfg.targetNconn 0) := by
  have hcounts := countsOk_of_reachable h
  have haccounts : Accounts _ _ _ _ _ := hcounts.accounts
  constructor
  · have hlength : m.stats.nconn = m.ledger.conns.length := haccounts.nconn
    rw [hlength]
    exact Int.natCast_nonneg _
  · have hcap := haccounts.cap
    rw [limits_of_reachable h] at hcap
    exact hcap
  · exact hcounts.balanced

theorem cltMgrStep_prevStats {e : LoopEvent} {cfg : MgrConfig} {m m' : CltMgr}
    (hm : (cltMgrSystem cfg).Reachable m) (h : cltMgrStep e m = some m')
    (he : e ≠ .statTimer) : m'.prevStats = m.prevStats :=
  (cltMgrStep_refines (cltMgrOk_of_reachable hm) h).2.prevStats_eq he

/-! ## The program -/

/-- The managers of the workers, and what the threads share. -/
structure Program (cfg : MgrConfig) where
  mgrs : Fin cfg.numThreads.toNat → CltMgr
  app : App

/-- Which thread takes a step, a worker with the event that its loop delivers. -/
inductive ProgramEvent (n : ℕ)
  | worker (i : Fin n) (e : LoopEvent)
  | exit (i : Fin n)
  | stats
  | main

/-- The step of a thread that has no manager, and the end of one that has. -/
def ProgramEvent.thread {n : ℕ} : ProgramEvent n → Option AppEvent
  | .worker _ _ => none
  | .exit i => some (.exit i)
  | .stats => some .stats
  | .main => some .main

/-- What the thread of the manager `m` publishes at the end of an event. -/
def LoopEvent.notify (m : CltMgr) : LoopEvent → CltThr → CltThr
  | .statTimer, thr => cltMgrStatsNotify m.stats thr
  | _, thr => thr

namespace Program

variable {cfg : MgrConfig}

def start (cfg : MgrConfig) : Program cfg where
  mgrs _ := (cltMgrSystem (workerConfig cfg)).init
  app := App.start cfg.numThreads.toNat

/-- Worker `i` delivers an event to its manager. -/
def worker (i : Fin cfg.numThreads.toNat) (e : LoopEvent) (p : Program cfg) :
    Option (Program cfg) := do
  let m ← cltMgrStep e (p.mgrs i)
  let app ← p.app.worker i (e.notify m)
  return { mgrs := Function.update p.mgrs i m, app := app }

/-- A step that concerns no manager. -/
def thread (e : AppEvent) (p : Program cfg) : Option (Program cfg) := do
  let app ← (appSystem cfg.numThreads.toNat).step e p.app
  return { p with app := app }

end Program

/-- The program with the configuration `cfg`. -/
def program (cfg : MgrConfig) : System (Program cfg) (ProgramEvent cfg.numThreads.toNat) where
  init := Program.start cfg
  step
    | .worker i e, p => p.worker i e
    | .exit i, p => p.thread (.exit i)
    | .stats, p => p.thread .stats
    | .main, p => p.thread .main

/-- What other threads see of a worker is what its manager handed out last. -/
structure Program.Ok {cfg : MgrConfig} (p : Program cfg) : Prop where
  reachable : ∀ i, (cltMgrSystem (workerConfig cfg)).Reachable (p.mgrs i)
  published : ∀ (i : Fin cfg.numThreads.toNat) thr, p.app.th[i.val]? = some thr →
    thr.prevStats = (p.mgrs i).prevStats
  length : p.app.th.length = cfg.numThreads.toNat

section Steps

variable {cfg : MgrConfig} {p p' : Program cfg}

theorem programOk_start (cfg : MgrConfig) : (Program.start cfg).Ok where
  reachable _ := System.Reachable.init _
  published i thr hthr := by
    have hprev : (cltMgrSystem (workerConfig cfg)).init.prevStats = MgrStats.zero := by
      obtain ⟨running, hstart⟩ := ledger_init (workerConfig cfg)
      exact congrArg Ledger.prevStats hstart
    obtain ⟨-, rfl⟩ := List.eq_of_mem_replicate (List.mem_of_getElem? hthr)
    exact hprev.symm
  length := List.length_replicate

/-- The steps of a program: a manager handles an event that publishes nothing,
or one thread takes a step that the others see. -/
inductive ProgramStep (p : Program cfg) : ProgramEvent cfg.numThreads.toNat → Program cfg → Prop
  | manager {i : Fin cfg.numThreads.toNat} {e : LoopEvent} {m : CltMgr}
      (hm : cltMgrStep e (p.mgrs i) = some m) (he : e ≠ .statTimer) :
      ProgramStep p (.worker i e) { p with mgrs := Function.update p.mgrs i m }
  | publish {i : Fin cfg.numThreads.toNat} {m : CltMgr} {app : App}
      (hm : cltMgrStep .statTimer (p.mgrs i) = some m)
      (happ : AppStep p.app (.publish i m.stats) app) :
      ProgramStep p (.worker i .statTimer)
        { mgrs := Function.update p.mgrs i m, app := app }
  | thread {d : ProgramEvent cfg.numThreads.toNat} {e : AppEvent} {app : App}
      (he : d.thread = some e) (happ : AppStep p.app e app) :
      ProgramStep p d { p with app := app }

theorem programStep_of_thread {d : ProgramEvent cfg.numThreads.toNat} {e : AppEvent}
    (he : d.thread = some e) (h : p.thread e = some p') : ProgramStep p d p' := by
  obtain ⟨app, happ, hret⟩ := Option.bind_eq_some_iff.mp h
  cases hret
  exact ProgramStep.thread he (appStep_of_step happ)

theorem programStep_of_worker {i : Fin cfg.numThreads.toNat} {e : LoopEvent}
    (h : p.worker i e = some p') : ProgramStep p (.worker i e) p' := by
  obtain ⟨m, hm, hrest⟩ := Option.bind_eq_some_iff.mp h
  obtain ⟨app, happ, hret⟩ := Option.bind_eq_some_iff.mp hrest
  cases hret
  obtain ⟨thr, hthr, halive, rfl⟩ := worker_eq_some happ
  by_cases he : e = .statTimer
  · subst he
    exact ProgramStep.publish hm (AppStep.publish hthr halive)
  · have hnotify : e.notify m thr = thr := by
      cases e with
      | statTimer => exact absurd rfl he
      | _ => rfl
    obtain ⟨hlt, hget⟩ := List.getElem?_eq_some_iff.mp hthr
    have hsame : p.app.th.set i (e.notify m thr) = p.app.th := by
      rw [hnotify, ← hget]
      exact List.set_getElem_self hlt
    rw [hsame]
    exact ProgramStep.manager hm he

theorem programStep_of_step {d : ProgramEvent cfg.numThreads.toNat}
    (h : (program cfg).step d p = some p') : ProgramStep p d p' := by
  cases d with
  | worker i e => exact programStep_of_worker h
  | exit i => exact programStep_of_thread rfl h
  | stats => exact programStep_of_thread rfl h
  | main => exact programStep_of_thread rfl h

theorem cltMgrStep_statTimer {m m' : CltMgr} (h : cltMgrStep .statTimer m = some m') :
    m'.stats = m.stats ∧ m'.prevStats = m.stats := by
  simp only [cltMgrStep] at h
  split at h
  · cases h
    simp only [cltMgrStatTimer]
    split
    · exact ⟨rfl, rfl⟩
    · exact ⟨rfl, rfl⟩
  · cases h

theorem Program.Ok.update (hp : p.Ok) {i : Fin cfg.numThreads.toNat} {e : LoopEvent} {m : CltMgr}
    (hm : cltMgrStep e (p.mgrs i) = some m) (j : Fin cfg.numThreads.toNat) :
    (cltMgrSystem (workerConfig cfg)).Reachable (Function.update p.mgrs i m j) := by
  by_cases hij : j = i
  · subst hij
    rw [Function.update_self]
    exact (hp.reachable j).step hm
  · rw [Function.update_of_ne hij]
    exact hp.reachable j

theorem ProgramStep.ok {d : ProgramEvent cfg.numThreads.toNat} (h : ProgramStep p d p')
    (hp : p.Ok) : p'.Ok := by
  cases h with
  | @manager i e m hm he =>
      refine ⟨hp.update hm, ?_, hp.length⟩
      intro j thr hthr
      rw [hp.published j thr hthr]
      dsimp only
      by_cases hij : j = i
      · subst hij
        rw [Function.update_self, cltMgrStep_prevStats (hp.reachable j) hm he]
      · rw [Function.update_of_ne hij]
  | @publish i m app hm happ =>
      obtain ⟨hstats, hprev⟩ := cltMgrStep_statTimer hm
      cases happ with
      | @publish _ _ thr hthr halive =>
          refine ⟨hp.update hm, ?_, ?_⟩
          · intro j x hx
            rw [List.getElem?_set] at hx
            dsimp only
            by_cases hij : j = i
            · subst hij
              obtain ⟨hlt, -⟩ := List.getElem?_eq_some_iff.mp hthr
              rw [if_pos rfl, if_pos hlt] at hx
              cases hx
              rw [Function.update_self, hprev, hstats]
            · have hne : i.val ≠ j.val := fun heq => hij (Fin.ext heq.symm)
              rw [if_neg hne] at hx
              rw [Function.update_of_ne hij]
              exact hp.published j x hx
          · rw [List.length_set]
            exact hp.length
  | @thread _ e app he happ =>
      have hnone : ∀ j, e.published j = none := by
        intro j
        cases e with
        | publish i s => cases d <;> simp [ProgramEvent.thread] at he
        | _ => rfl
      have hpublished : app.published = p.app.published := by
        apply List.ext_getElem?
        intro j
        rw [happ.published j]
        simp [hnone j]
      refine ⟨hp.reachable, ?_, ?_⟩
      · intro j thr hthr
        have hget : p.app.published[j.val]? = some thr.prevStats := by
          rw [← hpublished]
          simp [App.published, hthr]
        obtain ⟨old, hold, hsame⟩ : ∃ old, p.app.th[j.val]? = some old ∧
            old.prevStats = thr.prevStats := by
          simpa [App.published] using hget
        rw [← hsame]
        exact hp.published j old hold
      · have hlength := congrArg List.length hpublished
        rw [App.published, App.published, List.length_map, List.length_map] at hlength
        exact hlength.trans hp.length

/-! ## Runs -/

/-- The most connections that one worker may have. -/
def workerBound (cfg : MgrConfig) : ℤ :=
  max (workerConfig cfg).targetNconn 0

theorem workerBound_mul_le (cfg : MgrConfig) :
    workerBound cfg * cfg.numThreads.toNat ≤ max cfg.targetNconn 0 := by
  by_cases hthreads : 1 ≤ cfg.numThreads
  · have hn : (cfg.numThreads.toNat : ℤ) = cfg.numThreads := by omega
    rw [workerBound, workerConfig_targetNconn hthreads, hn]
    rcases Int.le_total 0 cfg.targetNconn with hnonneg | hneg
    · have hshare : 0 ≤ cfg.targetNconn.tdiv cfg.numThreads :=
        Int.tdiv_nonneg hnonneg (by omega)
      rw [max_eq_left hshare, max_eq_left hnonneg, Int.tdiv_eq_ediv_of_nonneg hnonneg]
      exact Int.ediv_mul_le _ (by omega)
    · have hpositive := le_tdiv_iff (k := 1) (a := cfg.targetNconn) (n := cfg.numThreads)
        (by omega) (by decide)
      have hshare : cfg.targetNconn.tdiv cfg.numThreads ≤ 0 := by omega
      rw [max_eq_right hshare, zero_mul]
      exact le_max_right _ _
  · have hn : cfg.numThreads.toNat = 0 := by omega
    rw [hn, Nat.cast_zero, mul_zero]
    exact le_max_right _ _

/-- No counter of the sums of the statistics thread reaches `2^64`. -/
def NoCounterOverflow {cfg : MgrConfig} (_ : List (ProgramEvent cfg.numThreads.toNat))
    (d : ProgramEvent cfg.numThreads.toNat) (p : Program cfg) : Prop :=
  d = .stats → p.app.CountersFit

/-- The statistics thread's view of the workers. -/
structure Program.Consistent (p : Program cfg) : Prop where
  ok : p.Ok
  intervals : p.app.IntervalsOk (workerBound cfg)
  reports : p.app.ReportsOk
  order : AppOk p.app

theorem consistent_start (cfg : MgrConfig) : (Program.start cfg).Consistent :=
  ⟨programOk_start cfg, intervalsOk_start _ (le_max_right _ _), reportsOk_start _, appOk_start _⟩

/-- What a manager publishes is sound and not behind what it published before. -/
theorem Program.Ok.publishes (hp : p.Ok) {i : Fin cfg.numThreads.toNat} {m : CltMgr}
    (hm : cltMgrStep .statTimer (p.mgrs i) = some m) :
    m.stats.Sound (workerBound cfg) ∧
      ∀ thr, p.app.th[i.val]? = some thr → thr.prevStats.CountersLe m.stats := by
  obtain ⟨hstats, -⟩ := cltMgrStep_statTimer hm
  rw [hstats]
  refine ⟨sound_of_reachable (hp.reachable i), ?_⟩
  intro thr hthr
  rw [hp.published i thr hthr]
  exact (countsOk_of_reachable (hp.reachable i)).behind

theorem ProgramStep.consistent {d : ProgramEvent cfg.numThreads.toNat}
    (h : ProgramStep p d p') (hp : p.Consistent) (hint : IsInt32 cfg.targetNconn)
    (hfit : d = .stats → p.app.CountersFit) : p'.Consistent := by
  have hcap : workerBound cfg * p.app.th.length ≤ intMax := by
    rw [hp.ok.length]
    exact (workerBound_mul_le cfg).trans (max_le hint.2 (by decide))
  have hok := h.ok hp.ok
  cases h with
  | manager => exact ⟨hok, hp.intervals, hp.reports, hp.order⟩
  | @publish i m app hm happ =>
      refine ⟨hok, happ.intervalsOk hp.intervals ?_ (by simp) hcap,
        happ.reportsOk hp.intervals hp.reports hcap, happ.appOk hp.order⟩
      rintro j s ⟨⟩
      exact hp.ok.publishes hm
  | @thread _ e app he happ =>
      refine ⟨hok, happ.intervalsOk hp.intervals ?_ ?_ hcap,
        happ.reportsOk hp.intervals hp.reports hcap, happ.appOk hp.order⟩
      · rintro j s rfl
        cases d <;> simp [ProgramEvent.thread] at he
      · rintro rfl
        apply hfit
        cases d <;> simp [ProgramEvent.thread] at he ⊢

end Steps

theorem consistent_of_run {cfg : MgrConfig} (hint : IsInt32 cfg.targetNconn)
    {ds : List (ProgramEvent cfg.numThreads.toNat)} {p : Program cfg}
    (h : (program cfg).run ds = some p) (hfit : (program cfg).Guarded NoCounterOverflow ds) :
    p.Consistent := by
  refine (program cfg).guarded_induction (P := fun _ p => p.Consistent) (consistent_start cfg)
    ?_ ds p hfit h
  intro ds d p p' _ hguard hp hstep
  exact (programStep_of_step hstep).consistent hp hint hguard

/-- The reports of the statistics thread at any moment of any run.  The
differences of each field add up to the sum reported last, which is also what
`main` prints in the end; no counter of the sums ever decreases and every
difference is exact; and complete responses are counted together with their
status in everything that is reported. -/
theorem interval_statistics_consistent {cfg : MgrConfig} (hint : IsInt32 cfg.targetNconn)
    {ds : List (ProgramEvent cfg.numThreads.toNat)} {p : Program cfg}
    (h : (program cfg).run ds = some p) (hfit : (program cfg).Guarded NoCounterOverflow ds) :
    (∀ f, ((p.app.lines "interval_diff").map (MgrStats.field f)).sum =
        p.app.lastTotal.field f) ∧
      (∀ total, ("run_total", total) ∈ p.app.output → total = p.app.lastTotal) ∧
      (∀ f, f ≠ .nconn →
        ((p.app.lines "interval_total").map (MgrStats.field f)).Pairwise (· ≤ ·)) ∧
      (∀ f, (p.app.lines "interval_diff").map (MgrStats.field f) =
        differences 0 ((p.app.lines "interval_total").map (MgrStats.field f))) ∧
      ∀ s ∈ p.app.lines "interval_total" ++ p.app.lines "interval_diff",
        s.reqCountOk = s.reqStatustype200 + s.reqStatustype302 + s.reqStatustypeOther := by
  have hp := consistent_of_run hint h hfit
  refine ⟨?_, ?_, ?_, hp.reports.exact, hp.reports.balanced⟩
  · intro f
    rw [hp.reports.exact f, sum_differences, sub_zero, field_lastTotal]
  · intro total hprint
    rw [hp.reports.last]
    exact (hp.order.total total hprint).2
  · intro f hf
    exact List.isChain_iff_pairwise.mp (hp.reports.rises f hf)

section Guard

variable {cfg : MgrConfig} {ds : List (ProgramEvent cfg.numThreads.toNat)}

/-- The workers leave the sums of the statistics thread as they are. -/
theorem noCounterOverflow_worker (h : (program cfg).Guarded NoCounterOverflow ds)
    (i : Fin cfg.numThreads.toNat) (e : LoopEvent) :
    (program cfg).Guarded NoCounterOverflow (ds ++ [.worker i e]) :=
  h.concat _ fun _ _ he => nomatch he

theorem noCounterOverflow_stats {p : Program cfg} (h : (program cfg).Guarded NoCounterOverflow ds)
    (hrun : (program cfg).run ds = some p) (hfit : p.app.CountersFit) :
    (program cfg).Guarded NoCounterOverflow (ds ++ [.stats]) := by
  refine h.concat _ ?_
  rintro q hq -
  obtain rfl := Option.some.inj (hrun.symm.trans hq)
  exact hfit

end Guard

def twoWorkers : MgrConfig := { oneHostConfig with numThreads := 2 }

/-- Each of the workers opens a connection and publishes that, the second one after the
first pass of the statistics thread. -/
def twoPasses : List (ProgramEvent twoWorkers.numThreads.toNat) :=
  [.worker ⟨0, Nat.two_pos⟩ (.timer fun _ => allocAll), .worker ⟨0, Nat.two_pos⟩ .statTimer,
    .stats, .stats, .stats, .stats, .stats,
    .worker ⟨1, Nat.one_lt_two⟩ (.timer fun _ => allocAll),
    .worker ⟨1, Nat.one_lt_two⟩ .statTimer,
    .stats, .stats, .stats, .stats, .stats]

theorem interval_statistics_two_workers :
    ∃ p, (program twoWorkers).run twoPasses = some p ∧
      (p.app.lines "interval_total").map (MgrStats.field .connCount) = [1, 2] ∧
      (p.app.lines "interval_diff").map (MgrStats.field .connCount) = [1, 1] ∧
      ((p.app.lines "interval_diff").map (MgrStats.field .connCount)).sum =
        p.app.lastTotal.field .connCount := by
  have hrun : ∃ p, (program twoWorkers).run twoPasses = some p ∧
      (p.app.lines "interval_total").map (MgrStats.field .connCount) = [1, 2] ∧
      (p.app.lines "interval_diff").map (MgrStats.field .connCount) = [1, 1] :=
    ⟨_, rfl, by decide, by decide⟩
  have hfit : (program twoWorkers).Guarded NoCounterOverflow twoPasses := by
    have hstart := (program twoWorkers).guarded_nil NoCounterOverflow
    have hopened := noCounterOverflow_worker hstart ⟨0, Nat.two_pos⟩ (.timer fun _ => allocAll)
    have hpublished := noCounterOverflow_worker hopened ⟨0, Nat.two_pos⟩ .statTimer
    have hslept := noCounterOverflow_stats hpublished rfl (by rintro i acc thr ⟨⟩)
    have hwoken := noCounterOverflow_stats hslept rfl (by rintro i acc thr ⟨⟩)
    have hread₀ := noCounterOverflow_stats hwoken rfl
      (by rintro i acc thr ⟨⟩ ⟨⟩ f -; cases f <;> decide)
    have hread₁ := noCounterOverflow_stats hread₀ rfl
      (by rintro i acc thr ⟨⟩ ⟨⟩ f -; cases f <;> decide)
    have hpassed := noCounterOverflow_stats hread₁ rfl (by rintro i acc thr ⟨⟩ ⟨⟩)
    have hopened' := noCounterOverflow_worker hpassed ⟨1, Nat.one_lt_two⟩
      (.timer fun _ => allocAll)
    have hpublished' := noCounterOverflow_worker hopened' ⟨1, Nat.one_lt_two⟩ .statTimer
    have hslept' := noCounterOverflow_stats hpublished' rfl (by rintro i acc thr ⟨⟩)
    have hwoken' := noCounterOverflow_stats hslept' rfl (by rintro i acc thr ⟨⟩)
    have hread₀' := noCounterOverflow_stats hwoken' rfl
      (by rintro i acc thr ⟨⟩ ⟨⟩ f -; cases f <;> decide)
    have hread₁' := noCounterOverflow_stats hread₀' rfl
      (by rintro i acc thr ⟨⟩ ⟨⟩ f -; cases f <;> decide)
    exact noCounterOverflow_stats hread₁' rfl (by rintro i acc thr ⟨⟩ ⟨⟩)
  obtain ⟨p, hp, htotals, hdiffs⟩ := hrun
  have hconsistent := interval_statistics_consistent (by decide) hp hfit
  exact ⟨p, hp, htotals, hdiffs, hconsistent.1 .connCount⟩

end EvhtpHttp.Client

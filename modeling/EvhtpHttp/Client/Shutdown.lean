import EvhtpHttp.Client.Connections
import EvhtpHttp.Client.Moves
import EvhtpHttp.Client.Phases

/-!
# Shutdown

What happens after a manager has left `RUNNING`: no connection is opened any
more, the cleanup dooms every connection that is left, the manager completes
without connections, and the statistics timer runs once more after that, so the
last statistics it hands out are the final ones.
-/

namespace EvhtpHttp.Client

open EvhtpHttp.Support

/-! ## Nothing is opened after `RUNNING` -/

/-- The connections of `s'` are among those of `s`, and no attempt to open one
was counted. -/
structure OnlyDrains (s s' : Ledger) : Prop where
  ids : (s'.conns.map Entry.id).Sublist (s.conns.map Entry.id)
  opened : s'.stats.connCount = s.stats.connCount
  failed : s'.stats.nconnCreateFailed = s.stats.nconnCreateFailed

theorem OnlyDrains.refl (s : Ledger) : OnlyDrains s s :=
  ⟨List.Sublist.refl _, rfl, rfl⟩

theorem OnlyDrains.trans {s s₁ s' : Ledger} (h : OnlyDrains s s₁) (h' : OnlyDrains s₁ s') :
    OnlyDrains s s' :=
  ⟨h'.ids.trans h.ids, h'.opened.trans h.opened, h'.failed.trans h.failed⟩

theorem not_mayOpen {s : Ledger} (hs : s.PhaseOk) (hstate : s.state ≠ .running) :
    ¬ s.MayOpen := by
  rintro ⟨hopen, -⟩
  rcases hopen with hrunning | hinit
  · exact hstate hrunning
  · have hentered := hs.entered
    rw [hinit] at hentered
    simp [phases] at hentered

theorem TryOpen.eq_of_not_mayOpen {s s' : Ledger} (h : TryOpen s s') (hs : ¬ s.MayOpen) :
    s' = s := by
  cases h with
  | refused => rfl
  | failed hopen => exact absurd hopen hs
  | opened hopen => exact absurd hopen hs

theorem onlyDrains_replace {s s' : Ledger} {pre post : List Entry} {c c' : Entry}
    (hsplit : s.conns = pre ++ c :: post) (hconns : s'.conns = pre ++ c' :: post)
    (hid : c'.id = c.id)
    (hopened : s'.stats.connCount = s.stats.connCount)
    (hfailed : s'.stats.nconnCreateFailed = s.stats.nconnCreateFailed) : OnlyDrains s s' := by
  refine ⟨?_, hopened, hfailed⟩
  rw [hsplit, hconns]
  simp [hid]

theorem onlyDrains_closeConn {s : Ledger} {pre post : List Entry} {c : Entry} {o : Outcome}
    {p : Pacer} (hsplit : s.conns = pre ++ c :: post) :
    OnlyDrains s (s.closeConn pre c post o p) := by
  refine onlyDrains_replace hsplit rfl rfl ?_ ?_
  · simp only [Ledger.closeConn, countClosing]
    rw [o.count_eq]
  · simp only [Ledger.closeConn, countClosing]
    rw [o.count_eq]

theorem onlyDrains_freeConn {s : Ledger} {pre post : List Entry} {c : Entry}
    (hsplit : s.conns = pre ++ c :: post) : OnlyDrains s (s.freeConn pre c post) := by
  refine ⟨?_, rfl, rfl⟩
  rw [hsplit, Ledger.freeConn]
  exact ((List.sublist_cons_self c post).append_left pre).map Entry.id

/-- One event after `RUNNING` only drains the manager, and does not lead back. -/
theorem LedgerStep.onlyDrains {e : LoopEvent} {s s' : Ledger} (h : LedgerStep e s s')
    (hs : s.PhaseOk) (hstate : s.state ≠ .running) :
    OnlyDrains s s' ∧ s'.state ≠ .running := by
  cases h with
  | issue hsplit => exact ⟨onlyDrains_replace hsplit rfl rfl rfl rfl, hstate⟩
  | issueFailed hsplit => exact ⟨onlyDrains_replace hsplit rfl rfl rfl rfl, hstate⟩
  | data hsplit => exact ⟨onlyDrains_replace hsplit rfl rfl rfl rfl, hstate⟩
  | connTimeout hsplit => exact ⟨onlyDrains_replace hsplit rfl rfl rfl rfl, hstate⟩
  | completeNext hsplit =>
      refine ⟨onlyDrains_replace hsplit rfl rfl ?_ ?_, hstate⟩
      · rw [countOk_eq]
      · rw [countOk_eq]
  | completeLast hsplit =>
      refine ⟨onlyDrains_replace hsplit rfl rfl ?_ ?_, hstate⟩
      · rw [countOk_eq]
      · rw [countOk_eq]
  | close hsplit _ _ _ htry =>
      rw [htry.eq_of_not_mayOpen (not_mayOpen hs hstate)]
      exact ⟨onlyDrains_closeConn hsplit, hstate⟩
  | destroyClosed hsplit => exact ⟨onlyDrains_freeConn hsplit, hstate⟩
  | destroyOpen hsplit _ _ htry hsplit₁ =>
      obtain rfl := htry.eq_of_not_mayOpen (not_mayOpen hs hstate)
      exact ⟨(onlyDrains_closeConn hsplit).trans (onlyDrains_freeConn hsplit₁), hstate⟩
  | runningTimer hpending => exact absurd (hs.running hpending) hstate
  | waitTimer => exact ⟨⟨List.Sublist.refl _, rfl, rfl⟩, by simp [Ledger.toCleanup]⟩
  | cleanupTimer =>
      refine ⟨⟨?_, rfl, rfl⟩, by simp⟩
      have hids : (s.conns.map Entry.kill).map Entry.id = s.conns.map Entry.id := by
        rw [List.map_map]
        rfl
      rw [hids]
  | tickRunning _ hrunning => exact absurd hrunning hstate
  | tickWaitingDone => exact ⟨⟨List.Sublist.refl _, rfl, rfl⟩, by simp [Ledger.toCleanup]⟩
  | tickCompleted => exact ⟨⟨List.Sublist.refl _, rfl, rfl⟩, by simp⟩
  | _ => exact ⟨⟨List.Sublist.refl _, rfl, rfl⟩, hstate⟩

theorem onlyDrains_of_runFrom {cfg : MgrConfig} {fs : List LoopEvent} {m m' : CltMgr}
    (hm : CltMgrOk m) (hphase : m.ledger.PhaseOk) (hstate : m.mgrState ≠ .running)
    (h : (cltMgrSystem cfg).runFrom fs m = some m') : OnlyDrains m.ledger m'.ledger := by
  refine ((cltMgrSystem cfg).runFrom_rel
    (P := fun m => CltMgrOk m ∧ m.ledger.PhaseOk ∧ m.mgrState ≠ .running)
    (R := fun m m' => OnlyDrains m.ledger m'.ledger)
    (fun m => OnlyDrains.refl m.ledger) (fun _ _ _ h h' => h.trans h') ?_
    fs m m' ⟨hm, hphase, hstate⟩ h).2
  rintro m e m' ⟨hm, hphase, hstate⟩ he
  obtain ⟨hm', hstep⟩ := cltMgrStep_refines hm he
  obtain ⟨hdrains, hstate'⟩ := hstep.onlyDrains hphase hstate
  exact ⟨⟨hm', (hstep.phaseOk hphase).1, hstate'⟩, hdrains⟩

/-! ## The cleanup dooms every connection -/

/-- Freed connections are dead, and after the cleanup so is every other one. -/
structure Ledger.Doomed (s : Ledger) : Prop where
  gone : ∀ c ∈ s.gone, c.dead = true
  conns : s.state = .cleanupWaiting → ∀ c ∈ s.conns, c.dead = true

theorem Move.dead {e : LoopEvent} {s : Ledger} {c c' : Entry} (h : Move e s c c')
    (hc : c.dead = true) : c'.dead = true := by
  cases h with
  | next _ _ hrequest =>
      have halive : c.dead = false := hrequest.1
      rw [hc] at halive
      cases halive
  | expire => rfl
  | finish => rfl
  | close => rfl
  | free => rfl
  | kill => rfl
  | _ => exact hc

theorem LedgerStep.gone_dead {e : LoopEvent} {s s' : Ledger} (h : LedgerStep e s s')
    (hs : ∀ c ∈ s.gone, c.dead = true) : ∀ c ∈ s'.gone, c.dead = true := by
  have hfree : ∀ {t : Ledger} {pre post : List Entry} {c : Entry}, t.gone = s.gone →
      ∀ x ∈ (t.freeConn pre c post).gone, x.dead = true := by
    intro t pre post c hgone x hx
    rw [Ledger.freeConn, hgone] at hx
    rcases List.mem_append.mp hx with hx | hx
    · exact hs x hx
    · rw [List.mem_singleton.mp hx]
      rfl
  cases h with
  | close _ _ _ _ htry =>
      rw [htry.gone_eq]
      exact hs
  | destroyClosed => exact hfree rfl
  | destroyOpen _ _ _ htry => exact hfree htry.gone_eq
  | tickRunning _ _ _ hburst =>
      obtain ⟨p, hp⟩ := s.paced_eq
      obtain ⟨state, timers, hend⟩ := Ledger.tickEnd_rearm_eq _
      rw [hend, hburst.gone_eq, hp]
      exact hs
  | _ => exact hs

theorem LedgerStep.enters_cleanupWaiting {e : LoopEvent} {s s' : Ledger}
    (h : LedgerStep e s s') (hstate : s'.state = .cleanupWaiting) :
    s.state = .cleanupWaiting ∨ s'.conns = s.conns.map Entry.kill := by
  cases h with
  | close _ _ _ _ htry => exact Or.inl (htry.state_eq.symm.trans hstate)
  | destroyOpen _ _ _ htry => exact Or.inl (htry.state_eq.symm.trans hstate)
  | cleanupTimer => exact Or.inr rfl
  | @tickRunning s s₁ ok k _ hrunning _ hburst =>
      have hstill : s₁.state = .running := hburst.state_eq.trans (s.paced_state.trans hrunning)
      by_cases hfin : s₁.Finished
      · rw [Ledger.tickEnd, if_pos hfin] at hstate
        cases hstate
      · rw [Ledger.tickEnd, if_neg hfin] at hstate
        rw [Ledger.rearm, hstill] at hstate
        cases hstate
  | runningTimer => cases hstate
  | waitTimer => cases hstate
  | tickWaitingDone => cases hstate
  | tickCompleted => cases hstate
  | _ => exact Or.inl hstate

theorem LedgerStep.doomed {e : LoopEvent} {s s' : Ledger} (h : LedgerStep e s s')
    (hs : s.Doomed) : s'.Doomed := by
  refine ⟨h.gone_dead hs.gone, fun hstate x hx => ?_⟩
  rcases h.enters_cleanupWaiting hstate with hstate | hkill
  · rcases h.origin (List.mem_append_left _ hx) with ⟨hopen, -⟩ | ⟨c, hc, hmove⟩
    · rcases hopen with hopen | hopen
      · rw [hstate] at hopen
        cases hopen
      · rw [hstate] at hopen
        cases hopen
    · rcases List.mem_append.mp hc with hc | hc
      · exact hmove.dead (hs.conns hstate c hc)
      · exact hmove.dead (hs.gone c hc)
  · rw [hkill] at hx
    obtain ⟨c, -, rfl⟩ := List.mem_map.mp hx
    rfl

theorem doomed_of_reachable {cfg : MgrConfig} {m : CltMgr}
    (h : (cltMgrSystem cfg).Reachable m) : m.ledger.Doomed := by
  refine ledger_invariant ?_ (fun _ _ _ _ _ hs hstep => hstep.doomed hs) h
  intro running
  exact ⟨by simp [Ledger.start], by simp [Ledger.start]⟩

/-! ## The last statistics -/

/-- In `COMPLETED` only the statistics timer is left, and it is not added again. -/
theorem LedgerStep.completed {e : LoopEvent} {s s' : Ledger} (h : LedgerStep e s s')
    (hphase : s.PhaseOk) (haccounts : s.AccountsOk) (hstate : s.state = .completed) :
    e = .statTimer ∧
      s' = { s with prevStats := s.stats, timers := { s.timers with stat := false } } := by
  have hnone : ∀ {pre post : List Entry} {c : Entry}, s.conns ≠ pre ++ c :: post := by
    intro pre post c hsplit
    rw [haccounts.completed hstate] at hsplit
    simp at hsplit
  cases h with
  | issue hsplit => exact absurd hsplit hnone
  | issueFailed hsplit => exact absurd hsplit hnone
  | data hsplit => exact absurd hsplit hnone
  | connTimeout hsplit => exact absurd hsplit hnone
  | completeNext hsplit => exact absurd hsplit hnone
  | completeLast hsplit => exact absurd hsplit hnone
  | close hsplit => exact absurd hsplit hnone
  | destroyClosed hsplit => exact absurd hsplit hnone
  | destroyOpen hsplit => exact absurd hsplit hnone
  | statTimer => exact ⟨rfl, by simp [hstate]⟩
  | runningTimer hpending =>
      rw [hphase.running hpending] at hstate
      cases hstate
  | waitTimer hpending =>
      rw [hphase.wait.mp hpending] at hstate
      cases hstate
  | waitTimerUnexpected hpending =>
      rw [hphase.wait.mp hpending] at hstate
      cases hstate
  | cleanupTimer hpending =>
      rw [hphase.cleanup.mp hpending] at hstate
      cases hstate
  | cleanupTimerUnexpected hpending =>
      rw [hphase.cleanup.mp hpending] at hstate
      cases hstate
  | tickRunning hpending => exact absurd hstate (hphase.timer.mp hpending)
  | tickWaiting hpending => exact absurd hstate (hphase.timer.mp hpending)
  | tickWaitingDone hpending => exact absurd hstate (hphase.timer.mp hpending)
  | tickCleanup hpending => exact absurd hstate (hphase.timer.mp hpending)
  | tickCleanupWaiting hpending => exact absurd hstate (hphase.timer.mp hpending)
  | tickCompleted hpending => exact absurd hstate (hphase.timer.mp hpending)
  | tickLate hpending => exact absurd hstate (hphase.timer.mp hpending)
  | tickInvalid hpending => exact absurd hstate (hphase.timer.mp hpending)

/-- The statistics timer is pending, or it ran after the manager had completed. -/
def Ledger.Published (s : Ledger) : Prop :=
  s.timers.stat = true ∨ s.state = .completed ∧ s.prevStats = s.stats

theorem LedgerStep.stat_eq {e : LoopEvent} {s s' : Ledger} (h : LedgerStep e s s')
    (he : e ≠ .statTimer) : s'.timers.stat = s.timers.stat := by
  cases h with
  | close _ _ _ _ htry => rw [htry.frame]; rfl
  | destroyOpen _ _ _ htry => rw [Ledger.freeConn, htry.frame]; rfl
  | statTimer => exact absurd rfl he
  | @tickRunning s s₁ ok k _ _ _ hburst =>
      have hsame : s₁.timers = s.timers := hburst.timers_eq.trans s.paced_timers
      by_cases hfin : s₁.Finished
      · rw [Ledger.tickEnd, if_pos hfin, ← hsame]
        rfl
      · rw [Ledger.tickEnd, if_neg hfin, ← hsame]
        rfl
  | _ => rfl

theorem LedgerStep.published {e : LoopEvent} {s s' : Ledger} (h : LedgerStep e s s')
    (hphase : s.PhaseOk) (haccounts : s.AccountsOk) (hs : s.Published) : s'.Published := by
  by_cases hstate : s.state = .completed
  · obtain ⟨-, rfl⟩ := h.completed hphase haccounts hstate
    exact Or.inr ⟨hstate, rfl⟩
  · have hpending : s.timers.stat = true := by
      rcases hs with hpending | ⟨hcompleted, -⟩
      · exact hpending
      · exact absurd hcompleted hstate
    left
    by_cases he : e = .statTimer
    · subst he
      cases h with
      | statTimer => simp [hstate]
    · rw [h.stat_eq he]
      exact hpending

theorem published_of_reachable {cfg : MgrConfig} {m : CltMgr}
    (h : (cltMgrSystem cfg).Reachable m) : m.ledger.Published := by
  have hall := ledger_invariant
    (P := fun s => s.PhaseOk ∧ s.AccountsOk ∧ s.Published)
    (fun running => ⟨phaseOk_start cfg.limits running, accountsOk_start cfg.limits running,
      Or.inl rfl⟩)
    (fun e s s' _ _ hs hstep => ⟨(hstep.phaseOk hs.1).1, hstep.accountsOk hs.2.1,
      hstep.published hs.1 hs.2.1 hs.2.2⟩) h
  exact hall.2.2

/-! ## Runs -/

/-- Everything about the end of a manager, at every event boundary of every run.
Once it has left `RUNNING` no connection is added and the counts of opened and
failed ones stay.  In `CLEANUP_WAITING` every connection is dead and its
destruction pending.  In `COMPLETED` there is no connection, no timer but that of
the statistics is pending, and the one event left is its delivery, after which
nothing is pending.  When nothing is pending, the statistics handed out last are
those of the manager and no event is left that could change them. -/
theorem shutdown_drains_and_publishes {cfg : MgrConfig} {es : List LoopEvent} {m : CltMgr}
    (h : (cltMgrSystem cfg).run es = some m) :
    (m.mgrState ≠ .running → ∀ fs m', (cltMgrSystem cfg).runFrom fs m = some m' →
        (m'.mgrConnList.map fun c => c.id).Sublist (m.mgrConnList.map fun c => c.id) ∧
        m'.stats.connCount = m.stats.connCount ∧
        m'.stats.nconnCreateFailed = m.stats.nconnCreateFailed) ∧
      (m.mgrState = .cleanupWaiting →
        ∀ c ∈ m.mgrConnList, c.isDead = true ∧ isPending c.evConnDestroy = true) ∧
      (m.mgrState = .completed →
        m.mgrConnList = [] ∧
        m.tTimerev.pending = false ∧ m.tRunningTimerev.pending = false ∧
        m.tWaitTimerev.pending = false ∧ m.tCleanupTimerev.pending = false ∧
        ∀ e m', cltMgrStep e m = some m' → e = .statTimer ∧ m'.mgrState = .completed ∧
          m'.tStatTimerev.pending = false ∧ m'.tTimerev.pending = false ∧
          m'.tRunningTimerev.pending = false ∧ m'.tWaitTimerev.pending = false ∧
          m'.tCleanupTimerev.pending = false) ∧
      (m.tStatTimerev.pending = false →
        m.prevStats = m.stats ∧ ∀ e, cltMgrStep e m = none) := by
  have hreach : (cltMgrSystem cfg).Reachable m := ⟨es, h⟩
  have hm := cltMgrOk_of_reachable hreach
  have hphase := phaseOk_of_reachable hreach
  have haccounts := accountsOk_of_reachable hreach
  have hcompleted : m.mgrState = .completed → m.mgrConnList = [] ∧
      m.tTimerev.pending = false ∧ m.tRunningTimerev.pending = false ∧
      m.tWaitTimerev.pending = false ∧ m.tCleanupTimerev.pending = false := by
    intro hstate
    have hwait := hphase.wait
    have hcleanup := hphase.cleanup
    have htimer := hphase.timer
    have hrunning := hphase.running
    have hempty : m.mgrConnList.map CltMgrConn.entry = [] := haccounts.completed hstate
    simp only [CltMgr.ledger, CltMgr.timers, hstate] at hwait hcleanup htimer hrunning
    simp only [reduceCtorEq, iff_false, imp_false, not_true_eq_false, ne_eq,
      Bool.not_eq_true] at hwait hcleanup htimer hrunning
    exact ⟨List.map_eq_nil_iff.mp hempty, htimer, hrunning, hwait, hcleanup⟩
  have hlast : m.mgrState = .completed → ∀ e m', cltMgrStep e m = some m' →
      e = .statTimer ∧ m'.ledger = { m.ledger with
        prevStats := m.stats, timers := { m.timers with stat := false } } := by
    intro hstate e m' he
    exact (cltMgrStep_refines hm he).2.completed hphase haccounts hstate
  refine ⟨?_, ?_, ?_, ?_⟩
  · intro hstate fs m' hrest
    have hdrains := onlyDrains_of_runFrom hm hphase hstate hrest
    have hids := hdrains.ids
    simp only [CltMgr.ledger, List.map_map] at hids
    exact ⟨hids, hdrains.opened, hdrains.failed⟩
  · intro hstate c hc
    have hdead : c.isDead = true :=
      (doomed_of_reachable hreach).conns hstate c.entry (List.mem_map_of_mem hc)
    exact ⟨hdead, (hm.conns c hc).dead.trans hdead⟩
  · intro hstate
    obtain ⟨hempty, htimer, hrunning, hwait, hcleanup⟩ := hcompleted hstate
    refine ⟨hempty, htimer, hrunning, hwait, hcleanup, ?_⟩
    intro e m' he
    obtain ⟨hstat, hledger⟩ := hlast hstate e m' he
    have htimers := congrArg Ledger.timers hledger
    have hstate' := congrArg Ledger.state hledger
    simp only [CltMgr.ledger, CltMgr.timers, Timers.mk.injEq] at htimers hstate'
    obtain ⟨h₁, h₂, h₃, h₄, h₅⟩ := htimers
    exact ⟨hstat, hstate'.trans hstate, h₂, h₁.trans htimer, h₃.trans hrunning,
      h₄.trans hwait, h₅.trans hcleanup⟩
  · intro hidle
    rcases published_of_reachable hreach with hpending | ⟨hstate, hsame⟩
    · simp [CltMgr.ledger, CltMgr.timers, hidle] at hpending
    · refine ⟨hsame, fun e => ?_⟩
      rw [Option.eq_none_iff_forall_ne_some]
      intro m' he
      obtain ⟨rfl, -⟩ := hlast hstate e m' he
      simp [cltMgrStep, hidle] at he

/-- A manager with two connections drains, and its statistics timer runs once
more after it has completed. -/
theorem shutdown_drains_and_publishes_two_connections :
    ∃ m, (cltMgrSystem oneHostConfig).run
        [.timer fun _ => allocAll, .runningTimer, .waitTimer, .cleanupTimer,
          .connDestroy 0 .requestFirst allocAll, .connDestroy 1 .connectionFirst allocAll,
          .timer fun _ => allocAll, .statTimer] = some m ∧
      m.prevStats.connCount = 2 ∧ m.prevStats = m.stats ∧ ∀ e, cltMgrStep e m = none := by
  have hrun : ∃ m, (cltMgrSystem oneHostConfig).run
        [.timer fun _ => allocAll, .runningTimer, .waitTimer, .cleanupTimer,
          .connDestroy 0 .requestFirst allocAll, .connDestroy 1 .connectionFirst allocAll,
          .timer fun _ => allocAll, .statTimer] = some m ∧
      m.tStatTimerev.pending = false ∧ m.prevStats.connCount = 2 :=
    ⟨_, rfl, rfl, rfl⟩
  obtain ⟨m, hm, hidle, hcount⟩ := hrun
  obtain ⟨-, -, -, hlast⟩ := shutdown_drains_and_publishes hm
  exact ⟨m, hm, hcount, hlast hidle⟩

end EvhtpHttp.Client

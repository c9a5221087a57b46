import EvhtpHttp.Client.Refinement

/-!
# Phases

A manager goes through its phases in order, and which of its timers are pending
is decided by the phase it is in.
-/

namespace EvhtpHttp.Client

open EvhtpHttp.Support

/-- The phases of a started manager, in their order. -/
def phases : List CltMgrState :=
  [.running, .waiting, .cleanup, .cleanupWaiting, .completed]

/-- The timers that may be pending in each phase; there was no complaint about
the state so far. -/
structure PhaseOk (state : CltMgrState) (timers : Timers) (unexpected : ℕ) : Prop where
  entered : state ∈ phases
  running : timers.running = true → state = .running
  wait : timers.wait = true ↔ state = .waiting
  cleanup : timers.cleanup = true ↔ state = .cleanup
  timer : timers.timer = true ↔ state ≠ .completed
  expected : unexpected = 0

/-- The phase of a ledger fits its timers. -/
def Ledger.PhaseOk (s : Ledger) : Prop :=
  Client.PhaseOk s.state s.timers s.unexpected

theorem TryOpen.phaseOk {s s' : Ledger} (h : TryOpen s s') (hs : s.PhaseOk) :
    s'.PhaseOk := by
  rw [h.frame]
  exact hs

theorem Burst.phaseOk {s s' : Ledger} {k : ℕ} (h : Burst s k s') (hs : s.PhaseOk) :
    s'.PhaseOk := by
  rw [h.frame]
  exact hs

/-- Leaving `RUNNING` moves on to the next phase and exchanges the timer of the
running period for that of the waiting period. -/
theorem phaseOk_toWaiting {s : Ledger} (hs : s.PhaseOk) (hstate : s.state = .running) :
    s.toWaiting.PhaseOk ∧ StaysOrAdvances phases s.state s.toWaiting.state := by
  have htimer : s.timers.timer = true := by
    rw [hs.timer, hstate]
    decide
  have hcleanup : s.timers.cleanup = false := by
    by_contra hpending
    have hphase := hs.cleanup.mp (by simpa using hpending)
    rw [hstate] at hphase
    cases hphase
  constructor
  · exact ⟨by simp [Ledger.toWaiting, phases], by simp [Ledger.toWaiting],
      by simp [Ledger.toWaiting], by simp [Ledger.toWaiting, hcleanup],
      by simp [Ledger.toWaiting, htimer], hs.expected⟩
  · rw [hstate]
    exact Or.inr ⟨0, rfl, rfl⟩

theorem phaseOk_tick {s s' : Ledger} {k : ℕ} (hs : s.PhaseOk) (hstate : s.state = .running)
    (hburst : Burst s.paced k s') :
    s'.tickEnd.rearm.PhaseOk ∧ StaysOrAdvances phases s.state s'.tickEnd.rearm.state := by
  have hpaced : s.paced.PhaseOk := by
    obtain ⟨p, hp⟩ := s.paced_eq
    rw [hp]
    exact hs
  have hs' : s'.PhaseOk := hburst.phaseOk hpaced
  have hrunning : s'.state = .running :=
    hburst.state_eq.trans (s.paced_state.trans hstate)
  have hrearm : ∀ t : Ledger, t.PhaseOk → t.state ≠ .completed → t.rearm.PhaseOk := by
    intro t ht hopen
    have htimer : t.timers.timer = true := ht.timer.mpr hopen
    exact ⟨ht.entered, ht.running, ht.wait, ht.cleanup,
      by simpa [Ledger.rearm] using hopen, ht.expected⟩
  by_cases hfin : s'.Finished
  · obtain ⟨hwaiting, hadvance⟩ := phaseOk_toWaiting hs' hrunning
    rw [Ledger.tickEnd, if_pos hfin]
    refine ⟨hrearm _ hwaiting (by simp [Ledger.toWaiting]), ?_⟩
    rw [hstate, ← hrunning]
    exact hadvance
  · rw [Ledger.tickEnd, if_neg hfin]
    refine ⟨hrearm _ hs' (by rw [hrunning]; decide), Or.inl ?_⟩
    exact hrunning.trans hstate.symm

/-- A phase other than `RUNNING` has no timer of the running period, and the
periodic timer runs until the last phase. -/
theorem phaseOk_timers {s : Ledger} (hs : s.PhaseOk) (hrunning : s.state ≠ .running)
    (hopen : s.state ≠ .completed) :
    s.timers.running = false ∧ s.timers.timer = true := by
  constructor
  · by_contra hpending
    exact hrunning (hs.running (by simpa using hpending))
  · exact hs.timer.mpr hopen

theorem phaseOk_toCleanup {s : Ledger} (hs : s.PhaseOk) (hstate : s.state = .waiting) :
    s.toCleanup.PhaseOk ∧ StaysOrAdvances phases s.state s.toCleanup.state := by
  obtain ⟨hrunning, htimer⟩ := phaseOk_timers hs (by simp [hstate]) (by simp [hstate])
  constructor
  · exact ⟨by simp [Ledger.toCleanup, phases], by simp [Ledger.toCleanup, hrunning],
      by simp [Ledger.toCleanup], by simp [Ledger.toCleanup],
      by simp [Ledger.toCleanup, htimer], hs.expected⟩
  · rw [hstate]
    exact Or.inr ⟨1, rfl, rfl⟩

theorem LedgerStep.phaseOk {e : LoopEvent} {s s' : Ledger} (h : LedgerStep e s s')
    (hs : s.PhaseOk) : s'.PhaseOk ∧ StaysOrAdvances phases s.state s'.state := by
  cases h with
  | close _ _ _ _ htry => exact ⟨htry.phaseOk hs, Or.inl htry.state_eq⟩
  | destroyOpen _ _ _ htry =>
      have hopened : Client.PhaseOk _ _ _ := htry.phaseOk hs
      exact ⟨hopened, Or.inl htry.state_eq⟩
  | statTimer =>
      exact ⟨⟨hs.entered, hs.running, hs.wait, hs.cleanup, hs.timer, hs.expected⟩,
        Or.inl rfl⟩
  | runningTimer hpending => exact phaseOk_toWaiting hs (hs.running hpending)
  | waitTimer _ hstate => exact phaseOk_toCleanup hs hstate
  | waitTimerUnexpected hpending hstate => exact absurd (hs.wait.mp hpending) hstate
  | cleanupTimer _ hstate =>
      obtain ⟨hrunning, htimer⟩ :=
        phaseOk_timers hs (by simp [hstate]) (by simp [hstate])
      have hwait : s.timers.wait = false := by
        by_contra hpending
        have hphase := hs.wait.mp (by simpa using hpending)
        rw [hstate] at hphase
        cases hphase
      refine ⟨⟨by simp [phases], by simp [hrunning], by simp [hwait], by simp,
        by simp [htimer], hs.expected⟩, ?_⟩
      rw [hstate]
      exact Or.inr ⟨2, rfl, rfl⟩
  | cleanupTimerUnexpected hpending hstate =>
      exact absurd (hs.cleanup.mp hpending) hstate
  | tickRunning _ hstate _ hburst => exact phaseOk_tick hs hstate hburst
  | tickWaitingDone _ hstate => exact phaseOk_toCleanup hs hstate
  | tickCompleted _ hstate =>
      obtain ⟨hrunning, -⟩ := phaseOk_timers hs (by simp [hstate]) (by simp [hstate])
      have hwait := hs.wait
      have hcleanup := hs.cleanup
      simp only [hstate, reduceCtorEq, iff_false, Bool.not_eq_true] at hwait hcleanup
      refine ⟨⟨by simp [phases], by simp [hrunning], by simp [hwait], by simp [hcleanup],
        by simp, hs.expected⟩, ?_⟩
      rw [hstate]
      exact Or.inr ⟨3, rfl, rfl⟩
  | tickLate hpending hstate => exact absurd hstate (hs.timer.mp hpending)
  | tickInvalid _ hstate =>
      have hentered := hs.entered
      rcases hstate with hstate | hstate
      · rw [hstate] at hentered
        simp [phases] at hentered
      · rw [hstate] at hentered
        simp [phases] at hentered
  | _ => exact ⟨hs, Or.inl rfl⟩

/-! ## Runs -/

theorem phaseOk_start (limits : Limits) (running : Bool) :
    (Ledger.start limits running).PhaseOk := by
  constructor <;> simp [Ledger.start, phases]

theorem phaseOk_of_reachable {cfg : MgrConfig} {m : CltMgr}
    (h : (cltMgrSystem cfg).Reachable m) : m.ledger.PhaseOk :=
  ledger_invariant (phaseOk_start cfg.limits)
    (fun _ _ _ _ _ hs hstep => (hstep.phaseOk hs).1) h

/-- Every run goes through the phases in their order, without skipping one and
entering each at most once. -/
theorem visited_phases (cfg : MgrConfig) (es : List LoopEvent) :
    (((cltMgrSystem cfg).visited es).map fun m => m.mgrState).destutter (· ≠ ·) <+:
      phases := by
  have hchain := (cltMgrSystem cfg).visitedFrom_isChain
    (P := fun m => CltMgrOk m ∧ m.ledger.PhaseOk)
    (R := fun a b => StaysOrAdvances phases a.mgrState b.mgrState)
    (by
      rintro m e m' ⟨hm, hphase⟩ he
      obtain ⟨hm', hstep⟩ := cltMgrStep_refines hm he
      obtain ⟨hphase', hmove⟩ := hstep.phaseOk hphase
      exact ⟨⟨hm', hphase'⟩, hmove⟩)
    es (cltMgrSystem cfg).init
    ⟨cltMgrOk_init cfg, phaseOk_of_reachable (System.Reachable.init _)⟩
  obtain ⟨rest, hrest⟩ := (cltMgrSystem cfg).visitedFrom_eq_cons es (cltMgrSystem cfg).init
  rw [System.visited]
  rw [hrest] at hchain ⊢
  have hinit : (cltMgrSystem cfg).init.mgrState = .running := rfl
  have hwalk := (List.isChain_map (fun m : CltMgr => m.mgrState)).mpr hchain
  rw [List.map_cons, hinit] at hwalk ⊢
  exact destutter_isPrefix_of_isChain (by decide) hwalk

/-- The phases of every run come in order, in every state of the run the phase
decides which timers are pending, and no handler ever finds the manager in a
state it does not expect. -/
theorem phase_order_and_timers {cfg : MgrConfig} {es : List LoopEvent} {m : CltMgr}
    (h : (cltMgrSystem cfg).run es = some m) :
    (((cltMgrSystem cfg).visited es).map fun m => m.mgrState).destutter (· ≠ ·) <+:
        [.running, .waiting, .cleanup, .cleanupWaiting, .completed] ∧
      (m.tRunningTimerev.pending = true → m.mgrState = .running) ∧
      (m.tWaitTimerev.pending = true ↔ m.mgrState = .waiting) ∧
      (m.tCleanupTimerev.pending = true ↔ m.mgrState = .cleanup) ∧
      (m.tTimerev.pending = true ↔
        m.mgrState ∈ [.running, .waiting, .cleanup, .cleanupWaiting]) ∧
      ∀ msg ∈ m.messages, msg.isUnexpected = false := by
  have hphase := phaseOk_of_reachable ⟨es, h⟩
  refine ⟨visited_phases cfg es, hphase.running, hphase.wait, hphase.cleanup, ?_, ?_⟩
  · have hentered := hphase.entered
    have htimer := hphase.timer
    simp only [CltMgr.ledger, CltMgr.timers] at hentered htimer
    rw [htimer]
    revert hentered
    cases m.mgrState <;> decide
  · intro msg hmsg
    have hnone := List.countP_eq_zero.mp hphase.expected msg hmsg
    simpa using hnone

/-- A manager without connections completes once its running period is over,
and its periodic timer ends there. -/
theorem phase_order_and_timers_completed :
    ∃ m, (cltMgrSystem MgrConfig.zero).run
        [.timer fun _ => allocAll, .runningTimer, .timer fun _ => allocAll, .cleanupTimer,
          .timer fun _ => allocAll] = some m ∧
      m.mgrState = .completed ∧ m.tTimerev.pending = false := by
  have hrun : ∃ m, (cltMgrSystem MgrConfig.zero).run
        [.timer fun _ => allocAll, .runningTimer, .timer fun _ => allocAll, .cleanupTimer,
          .timer fun _ => allocAll] = some m ∧ m.mgrState = .completed :=
    ⟨_, rfl, rfl⟩
  obtain ⟨m, hm, hstate⟩ := hrun
  obtain ⟨-, -, -, -, htimer, -⟩ := phase_order_and_timers hm
  exact ⟨m, hm, hstate, by simpa [hstate] using htimer⟩

end EvhtpHttp.Client

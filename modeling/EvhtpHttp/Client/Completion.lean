import EvhtpHttp.Client.Shutdown
import EvhtpHttp.Support.Course

/-!
# Completion

A manager whose events libevent delivers sooner or later comes to its end, unless
it has no running period and never leaves `RUNNING`.  Each phase is left by the
delivery of one timer, except `CLEANUP_WAITING`: there the connections that are
left are destroyed one after the other before the periodic timer completes the
manager.
-/

namespace EvhtpHttp.Client

open EvhtpHttp.Support

/-! ## What libevent has pending -/

/-- The events of a manager that its thread's `event_base` may hold. -/
inductive BaseEvent
  | timer
  | statTimer
  | runningTimer
  | waitTimer
  | cleanupTimer
  | newHttpReq (id : ℕ)
  | connDestroy (id : ℕ)
  | connTimeout (id : ℕ)
deriving Repr, DecidableEq

/-- The event is pending. -/
def BaseEvent.Pending (m : CltMgr) : BaseEvent → Prop
  | .timer => m.tTimerev.pending = true
  | .statTimer => m.tStatTimerev.pending = true
  | .runningTimer => m.tRunningTimerev.pending = true
  | .waitTimer => m.tWaitTimerev.pending = true
  | .cleanupTimer => m.tCleanupTimerev.pending = true
  | .newHttpReq id => ∃ c ∈ m.mgrConnList, c.id = id ∧ isPending c.evNewHttpReq = true
  | .connDestroy id => ∃ c ∈ m.mgrConnList, c.id = id ∧ isPending c.evConnDestroy = true
  | .connTimeout id => ∃ c ∈ m.mgrConnList, c.id = id ∧ isPending c.req.evTimeout = true

/-- The event of the `event_base` that is delivered; the others come from libevhtp. -/
def LoopEvent.base : LoopEvent → Option BaseEvent
  | .timer _ => some .timer
  | .statTimer => some .statTimer
  | .runningTimer => some .runningTimer
  | .waitTimer => some .waitTimer
  | .cleanupTimer => some .cleanupTimer
  | .newHttpReq id _ _ => some (.newHttpReq id)
  | .connDestroy id _ _ => some (.connDestroy id)
  | .connTimeout id => some (.connTimeout id)
  | .data _ _ => none
  | .complete _ _ => none
  | .close _ _ _ _ => none

/-- The manager has nothing left to wait for: no event is pending and every
connection on the list is closed. -/
structure CltMgr.Idle (m : CltMgr) : Prop where
  events : ∀ b : BaseEvent, ¬ b.Pending m
  closed : ∀ c ∈ m.mgrConnList, c.req.con = none

/-- libevent delivers what stays pending.  The timer of a connection is left out:
data that keeps arriving puts it off for ever. -/
def LibeventFair {cfg : MgrConfig} (x : Course (cltMgrSystem cfg)) : Prop :=
  ∀ b : BaseEvent, (∀ id, b ≠ .connTimeout id) →
    x.Fair (fun e => e.base = some b) fun m => b.Pending m

/-! ## Steps -/

theorem LedgerStep.running_kept {e : LoopEvent} {s s' : Ledger} (h : LedgerStep e s s')
    (hstate : s'.state = .running) :
    s.state = .running ∧ s'.timers.running = s.timers.running := by
  cases h with
  | close _ _ _ _ htry =>
      have hframe := htry.frame
      rw [hframe] at hstate ⊢
      exact ⟨hstate, rfl⟩
  | destroyOpen _ _ _ htry =>
      rw [Ledger.freeConn, htry.frame] at hstate ⊢
      exact ⟨hstate, rfl⟩
  | @tickRunning s s₁ ok k _ hrunning _ hburst =>
      refine ⟨hrunning, ?_⟩
      by_cases hfin : s₁.Finished
      · rw [Ledger.tickEnd, if_pos hfin] at hstate
        cases hstate
      · rw [Ledger.tickEnd, if_neg hfin]
        simp only [Ledger.rearm]
        rw [hburst.timers_eq, s.paced_timers]
  | runningTimer => cases hstate
  | waitTimer => cases hstate
  | cleanupTimer => cases hstate
  | tickWaitingDone => cases hstate
  | tickCompleted => cases hstate
  | _ => exact ⟨hstate, rfl⟩

theorem LedgerStep.connDestroy_length {id : ℕ} {order : FreeOrder} {ok : AllocOk}
    {s s' : Ledger} (h : LedgerStep (.connDestroy id order ok) s s') (hs : s.PhaseOk)
    (hstate : s.state ≠ .running) : s'.conns.length < s.conns.length := by
  cases h with
  | destroyClosed hsplit =>
      rw [hsplit, Ledger.freeConn]
      simp
  | @destroyOpen _ s₁ pre post post' c _ _ hsplit _ _ htry hsplit₁ =>
      obtain rfl := htry.eq_of_not_mayOpen (not_mayOpen hs hstate)
      have hpost : post = post' := by
        have hlists : pre ++ c.close :: post = pre ++ c.close :: post' := hsplit₁
        simpa using hlists
      rw [hsplit, Ledger.freeConn, ← hpost]
      simp

/-- The timer of each of the first three phases ends it. -/
theorem LedgerStep.runningTimer_ends {s s' : Ledger} (h : LedgerStep .runningTimer s s') :
    s'.state = .waiting := by
  cases h with
  | runningTimer => rfl

theorem LedgerStep.waitTimer_ends {s s' : Ledger} (h : LedgerStep .waitTimer s s')
    (hstate : s.state = .waiting) : s'.state = .cleanup := by
  cases h with
  | waitTimer => rfl
  | waitTimerUnexpected _ hother => exact absurd hstate hother

theorem LedgerStep.cleanupTimer_ends {s s' : Ledger} (h : LedgerStep .cleanupTimer s s')
    (hstate : s.state = .cleanup) : s'.state = .cleanupWaiting := by
  cases h with
  | cleanupTimer => rfl
  | cleanupTimerUnexpected _ hother => exact absurd hstate hother

/-- The periodic timer completes a manager in `CLEANUP_WAITING` without connections. -/
theorem LedgerStep.tick_completes {ok : ℕ → AllocOk} {s s' : Ledger}
    (h : LedgerStep (.timer ok) s s') (haccounts : s.AccountsOk)
    (hstate : s.state = .cleanupWaiting) (hnone : s.conns = []) : s'.state = .completed := by
  have hnconn : s.stats.nconn = 0 := by
    rw [haccounts.nconn, hnone]
    rfl
  cases h with
  | tickCompleted => rfl
  | tickCleanupWaiting _ _ hconns => exact absurd hnconn hconns
  | tickRunning _ hother => simp [hstate] at hother
  | tickWaiting _ hother => simp [hstate] at hother
  | tickWaitingDone _ hother => simp [hstate] at hother
  | tickCleanup _ hother => simp [hstate] at hother
  | tickLate _ hother => simp [hstate] at hother
  | tickInvalid _ hother => simp [hstate] at hother

/-! ## The phases of a fair course -/

section Phases

variable {cfg : MgrConfig} {m m' : CltMgr} {e : LoopEvent} {x : Course (cltMgrSystem cfg)}

theorem ledgerStep_of_reachable (hm : (cltMgrSystem cfg).Reachable m)
    (h : cltMgrStep e m = some m') : LedgerStep e m.ledger m'.ledger :=
  (cltMgrStep_refines (cltMgrOk_of_reachable hm) h).2

theorem running_pending (hperiod : 0 ≤ cfg.runningPeriodSec)
    (h : (cltMgrSystem cfg).Reachable m) (hstate : m.mgrState = .running) :
    m.tRunningTimerev.pending = true := by
  have hboth : (cltMgrSystem cfg).Reachable m ∧
      (m.mgrState = .running → m.tRunningTimerev.pending = true) := by
    refine (cltMgrSystem cfg).invariant
      (P := fun m => (cltMgrSystem cfg).Reachable m ∧
        (m.mgrState = .running → m.tRunningTimerev.pending = true)) ?_ ?_ m h
    · refine ⟨System.Reachable.init _, fun _ => ?_⟩
      have hset : cltMgrSetRunningTimer (cltMgrSetup cfg) =
          { cltMgrSetup cfg with tRunningTimerev := ⟨true⟩ } := if_neg (not_lt.mpr hperiod)
      simp [cltMgrSystem, cltMgrStart, cltMgrStateChange, hset]
    · rintro m e m' ⟨hm, hpending⟩ he
      refine ⟨hm.step he, fun hstate' => ?_⟩
      obtain ⟨hstate, hkept⟩ := (ledgerStep_of_reachable hm he).running_kept hstate'
      exact hkept.trans (hpending hstate)
  exact hboth.2 hstate

/-- A phase is followed by the next one when the event that ends it is pending as
long as it lasts. -/
theorem leadsTo_next_phase (hfair : LibeventFair x) {b : BaseEvent}
    (hb : ∀ id, b ≠ .connTimeout id) {p q : CltMgrState} {i : ℕ}
    (hp : phases[i]? = some p) (hq : phases[i + 1]? = some q)
    (hpending : ∀ m, (cltMgrSystem cfg).Reachable m → m.mgrState = p → b.Pending m)
    (hends : ∀ m e m', (cltMgrSystem cfg).Reachable m → m.mgrState = p → e.base = some b →
      cltMgrStep e m = some m' → m'.mgrState = q) :
    x.LeadsTo (fun m => m.mgrState = p) fun m => m.mgrState = q := by
  apply Course.LeadsTo.of_fair (hfair b hb) hpending
  · intro m e m' hm hstate he
    have hmove := ((ledgerStep_of_reachable hm he).phaseOk (phaseOk_of_reachable hm)).2
    have hwalk : StaysOrAdvances phases p m'.mgrState := hstate ▸ hmove
    exact hwalk.eq_or_eq (by decide) hp hq
  · intro m e m' hm hstate hkind he
    exact hends m e m' hm hstate hkind he

theorem running_leadsTo_waiting (hfair : LibeventFair x) (hperiod : 0 ≤ cfg.runningPeriodSec) :
    x.LeadsTo (fun m => m.mgrState = .running) fun m => m.mgrState = .waiting := by
  apply leadsTo_next_phase hfair (b := .runningTimer) (i := 0) (by simp) rfl rfl
  · intro m hm hstate
    exact running_pending hperiod hm hstate
  · intro m e m' hm hstate hkind he
    cases e with
    | runningTimer => exact (ledgerStep_of_reachable hm he).runningTimer_ends
    | _ => simp [LoopEvent.base] at hkind

theorem waiting_leadsTo_cleanup (hfair : LibeventFair x) :
    x.LeadsTo (fun m => m.mgrState = .waiting) fun m => m.mgrState = .cleanup := by
  apply leadsTo_next_phase hfair (b := .waitTimer) (i := 1) (by simp) rfl rfl
  · intro m hm hstate
    exact (phaseOk_of_reachable hm).wait.mpr hstate
  · intro m e m' hm hstate hkind he
    cases e with
    | waitTimer => exact (ledgerStep_of_reachable hm he).waitTimer_ends hstate
    | _ => simp [LoopEvent.base] at hkind

theorem cleanup_leadsTo_cleanupWaiting (hfair : LibeventFair x) :
    x.LeadsTo (fun m => m.mgrState = .cleanup) fun m => m.mgrState = .cleanupWaiting := by
  apply leadsTo_next_phase hfair (b := .cleanupTimer) (i := 2) (by simp) rfl rfl
  · intro m hm hstate
    exact (phaseOk_of_reachable hm).cleanup.mpr hstate
  · intro m e m' hm hstate hkind he
    cases e with
    | cleanupTimer => exact (ledgerStep_of_reachable hm he).cleanupTimer_ends hstate
    | _ => simp [LoopEvent.base] at hkind

/-! ## Draining the last connections -/

theorem cleanupWaiting_step (hm : (cltMgrSystem cfg).Reachable m)
    (hstate : m.mgrState = .cleanupWaiting) (h : cltMgrStep e m = some m') :
    (m'.mgrState = .completed ∨ m'.mgrState = .cleanupWaiting) ∧
      (m'.mgrConnList.map fun c => c.id).Sublist (m.mgrConnList.map fun c => c.id) := by
  have hstep := ledgerStep_of_reachable hm h
  have hphase := phaseOk_of_reachable hm
  have hmove : StaysOrAdvances phases .cleanupWaiting m'.mgrState :=
    hstate ▸ (hstep.phaseOk hphase).2
  have hleft : m.ledger.state ≠ .running := by
    simp [CltMgr.ledger, hstate]
  have hids := (hstep.onlyDrains hphase hleft).1.ids
  simp only [CltMgr.ledger, List.map_map] at hids
  refine ⟨?_, hids⟩
  exact (hmove.eq_or_eq (i := 3) (by decide) rfl rfl).symm

/-- One of the connections that are left is destroyed sooner or later. -/
theorem cleanupWaiting_leadsTo_fewer (hfair : LibeventFair x) {n : ℕ} (hn : 0 < n) :
    x.LeadsTo (fun m => m.mgrState = .cleanupWaiting ∧ m.mgrConnList.length = n)
      fun m => m.mgrState = .completed ∨
        m.mgrState = .cleanupWaiting ∧ m.mgrConnList.length < n := by
  rintro k ⟨hstate, hlength⟩
  obtain ⟨c, hc⟩ := List.exists_mem_of_length_pos (hlength ▸ hn)
  -- The connection `c` stays on the list until the list is shorter.
  have hdrain : x.LeadsTo
      (fun m => (m.mgrState = .cleanupWaiting ∧ m.mgrConnList.length = n) ∧
        c.id ∈ m.mgrConnList.map fun c => c.id)
      fun m => m.mgrState = .completed ∨
        m.mgrState = .cleanupWaiting ∧ m.mgrConnList.length < n := by
    apply Course.LeadsTo.of_fair (hfair (.connDestroy c.id) (by simp))
    · rintro m hm ⟨⟨hstate, -⟩, hid⟩
      obtain ⟨d, hd, hid⟩ := List.mem_map.mp hid
      have hdead : d.isDead = true :=
        (doomed_of_reachable hm).conns hstate d.entry (List.mem_map_of_mem hd)
      exact ⟨d, hd, hid, ((cltMgrOk_of_reachable hm).conns d hd).dead.trans hdead⟩
    · rintro m e m' hm ⟨⟨hstate, hlength⟩, hid⟩ he
      obtain ⟨hcompleted | hstays, hids⟩ := cleanupWaiting_step hm hstate he
      · exact Or.inr (Or.inl hcompleted)
      · have hle := hids.length_le
        simp only [List.length_map] at hle
        by_cases hsame : m'.mgrConnList.length = n
        · left
          refine ⟨⟨hstays, hsame⟩, ?_⟩
          rw [hids.eq_of_length (by simp [hsame, hlength])]
          exact hid
        · exact Or.inr (Or.inr ⟨hstays, by omega⟩)
    · rintro m e m' hm ⟨⟨hstate, hlength⟩, -⟩ hkind he
      obtain ⟨hcompleted | hstays, -⟩ := cleanupWaiting_step hm hstate he
      · exact Or.inl hcompleted
      · right
        refine ⟨hstays, ?_⟩
        cases e with
        | connDestroy id order ok =>
            have hdestroy : cltMgrStep (.connDestroy id order ok) m = some m' := he
            have hshort := (ledgerStep_of_reachable hm hdestroy).connDestroy_length
              (phaseOk_of_reachable hm) (by simp [CltMgr.ledger, hstate])
            simpa [CltMgr.ledger, hlength] using hshort
        | _ => simp [LoopEvent.base] at hkind
  exact hdrain k ⟨⟨hstate, hlength⟩, List.mem_map_of_mem hc⟩

theorem cleanupWaiting_leadsTo_completed_of_empty (hfair : LibeventFair x) :
    x.LeadsTo (fun m => m.mgrState = .cleanupWaiting ∧ m.mgrConnList.length = 0)
      fun m => m.mgrState = .completed := by
  apply Course.LeadsTo.of_fair (hfair .timer (by simp))
  · rintro m hm ⟨hstate, -⟩
    have hopen : m.ledger.state ≠ .completed := by
      simp [CltMgr.ledger, hstate]
    exact (phaseOk_of_reachable hm).timer.mpr hopen
  · rintro m e m' hm ⟨hstate, hnone⟩ he
    obtain ⟨hcompleted | hstays, hids⟩ := cleanupWaiting_step hm hstate he
    · exact Or.inr hcompleted
    · have hle := hids.length_le
      simp only [List.length_map, hnone] at hle
      exact Or.inl ⟨hstays, by omega⟩
  · rintro m e m' hm ⟨hstate, hnone⟩ hkind he
    cases e with
    | timer ok =>
        have htick : cltMgrStep (.timer ok) m = some m' := he
        apply (ledgerStep_of_reachable hm htick).tick_completes (accountsOk_of_reachable hm) hstate
        simpa [CltMgr.ledger] using hnone
    | _ => simp [LoopEvent.base] at hkind

theorem cleanupWaiting_leadsTo_completed (hfair : LibeventFair x) :
    x.LeadsTo (fun m => m.mgrState = .cleanupWaiting) fun m => m.mgrState = .completed := by
  apply Course.LeadsTo.of_measure fun m => m.mgrConnList.length
  intro n
  obtain rfl | hn := Nat.eq_zero_or_pos n
  · exact (cleanupWaiting_leadsTo_completed_of_empty hfair).mono (fun _ _ h => h)
      fun _ _ h => Or.inl h
  · exact cleanupWaiting_leadsTo_fewer hfair hn

/-! ## The end -/

theorem completed_leadsTo_published (hfair : LibeventFair x) :
    x.LeadsTo (fun m => m.mgrState = .completed)
      fun m => m.mgrState = .completed ∧ m.tStatTimerev.pending = false := by
  have hstep : ∀ m e m', (cltMgrSystem cfg).Reachable m → m.mgrState = .completed →
      cltMgrStep e m = some m' →
      m'.mgrState = .completed ∧ m'.tStatTimerev.pending = false := by
    intro m e m' hm hstate he
    obtain ⟨-, hledger⟩ := (ledgerStep_of_reachable hm he).completed
      (phaseOk_of_reachable hm) (accountsOk_of_reachable hm) hstate
    have hstate' := congrArg Ledger.state hledger
    have hstat' := congrArg (fun s => s.timers.stat) hledger
    exact ⟨hstate'.trans hstate, hstat'⟩
  apply Course.LeadsTo.of_cases (R := fun m => m.tStatTimerev.pending = false) _
    fun m hstate hstat => ⟨hstate, hstat⟩
  apply Course.LeadsTo.of_fair (hfair .statTimer (by simp))
  · rintro m - ⟨-, hpending⟩
    simpa [BaseEvent.Pending] using hpending
  · rintro m e m' hm ⟨hstate, -⟩ he
    exact Or.inr (hstep m e m' hm hstate he)
  · rintro m e m' hm ⟨hstate, -⟩ - he
    exact hstep m e m' hm hstate he

/-- Once it has left `RUNNING` a manager completes. -/
theorem leadsTo_published (hfair : LibeventFair x) :
    x.LeadsTo (fun m => m.mgrState ≠ .running)
      fun m => m.mgrState = .completed ∧ m.tStatTimerev.pending = false := by
  have hcompleted := completed_leadsTo_published hfair
  have hcleanupWaiting := (cleanupWaiting_leadsTo_completed hfair).trans hcompleted
  have hcleanup := (cleanup_leadsTo_cleanupWaiting hfair).trans hcleanupWaiting
  have hwaiting := (waiting_leadsTo_cleanup hfair).trans hcleanup
  refine (((hwaiting.or hcleanup).or hcleanupWaiting).or hcompleted).mono ?_ fun _ _ h => h
  intro m hm hstate
  have hentered : m.mgrState ∈ phases := (phaseOk_of_reachable hm).entered
  simp only [phases, List.mem_cons, List.not_mem_nil, or_false] at hentered
  tauto

/-- The end of a manager: no connection is left, all those that were opened are
freed, the statistics handed out last are the final ones, and nothing is pending. -/
structure CltMgr.Ended (m : CltMgr) : Prop where
  state : m.mgrState = .completed
  conns : m.mgrConnList = []
  freed : m.freedConns.length = m.stats.connCount
  published : m.prevStats = m.stats
  idle : m.Idle

theorem ended_of_published (hm : (cltMgrSystem cfg).Reachable m)
    (hstate : m.mgrState = .completed) (hstat : m.tStatTimerev.pending = false) : m.Ended := by
  have hphase : Client.PhaseOk m.mgrState m.timers _ := phaseOk_of_reachable hm
  have haccounts : Accounts _ _ _ _ _ := accountsOk_of_reachable hm
  have hconns : m.mgrConnList = [] := List.map_eq_nil_iff.mp (haccounts.completed hstate)
  have hrunning := hphase.running
  have hwait := hphase.wait
  have hcleanup := hphase.cleanup
  have htimer := hphase.timer
  simp only [CltMgr.timers, hstate, reduceCtorEq, iff_false, imp_false, not_true_eq_false,
    ne_eq, Bool.not_eq_true] at hrunning hwait hcleanup htimer
  refine ⟨hstate, hconns, ?_, ?_, ?_, ?_⟩
  · have hopened := haccounts.opened
    simpa [CltMgr.ledger, hconns, eq_comm] using hopened
  · rcases published_of_reachable hm with hpending | ⟨-, hsame⟩
    · simp [CltMgr.ledger, CltMgr.timers, hstat] at hpending
    · exact hsame
  · intro b
    cases b <;> simp [BaseEvent.Pending, hconns, hstat, hrunning, hwait, hcleanup, htimer]
  · simp [hconns]

theorem CltMgr.Ended.step_eq_none (h : m.Ended) (hm : (cltMgrSystem cfg).Reachable m)
    (e : LoopEvent) : cltMgrStep e m = none := by
  rw [Option.eq_none_iff_forall_ne_some]
  intro m' he
  obtain ⟨rfl, -⟩ := (ledgerStep_of_reachable hm he).completed (phaseOk_of_reachable hm)
    (accountsOk_of_reachable hm) h.state
  have hidle : m.tStatTimerev.pending = false := by
    simpa [BaseEvent.Pending] using h.idle.events .statTimer
  simp [cltMgrStep, hidle] at he

/-- A manager with a running period, or one that leaves `RUNNING` for another
reason, comes to its end. -/
theorem leadsTo_ended (hfair : LibeventFair x)
    (hleft : 0 ≤ cfg.runningPeriodSec ∨ ∃ n, (x.state n).mgrState ≠ .running) :
    x.LeadsTo (fun _ => True) CltMgr.Ended := by
  have hout : x.LeadsTo (fun _ => True) fun m => m.mgrState ≠ .running := by
    rcases hleft with hperiod | ⟨n, hn⟩
    · have hwaiting : x.LeadsTo (fun m => m.mgrState = .running) fun m => m.mgrState ≠ .running :=
        (running_leadsTo_waiting hfair hperiod).mono (fun _ _ h => h) (by intro m _ h; simp [h])
      intro k _
      by_cases hstate : (x.state k).mgrState = .running
      · exact hwaiting k hstate
      · exact ⟨k, le_rfl, hstate⟩
    · intro k _
      have hstays := x.persists (P := fun m => m.mgrState ≠ .running) ?_ hn
      · exact ⟨max k n, le_max_left k n, hstays _ (le_max_right k n)⟩
      · intro m e m' hm hstate he
        exact ((ledgerStep_of_reachable hm he).onlyDrains (phaseOk_of_reachable hm) hstate).2
  exact (hout.trans (leadsTo_published hfair)).mono (fun _ _ h => h)
    fun m hm h => ended_of_published hm h.1 h.2

end Phases

/-- A manager whose events are delivered sooner or later comes to its end and
rests there; the one exception is a manager without a running period that stays
in `RUNNING` for ever. -/
theorem manager_completes {cfg : MgrConfig} (x : Course (cltMgrSystem cfg))
    (hfair : LibeventFair x) :
    (∃ n, (x.state n).Ended ∧
        ∀ k, n ≤ k → x.state k = x.state n ∧ x.event k = none) ∨
      cfg.runningPeriodSec < 0 ∧ ∀ n, (x.state n).mgrState = .running := by
  by_cases hforever : cfg.runningPeriodSec < 0 ∧ ∀ n, (x.state n).mgrState = .running
  · exact Or.inr hforever
  · have hleft : 0 ≤ cfg.runningPeriodSec ∨ ∃ n, (x.state n).mgrState ≠ .running := by
      by_contra hnever
      push Not at hnever
      exact hforever hnever
    obtain ⟨k, -, hended⟩ := leadsTo_ended hfair hleft 0 trivial
    exact Or.inl ⟨k, hended, x.rests (hended.step_eq_none (x.reachable k))⟩

/-- The events of a manager with two connections from its start to its end. -/
def wholeRun : List LoopEvent :=
  [.timer fun _ => allocAll, .runningTimer, .waitTimer, .cleanupTimer,
    .connDestroy 0 .requestFirst allocAll, .connDestroy 1 .connectionFirst allocAll,
    .timer fun _ => allocAll, .statTimer]

theorem exists_wholeRun : ∃ m, (cltMgrSystem oneHostConfig).run wholeRun = some m ∧
    m.mgrState = .completed ∧ m.tStatTimerev.pending = false :=
  ⟨_, rfl, rfl, rfl⟩

/-- The course that takes these events and rests is fair. -/
theorem manager_completes_wholeRun :
    ∃ x : Course (cltMgrSystem oneHostConfig), LibeventFair x ∧ ∃ n, (x.state n).Ended := by
  obtain ⟨m, hm, hstate, hstat⟩ := exists_wholeRun
  have hended := ended_of_published ⟨_, hm⟩ hstate hstat
  have hfair : LibeventFair (Course.ofRun hm) :=
    fun b _ => Course.ofRun_fair hm (hended.idle.events b)
  refine ⟨Course.ofRun hm, hfair, ?_⟩
  rcases manager_completes (Course.ofRun hm) hfair with ⟨n, hn, -⟩ | ⟨hperiod, -⟩
  · exact ⟨n, hn⟩
  · exact absurd hperiod (by decide)

end EvhtpHttp.Client

import EvhtpHttp.Client.Completion
import EvhtpHttp.Client.Program

/-!
# The end of the program

When every thread that can take a step takes one sooner or later, the program
ends: the managers complete, their threads return, `main` joins them and clears
the flag, the statistics thread ends after its pass, and `main` prints the total
after all its reports.
-/

namespace EvhtpHttp.Client

open EvhtpHttp.Support

/-! ## The transcript -/

/-- What the statistics thread prints for the sums of its passes, after the sum
`prev`. -/
def passLines : MgrStats → List MgrStats → List (String × MgrStats)
  | _, [] => []
  | prev, s :: rest =>
    ("interval_total", s) :: ("interval_diff", mgrStatsDiff prev s) :: passLines s rest

theorem passLines_concat (prev : MgrStats) (passes : List MgrStats) (s : MgrStats) :
    passLines prev (passes ++ [s]) = passLines prev passes ++
      [("interval_total", s), ("interval_diff", mgrStatsDiff (passes.getLastD prev) s)] := by
  induction passes generalizing prev with
  | nil => rfl
  | cons t rest ih =>
      simp only [List.cons_append, passLines, ih t]
      rw [List.getLastD_cons]

/-- What the statistics thread and `main` have printed: the reports of the passes, and
the total in the end. -/
structure App.Transcript (a : App) (passes : List MgrStats) : Prop where
  last : a.prevStats = passes.getLastD MgrStats.zero
  output : a.output = passLines MgrStats.zero passes ++
    if a.mainPc = .done then [("run_total", a.prevStats)] else []

theorem AppStep.transcript {e : AppEvent} {a a' : App} (h : AppStep a e a') (ha : AppOk a)
    (hlines : ∃ passes, a.Transcript passes) : ∃ passes, a'.Transcript passes := by
  obtain ⟨passes, hlast, houtput⟩ := hlines
  cases h with
  | @pass i s hpc hend =>
      have hopen : a.mainPc ≠ .done := by
        intro hdone
        have hended := ha.ended (Or.inr hdone)
        rw [hpc] at hended
        cases hended
      refine ⟨passes ++ [s], by simp, ?_⟩
      rw [if_neg hopen, List.append_nil] at houtput
      simp [hopen, houtput, hlast, passLines_concat]
  | join hpc => exact ⟨passes, hlast, by simpa [hpc] using houtput⟩
  | joined hpc => exact ⟨passes, hlast, by simpa [hpc] using houtput⟩
  | clear hpc => exact ⟨passes, hlast, by simpa [hpc] using houtput⟩
  | joinStats hpc => exact ⟨passes, hlast, by simpa [hpc] using houtput⟩
  | print hpc =>
      refine ⟨passes, hlast, ?_⟩
      simpa [hpc] using houtput
  | _ => exact ⟨passes, hlast, houtput⟩

theorem transcript_of_run {n : ℕ} {es : List AppEvent} {a : App}
    (h : (appSystem n).run es = some a) : ∃ passes, a.Transcript passes := by
  refine (appSystem n).run_induction (P := fun _ a => ∃ passes, a.Transcript passes)
    ⟨[], rfl, rfl⟩ ?_ es a h
  intro es e a a' hrun ha hstep
  exact (appStep_of_step hstep).transcript (appOk_of_run hrun) ha

/-! ## Steps of the threads -/

/-- Worker `i` has returned. -/
def App.Returned (i : ℕ) (a : App) : Prop :=
  ∃ thr, a.th[i]? = some thr ∧ thr.exited = true

/-- The steps that `main` still has to take. -/
def mainRank (n : ℕ) : MainPc → ℕ
  | .join i => n - i + 4
  | .clearFlag => 3
  | .joinStats => 2
  | .print => 1
  | .done => 0

/-- The steps that the statistics thread still has to take once the flag is clear. -/
def statsRank (n : ℕ) : StatsPc → ℕ
  | .sleep => n + 3
  | .read i _ => n - i + 2
  | .test => 1
  | .exited => 0

section Threads

variable {n : ℕ} {a a' : App} {e : AppEvent}

theorem AppStep.returned {i : ℕ} (h : AppStep a e a') (hi : a.Returned i) : a'.Returned i := by
  obtain ⟨thr, hthr, hexited⟩ := hi
  have hother : ∀ {j : ℕ} {old new : CltThr}, a.th[j]? = some old → old.exited = false →
      App.Returned i { a with th := a.th.set j new } := by
    intro j old new hold halive
    have hne : j ≠ i := by
      rintro rfl
      obtain rfl := Option.some.inj (hold.symm.trans hthr)
      rw [halive] at hexited
      cases hexited
    exact ⟨thr, by simpa [List.getElem?_set_ne hne] using hthr, hexited⟩
  cases h with
  | publish hold halive => exact hother hold halive
  | exit hold halive => exact hother hold halive
  | _ => exact ⟨thr, hthr, hexited⟩

theorem AppStep.exit_returned {i : ℕ} (h : AppStep a (.exit i) a') : a'.Returned i := by
  cases h with
  | @exit _ thr hthr =>
      obtain ⟨hlt, -⟩ := List.getElem?_eq_some_iff.mp hthr
      exact ⟨{ thr with exited := true }, by simp [hlt], rfl⟩

theorem AppStep.main_stays (h : AppStep a e a') (he : e ≠ .main) :
    a'.mainPc = a.mainPc ∧ a'.statsThreadRun = a.statsThreadRun := by
  cases h with
  | join => exact absurd rfl he
  | joined => exact absurd rfl he
  | clear => exact absurd rfl he
  | joinStats => exact absurd rfl he
  | print => exact absurd rfl he
  | _ => exact ⟨rfl, rfl⟩

theorem AppStep.stats_stays (h : AppStep a e a') (he : e ≠ .stats) :
    a'.statsPc = a.statsPc := by
  cases h with
  | testRun => exact absurd rfl he
  | testEnd => exact absurd rfl he
  | wake => exact absurd rfl he
  | read => exact absurd rfl he
  | pass => exact absurd rfl he
  | _ => rfl

theorem AppStep.main_rank (h : AppStep a .main a') (hlength : a.th.length = n) :
    mainRank n a'.mainPc < mainRank n a.mainPc := by
  cases h with
  | join hpc hthr =>
      obtain ⟨hlt, -⟩ := List.getElem?_eq_some_iff.mp hthr
      simp only [mainRank, hpc]
      omega
  | joined hpc => simp [mainRank, hpc]
  | clear hpc => simp [mainRank, hpc]
  | joinStats hpc => simp [mainRank, hpc]
  | print hpc => simp [mainRank, hpc]

theorem AppStep.stats_rank (h : AppStep a .stats a') (hflag : a.statsThreadRun = false)
    (hlength : a.th.length = n) : statsRank n a'.statsPc < statsRank n a.statsPc := by
  cases h with
  | testRun _ hrun =>
      rw [hflag] at hrun
      cases hrun
  | testEnd hpc => simp [statsRank, hpc]
  | wake hpc => simp [statsRank, hpc]
  | read hpc hthr =>
      obtain ⟨hlt, -⟩ := List.getElem?_eq_some_iff.mp hthr
      simp only [statsRank, hpc]
      omega
  | pass hpc => simp [statsRank, hpc]

end Threads

/-- The flag is cleared before `main` waits for the statistics thread. -/
def App.FlagOk (a : App) : Prop :=
  a.mainPc = .joinStats ∨ a.mainPc = .print ∨ a.mainPc = .done → a.statsThreadRun = false

theorem AppStep.flagOk {e : AppEvent} {a a' : App} (h : AppStep a e a') (ha : a.FlagOk) :
    a'.FlagOk := by
  intro hlater
  cases h with
  | join => simp at hlater
  | joined => simp at hlater
  | clear => rfl
  | joinStats hpc => exact ha (Or.inl hpc)
  | print hpc => exact ha (Or.inr (Or.inl hpc))
  | _ => exact ha hlater

/-! ## The threads of `main` -/

section Main

variable {n : ℕ} {a a' : App} {e : AppEvent}

theorem flagOk_of_reachable (h : (appSystem n).Reachable a) : a.FlagOk := by
  refine (appSystem n).invariant ?_ ?_ a h
  · intro hlater
    simp [appSystem, App.start] at hlater
  · intro a e a' ha hstep
    exact (appStep_of_step hstep).flagOk ha

/-- `main` is never held up once the workers have returned, but for the statistics
thread. -/
theorem appMain_isSome (hreturned : ∀ i < a.th.length, a.Returned i)
    (hstats : a.mainPc = .joinStats → a.statsPc = .exited) (hdone : a.mainPc ≠ .done) :
    (appMain a).isSome := by
  unfold appMain
  cases hpc : a.mainPc with
  | join i =>
      cases hthr : a.th[i]? with
      | none => simp [hthr]
      | some thr =>
          obtain ⟨hlt, -⟩ := List.getElem?_eq_some_iff.mp hthr
          obtain ⟨thr', hthr', hexited⟩ := hreturned i hlt
          obtain rfl := Option.some.inj (hthr.symm.trans hthr')
          simp [hthr, hexited]
  | clearFlag => simp
  | joinStats => simp [hstats hpc]
  | print => simp
  | done => exact absurd hpc hdone

theorem appStatsThread_isSome (h : a.statsPc ≠ .exited) : (appStatsThread a).isSome := by
  unfold appStatsThread
  cases hpc : a.statsPc with
  | test => simp
  | sleep => simp
  | read i s =>
      cases hthr : a.th[i]? with
      | none => simp [hthr]
      | some thr => simp [hthr]
  | exited => exact absurd hpc h

/-- All workers have returned. -/
def App.AllReturned (n : ℕ) (a : App) : Prop :=
  ∀ i : Fin n, a.Returned i

theorem AppStep.allReturned (h : AppStep a e a') (ha : a.AllReturned n) : a'.AllReturned n :=
  fun i => h.returned (ha i)

variable {y : Course (appSystem n)}

/-- `main` and the statistics thread take their steps. -/
structure ThreadsFair (y : Course (appSystem n)) : Prop where
  stats : y.Fair (fun e => e = .stats) fun a => (appStatsThread a).isSome
  main : y.Fair (fun e => e = .main) fun a => (appMain a).isSome

/-- `main` gets on, as long as nothing but the statistics thread may hold it up. -/
theorem main_leadsTo (hfair : ThreadsFair y) {P Q : App → Prop}
    (hstep : ∀ a e a', (appSystem n).Reachable a → P a → AppStep a e a' → P a' ∨ Q a')
    (hreturned : ∀ a, P a → a.AllReturned n)
    (hstats : ∀ a, (appSystem n).Reachable a → P a → a.mainPc = .joinStats → a.statsPc = .exited)
    (hopen : ∀ a, (appSystem n).Reachable a → P a → a.mainPc ≠ .done) :
    y.LeadsTo P Q := by
  apply Course.LeadsTo.of_measure fun a => mainRank n a.mainPc
  intro r
  apply Course.LeadsTo.of_fair hfair.main
  · rintro a ha ⟨hP, -⟩
    apply appMain_isSome _ (hstats a ha hP) (hopen a ha hP)
    intro i hi
    exact hreturned a hP ⟨i, threads_length ha ▸ hi⟩
  · rintro a e a' ha ⟨hP, hr⟩ he
    have hmove := appStep_of_step he
    rcases hstep a e a' ha hP hmove with hP' | hQ
    · by_cases hmain : e = .main
      · subst hmain
        exact Or.inr (Or.inr ⟨hP', hr ▸ hmove.main_rank (threads_length ha)⟩)
      · exact Or.inl ⟨hP', by rw [(hmove.main_stays hmain).1, hr]⟩
    · exact Or.inr (Or.inl hQ)
  · rintro a e a' ha ⟨hP, hr⟩ rfl he
    have hmove := appStep_of_step he
    rcases hstep a .main a' ha hP hmove with hP' | hQ
    · exact Or.inr ⟨hP', hr ▸ hmove.main_rank (threads_length ha)⟩
    · exact Or.inl hQ

/-- After the workers have returned `main` clears the flag. -/
theorem returned_leadsTo_clear (hfair : ThreadsFair y) :
    y.LeadsTo (App.AllReturned n) fun a => a.AllReturned n ∧ a.statsThreadRun = false := by
  have hbefore : ∀ a, (appSystem n).Reachable a → ¬ a.statsThreadRun = false →
      a.mainPc ≠ .joinStats ∧ a.mainPc ≠ .done := by
    intro a ha hrun
    constructor
    · intro hpc
      exact hrun (flagOk_of_reachable ha (Or.inl hpc))
    · intro hpc
      exact hrun (flagOk_of_reachable ha (Or.inr (Or.inr hpc)))
  apply Course.LeadsTo.of_cases (R := fun a => a.statsThreadRun = false) _ fun a h h' => ⟨h, h'⟩
  apply main_leadsTo hfair
  · rintro a e a' - ⟨hreturned, -⟩ hmove
    by_cases hflag : a'.statsThreadRun = false
    · exact Or.inr ⟨hmove.allReturned hreturned, hflag⟩
    · exact Or.inl ⟨hmove.allReturned hreturned, hflag⟩
  · exact fun a h => h.1
  · exact fun a ha h hpc => absurd hpc (hbefore a ha h.2).1
  · exact fun a ha h => (hbefore a ha h.2).2

/-- Once the flag is cleared only steps of the threads themselves are left. -/
theorem AppStep.flag_stays (h : AppStep a e a') (hflag : a.statsThreadRun = false) :
    a'.statsThreadRun = false := by
  cases h with
  | clear => rfl
  | _ => exact hflag

/-- With the flag cleared the statistics thread ends after its pass. -/
theorem clear_leadsTo_exited (hfair : ThreadsFair y) :
    y.LeadsTo (fun a => a.AllReturned n ∧ a.statsThreadRun = false)
      fun a => a.AllReturned n ∧ a.statsPc = .exited := by
  apply Course.LeadsTo.of_measure fun a => statsRank n a.statsPc
  intro r
  apply Course.LeadsTo.of_cases (R := fun a => a.statsPc = .exited) _
    fun a h hpc => Or.inl ⟨h.1.1, hpc⟩
  have hkept : ∀ a e a', a.AllReturned n ∧ a.statsThreadRun = false → AppStep a e a' →
      a'.AllReturned n ∧ a'.statsThreadRun = false :=
    fun a e a' h hmove => ⟨hmove.allReturned h.1, hmove.flag_stays h.2⟩
  apply Course.LeadsTo.of_fair hfair.stats
  · rintro a - ⟨-, hopen⟩
    exact appStatsThread_isSome hopen
  · rintro a e a' ha ⟨⟨hP, hr⟩, hopen⟩ he
    have hmove := appStep_of_step he
    by_cases hstats : e = .stats
    · subst hstats
      exact Or.inr (Or.inr ⟨hkept _ _ _ hP hmove,
        hr ▸ hmove.stats_rank hP.2 (threads_length ha)⟩)
    · rw [hmove.stats_stays hstats]
      exact Or.inl ⟨⟨hkept _ _ _ hP hmove, hr⟩, hopen⟩
  · rintro a e a' ha ⟨⟨hP, hr⟩, -⟩ rfl he
    have hmove := appStep_of_step he
    exact Or.inr ⟨hkept _ _ _ hP hmove, hr ▸ hmove.stats_rank hP.2 (threads_length ha)⟩

theorem AppStep.stats_exited (h : AppStep a e a') (hpc : a.statsPc = .exited) :
    a'.statsPc = .exited := by
  by_cases he : e = .stats
  · subst he
    cases h with
    | testRun hother => simp [hpc] at hother
    | testEnd hother => simp [hpc] at hother
    | wake hother => simp [hpc] at hother
    | read hother => simp [hpc] at hother
    | pass hother => simp [hpc] at hother
  · exact (h.stats_stays he).trans hpc

theorem exited_leadsTo_done (hfair : ThreadsFair y) :
    y.LeadsTo (fun a => a.AllReturned n ∧ a.statsPc = .exited)
      fun a => (a.AllReturned n ∧ a.statsPc = .exited) ∧ a.mainPc = .done := by
  apply Course.LeadsTo.of_cases (R := fun a => a.mainPc = .done) _ fun a h hpc => ⟨h, hpc⟩
  apply main_leadsTo hfair
  · rintro a e a' - ⟨⟨hreturned, hpc⟩, -⟩ hmove
    have hkept := And.intro (hmove.allReturned hreturned) (hmove.stats_exited hpc)
    by_cases hdone : a'.mainPc = .done
    · exact Or.inr ⟨hkept, hdone⟩
    · exact Or.inl ⟨hkept, hdone⟩
  · exact fun a h => h.1.1
  · exact fun a _ h _ => h.1.2
  · exact fun a _ h => h.2

theorem returned_leadsTo_done (hfair : ThreadsFair y) :
    y.LeadsTo (App.AllReturned n)
      fun a => (a.AllReturned n ∧ a.statsPc = .exited) ∧ a.mainPc = .done :=
  ((returned_leadsTo_clear hfair).trans (clear_leadsTo_exited hfair)).trans
    (exited_leadsTo_done hfair)

end Main

/-! ## The whole program -/

section Program

variable {cfg : MgrConfig}

/-- The event that worker `i` delivers to its manager. -/
def ProgramEvent.ofWorker {n : ℕ} (i : Fin n) : ProgramEvent n → Option LoopEvent
  | .worker j e => if j = i then some e else none
  | _ => none

/-- What a step of the program is to the threads of `main`. -/
def ProgramEvent.ofThreads (p : Program cfg) :
    ProgramEvent cfg.numThreads.toNat → Option AppEvent
  | .worker i .statTimer => some (.publish i (p.mgrs i).stats)
  | d => d.thread

theorem programOk_of_reachable {p : Program cfg} (h : (program cfg).Reachable p) : p.Ok :=
  (program cfg).invariant (programOk_start cfg)
    (fun _ _ _ hp hstep => (programStep_of_step hstep).ok hp) p h

/-- The manager of worker `i` in the program. -/
def workerView (cfg : MgrConfig) (i : Fin cfg.numThreads.toNat) :
    View (program cfg) (cltMgrSystem (workerConfig cfg)) where
  state p := p.mgrs i
  event d _ := d.ofWorker i
  start := rfl
  next d p p' h := by
    have hmanager : ∀ {j : Fin cfg.numThreads.toNat} {e : LoopEvent} {m : CltMgr},
        cltMgrStep e (p.mgrs j) = some m →
        (cltMgrSystem (workerConfig cfg)).Takes (ProgramEvent.ofWorker i (.worker j e))
          (p.mgrs i) (Function.update p.mgrs j m i) := by
      intro j e m hm
      by_cases hij : j = i
      · subst hij
        rw [ProgramEvent.ofWorker, if_pos rfl, Function.update_self]
        exact hm
      · simp [ProgramEvent.ofWorker, System.Takes, hij, Function.update_of_ne (Ne.symm hij)]
    cases programStep_of_step h with
    | manager hm => exact hmanager hm
    | publish hm => exact hmanager hm
    | thread he =>
        cases d with
        | worker => simp [ProgramEvent.thread] at he
        | _ => exact rfl

/-- The threads that `main` started, in the program. -/
def threadsView (cfg : MgrConfig) : View (program cfg) (appSystem cfg.numThreads.toNat) where
  state p := p.app
  event d p := d.ofThreads p
  start := rfl
  next d p p' h := by
    have hthread : ∀ {e : AppEvent}, p.thread e = some p' →
        (appSystem cfg.numThreads.toNat).step e p.app = some p'.app := by
      intro e he
      obtain ⟨app, happ, hret⟩ := Option.bind_eq_some_iff.mp he
      obtain rfl := Option.some.inj hret
      exact happ
    cases d with
    | worker i e =>
        cases programStep_of_step h with
        | manager _ he =>
            have hnone : ProgramEvent.ofThreads p (.worker i e) = none := by
              cases e with
              | statTimer => exact absurd rfl he
              | _ => rfl
            rw [hnone]
            exact rfl
        | publish hm happ =>
            obtain ⟨hstats, -⟩ := cltMgrStep_statTimer hm
            cases happ with
            | publish hthr halive =>
                simp [ProgramEvent.ofThreads, System.Takes, appSystem, App.worker, hthr, halive,
                  cltMgrStatsNotify, mgrStatsCopy, hstats]
        | thread he => simp [ProgramEvent.thread] at he
    | exit i => exact hthread h
    | stats => exact hthread h
    | main => exact hthread h

/-- Every thread takes its steps: libevent delivers to the manager of a worker what
stays pending, the worker returns when its `event_base` is empty, and so on. -/
structure ProgramFair (x : Course (program cfg)) : Prop where
  workers : ∀ i (b : BaseEvent), (∀ id, b ≠ .connTimeout id) →
    x.Fair (fun d => ∃ e, d = .worker i e ∧ e.base = some b) fun p => b.Pending (p.mgrs i)
  exits : ∀ i, x.Fair (fun d => d = .exit i) fun p => (p.mgrs i).Idle ∧ ¬ p.app.Returned i
  stats : x.Fair (fun d => d = .stats) fun p => (appStatsThread p.app).isSome
  main : x.Fair (fun d => d = .main) fun p => (appMain p.app).isSome

variable {x : Course (program cfg)}

theorem ProgramFair.libevent (h : ProgramFair x) (i : Fin cfg.numThreads.toNat) :
    LibeventFair ((workerView cfg i).course x) := by
  intro b hb
  apply View.course_fair _ (h.workers i b hb)
  rintro - p ⟨e, rfl, he⟩
  exact ⟨e, by simp [workerView, ProgramEvent.ofWorker], he⟩

theorem ProgramFair.threads (h : ProgramFair x) : ThreadsFair ((threadsView cfg).course x) where
  stats := by
    apply View.course_fair _ h.stats
    rintro - p rfl
    exact ⟨_, rfl, rfl⟩
  main := by
    apply View.course_fair _ h.main
    rintro - p rfl
    exact ⟨_, rfl, rfl⟩

theorem mgrs_of_ended {p p' : Program cfg} {d : ProgramEvent cfg.numThreads.toNat}
    {i : Fin cfg.numThreads.toNat} (hp : (program cfg).Reachable p) (hended : (p.mgrs i).Ended)
    (h : (program cfg).step d p = some p') : p'.mgrs i = p.mgrs i := by
  have hview := (workerView cfg i).next d p p' h
  cases hevent : (workerView cfg i).event d p with
  | none =>
      rw [hevent] at hview
      exact hview
  | some e =>
      rw [hevent] at hview
      have hnone := hended.step_eq_none ((programOk_of_reachable hp).reachable i) e
      have hsome : cltMgrStep e (p.mgrs i) = some (p'.mgrs i) := hview
      rw [hnone] at hsome
      cases hsome

theorem returned_step {p p' : Program cfg} {d : ProgramEvent cfg.numThreads.toNat} {i : ℕ}
    (hi : p.app.Returned i) (h : (program cfg).step d p = some p') : p'.app.Returned i := by
  have hview := (threadsView cfg).next d p p' h
  cases hevent : (threadsView cfg).event d p with
  | none =>
      rw [hevent] at hview
      have hsame : p'.app = p.app := hview
      rwa [hsame]
  | some e =>
      rw [hevent] at hview
      exact (appStep_of_step hview).returned hi

theorem ended_leadsTo_returned (hfair : ProgramFair x) (i : Fin cfg.numThreads.toNat) :
    x.LeadsTo (fun p => (p.mgrs i).Ended) fun p => (p.mgrs i).Ended ∧ p.app.Returned i := by
  apply Course.LeadsTo.of_cases (R := fun p => p.app.Returned i) _ fun p h h' => ⟨h, h'⟩
  apply Course.LeadsTo.of_fair (hfair.exits i)
  · rintro p - ⟨hended, hopen⟩
    exact ⟨hended.idle, hopen⟩
  · rintro p d p' hp ⟨hended, -⟩ hd
    have hended' : (p'.mgrs i).Ended := mgrs_of_ended hp hended hd ▸ hended
    by_cases hreturned : p'.app.Returned i
    · exact Or.inr ⟨hended', hreturned⟩
    · exact Or.inl ⟨hended', hreturned⟩
  · rintro p d p' hp ⟨hended, -⟩ rfl hd
    have hview := (threadsView cfg).next _ p p' hd
    exact ⟨mgrs_of_ended hp hended hd ▸ hended, (appStep_of_step hview).exit_returned⟩

/-- The program after its end: every manager has completed and published its final
statistics, and every thread has returned. -/
structure Program.Ended (p : Program cfg) : Prop where
  mgrs : ∀ i, (p.mgrs i).Ended
  published : ∀ (i : Fin cfg.numThreads.toNat) thr, p.app.th[i.val]? = some thr →
    thr.exited = true ∧ thr.prevStats = (p.mgrs i).stats
  stats : p.app.statsPc = .exited
  main : p.app.mainPc = .done

theorem Program.Ended.step_eq_none {p : Program cfg} (h : p.Ended)
    (hp : (program cfg).Reachable p) (d : ProgramEvent cfg.numThreads.toNat) :
    (program cfg).step d p = none := by
  cases d with
  | worker i e =>
      have hnone := (h.mgrs i).step_eq_none ((programOk_of_reachable hp).reachable i) e
      simp [program, Program.worker, hnone]
  | exit i =>
      have hnone : p.app.worker i (fun thr => { thr with exited := true }) = none := by
        unfold App.worker
        cases hthr : p.app.th[i.val]? with
        | none => rfl
        | some thr => simp [(h.published i thr hthr).1]
      simp [program, Program.thread, appSystem, hnone]
  | stats => simp [program, Program.thread, appSystem, appStatsThread, h.stats]
  | main => simp [program, Program.thread, appSystem, appMain, h.main]

end Program

/-- If every worker has a running period or leaves `RUNNING` for another reason, the
program ends: all managers have completed, all threads have returned and nothing is
left to do.  The statistics thread and `main` have printed the reports of the passes
and, after them and once, the total, which is the sum of the last pass. -/
theorem program_ends {cfg : MgrConfig} {x : Course (program cfg)} (hfair : ProgramFair x)
    (hleft : ∀ i, 0 ≤ cfg.runningPeriodSec ∨ ∃ n, ((x.state n).mgrs i).mgrState ≠ .running) :
    ∃ n passes, (x.state n).Ended ∧
      (∀ k, n ≤ k → x.state k = x.state n ∧ x.event k = none) ∧
      (x.state n).app.output = passLines MgrStats.zero passes ++
        [("run_total", passes.getLastD MgrStats.zero)] := by
  have hworkers : x.LeadsTo (fun _ => True)
      fun p => ∀ i, (p.mgrs i).Ended ∧ p.app.Returned i := by
    apply Course.LeadsTo.all
    · intro i
      have hended : x.LeadsTo (fun _ => True) fun p => (p.mgrs i).Ended :=
        leadsTo_ended (hfair.libevent i) (hleft i)
      exact hended.trans (ended_leadsTo_returned hfair i)
    · rintro i p d p' hp ⟨hended, hreturned⟩ hd
      exact ⟨mgrs_of_ended hp hended hd ▸ hended, returned_step hreturned hd⟩
  obtain ⟨k, -, hk⟩ := hworkers 0 trivial
  obtain ⟨n, hkn, ⟨-, hstats⟩, hdone⟩ := returned_leadsTo_done hfair.threads k fun i => (hk i).2
  have hstays := x.persists (P := fun p => ∀ i, (p.mgrs i).Ended ∧ p.app.Returned i) ?_ hk n hkn
  · have hended : (x.state n).Ended := by
      refine ⟨fun i => (hstays i).1, ?_, hstats, hdone⟩
      intro i thr hthr
      obtain ⟨thr', hthr', hexited⟩ := (hstays i).2
      obtain rfl := Option.some.inj (hthr.symm.trans hthr')
      have hpublished := (programOk_of_reachable (x.reachable n)).published i thr hthr
      exact ⟨hexited, hpublished.trans (hstays i).1.published⟩
    obtain ⟨es, hes⟩ := ((threadsView cfg).course x).reachable n
    obtain ⟨passes, hlast, houtput⟩ := transcript_of_run hes
    refine ⟨n, passes, hended, x.rests (hended.step_eq_none (x.reachable n)), ?_⟩
    rw [if_pos hdone, hlast] at houtput
    exact houtput
  · intro p d p' hp h hd i
    obtain ⟨hended, hreturned⟩ := h i
    exact ⟨mgrs_of_ended hp hended hd ▸ hended, returned_step hreturned hd⟩

/-- The course that rests after a run of the program to its end is fair. -/
theorem programFair_ofRun {cfg : MgrConfig} {ds : List (ProgramEvent cfg.numThreads.toNat)}
    {p : Program cfg} (h : (program cfg).run ds = some p) (hended : p.Ended) :
    ProgramFair (Course.ofRun h) where
  workers i b _ := Course.ofRun_fair h ((hended.mgrs i).idle.events b)
  exits i := by
    apply Course.ofRun_fair h
    rintro ⟨-, hopen⟩
    have hlength := (programOk_of_reachable ⟨ds, h⟩).length
    obtain ⟨thr, hthr⟩ : ∃ thr, p.app.th[i.val]? = some thr :=
      ⟨_, List.getElem?_eq_getElem (by rw [hlength]; exact i.isLt)⟩
    exact hopen ⟨thr, hthr, (hended.published i thr hthr).1⟩
  stats := by
    apply Course.ofRun_fair h
    simp [appStatsThread, hended.stats]
  main := by
    apply Course.ofRun_fair h
    simp [appMain, hended.main]

/-- One worker from its start to its end, with one pass of the statistics thread
after it has returned. -/
def wholeProgramRun : List (ProgramEvent oneHostConfig.numThreads.toNat) :=
  [.stats] ++ wholeRun.map (ProgramEvent.worker ⟨0, by decide⟩) ++
    [.exit ⟨0, by decide⟩, .main, .main, .main, .stats, .stats, .stats, .stats, .main, .main]

theorem exists_wholeProgramRun :
    ∃ p, (program oneHostConfig).run wholeProgramRun = some p ∧ p.Ended := by
  have hrun : ∃ p, (program oneHostConfig).run wholeProgramRun = some p ∧
      (p.mgrs ⟨0, by decide⟩).mgrState = .completed ∧
      (p.mgrs ⟨0, by decide⟩).tStatTimerev.pending = false ∧
      p.app.th = [⟨(p.mgrs ⟨0, by decide⟩).stats, true⟩] ∧
      p.app.statsPc = .exited ∧ p.app.mainPc = .done :=
    ⟨_, rfl, rfl, rfl, rfl, rfl, rfl⟩
  obtain ⟨p, hp, hstate, hstat, hth, hstats, hmain⟩ := hrun
  have hone : ∀ i : Fin oneHostConfig.numThreads.toNat, i = ⟨0, by decide⟩ := by decide
  have hreach := (programOk_of_reachable ⟨_, hp⟩).reachable ⟨0, by decide⟩
  refine ⟨p, hp, ?_, ?_, hstats, hmain⟩
  · intro i
    rw [hone i]
    exact ended_of_published hreach hstate hstat
  · intro i thr hthr
    rw [hone i] at hthr ⊢
    rw [hth] at hthr
    obtain rfl := Option.some.inj hthr
    exact ⟨rfl, rfl⟩

theorem program_ends_wholeProgramRun :
    ∃ x : Course (program oneHostConfig), ProgramFair x ∧ ∃ n, (x.state n).Ended := by
  obtain ⟨p, hp, hended⟩ := exists_wholeProgramRun
  have hfair := programFair_ofRun hp hended
  obtain ⟨n, passes, hn, -, -⟩ := program_ends hfair fun _ => Or.inl (by decide)
  exact ⟨Course.ofRun hp, hfair, n, hn⟩

end EvhtpHttp.Client

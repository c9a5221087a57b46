import EvhtpHttp.Client.EventCounts
import EvhtpHttp.Client.Exit
import Mathlib.Algebra.BigOperators.Fin

/-!
# How far a report is behind

The statistics thread reads the workers one after the other, and each of them
only shows what it published last.  A report therefore belongs to no moment of
the program.  It still counts nothing that has not happened, and it counts
everything that had happened before each worker published, when its pass began
after that.
-/

namespace EvhtpHttp.Client

open EvhtpHttp.Support

/-! ## One manager -/

section Manager

variable {cfg : MgrConfig} {m m' : CltMgr}

theorem cltMgrStep_rises {e : LoopEvent} (hm : (cltMgrSystem cfg).Reachable m)
    (h : cltMgrStep e m = some m') :
    m.stats.CountersLe m'.stats ∧ m.prevStats.CountersLe m'.prevStats := by
  obtain ⟨-, hstep⟩ := cltMgrStep_refines (cltMgrOk_of_reachable hm) h
  have hcounted : m.stats.CountersLe m'.stats := hstep.advances.counters
  refine ⟨hcounted, ?_⟩
  by_cases he : e = .statTimer
  · subst he
    obtain ⟨-, hprev⟩ := cltMgrStep_statTimer h
    rw [hprev]
    exact (countsOk_of_reachable hm).behind
  · rw [cltMgrStep_prevStats hm h he]
    exact MgrStats.CountersLe.refl _

end Manager

/-! ## All managers -/

section Managers

variable {cfg : MgrConfig} {p p' : Program cfg} {d : ProgramEvent cfg.numThreads.toNat}
  {ds : List (ProgramEvent cfg.numThreads.toNat)} {f : StatsField}

/-- What all managers together have in a field. -/
def Program.total (f : StatsField) (p : Program cfg) : ℤ :=
  ∑ i, (p.mgrs i).stats.field f

/-- What all managers together have published of a field. -/
def Program.handedOut (f : StatsField) (p : Program cfg) : ℤ :=
  ∑ i, (p.mgrs i).prevStats.field f

/-- The times that a step of the program counts in a field. -/
def ProgramEvent.counted (f : StatsField) (d : ProgramEvent cfg.numThreads.toNat)
    (p : Program cfg) : ℤ :=
  match d with
  | .worker i e => ((e.fields (p.mgrs i)).count f : ℕ)
  | _ => 0

/-- The times that the events of all workers count in a field, in a run of the program. -/
def countedIn (cfg : MgrConfig) (f : StatsField)
    (ds : List (ProgramEvent cfg.numThreads.toNat)) : ℤ :=
  (program cfg).sumFrom (ProgramEvent.counted f) ds (program cfg).init

theorem mgrs_step (h : (program cfg).step d p = some p') (i : Fin cfg.numThreads.toNat) :
    (d.ofWorker i = none ∧ p'.mgrs i = p.mgrs i) ∨
      ∃ e, d.ofWorker i = some e ∧ cltMgrStep e (p.mgrs i) = some (p'.mgrs i) := by
  have htakes : (cltMgrSystem (workerConfig cfg)).Takes (d.ofWorker i) (p.mgrs i) (p'.mgrs i) :=
    (workerView cfg i).next d p p' h
  cases hd : d.ofWorker i with
  | none =>
      rw [hd] at htakes
      exact Or.inl ⟨rfl, htakes⟩
  | some e =>
      rw [hd] at htakes
      exact Or.inr ⟨e, rfl, htakes⟩

theorem mgrs_rise (hp : p.Ok) (h : (program cfg).step d p = some p')
    (i : Fin cfg.numThreads.toNat) :
    (p.mgrs i).stats.CountersLe (p'.mgrs i).stats ∧
      (p.mgrs i).prevStats.CountersLe (p'.mgrs i).prevStats := by
  obtain ⟨-, hsame⟩ | ⟨e, -, hstep⟩ := mgrs_step h i
  · rw [hsame]
    exact ⟨MgrStats.CountersLe.refl _, MgrStats.CountersLe.refl _⟩
  · exact cltMgrStep_rises (hp.reachable i) hstep

theorem mgrs_rise_of_runFrom (hp : p.Ok) (h : (program cfg).runFrom ds p = some p') :
    p'.Ok ∧ ∀ i, (p.mgrs i).stats.CountersLe (p'.mgrs i).stats ∧
      (p.mgrs i).prevStats.CountersLe (p'.mgrs i).prevStats := by
  refine (program cfg).runFrom_rel (P := Program.Ok)
    (R := fun p p' => ∀ i, (p.mgrs i).stats.CountersLe (p'.mgrs i).stats ∧
      (p.mgrs i).prevStats.CountersLe (p'.mgrs i).prevStats) ?_ ?_ ?_ ds p p' hp h
  · exact fun p i => ⟨MgrStats.CountersLe.refl _, MgrStats.CountersLe.refl _⟩
  · exact fun p q r hpq hqr i =>
      ⟨(hpq i).1.trans (hqr i).1, (hpq i).2.trans (hqr i).2⟩
  · exact fun p d p' hp hstep => ⟨(programStep_of_step hstep).ok hp, mgrs_rise hp hstep⟩

/-- A worker that publishes, or has nothing new to publish, hands out at least what its
manager counted before. -/
theorem handedOut_of_publishes (hp : p.Ok) (h : (program cfg).runFrom ds p = some p')
    {i : Fin cfg.numThreads.toNat}
    (hi : .worker i .statTimer ∈ ds ∨ (p.mgrs i).prevStats = (p.mgrs i).stats) :
    (p.mgrs i).stats.CountersLe (p'.mgrs i).prevStats := by
  rcases hi with hmem | hsame
  · obtain ⟨before, after, rfl⟩ := List.append_of_mem hmem
    rw [System.runFrom_append] at h
    obtain ⟨q, hq, hrest⟩ := Option.bind_eq_some_iff.mp h
    obtain ⟨q', hq', hafter⟩ := Option.bind_eq_some_iff.mp hrest
    obtain ⟨hqok, hbefore⟩ := mgrs_rise_of_runFrom hp hq
    obtain ⟨-, hlater⟩ := mgrs_rise_of_runFrom ((programStep_of_step hq').ok hqok) hafter
    have hpublish : cltMgrStep .statTimer (q.mgrs i) = some (q'.mgrs i) := by
      obtain ⟨hother, -⟩ | ⟨e, he, hstep⟩ := mgrs_step hq' i
      · simp [ProgramEvent.ofWorker] at hother
      · obtain rfl : .statTimer = e := by simpa [ProgramEvent.ofWorker] using he
        exact hstep
    have hout := (hlater i).2
    rw [(cltMgrStep_statTimer hpublish).2] at hout
    exact (hbefore i).1.trans hout
  · rw [← hsame]
    exact ((mgrs_rise_of_runFrom hp h).2 i).2

theorem sum_published (hp : p.Ok) (f : StatsField) :
    (p.app.published.map (MgrStats.field f)).sum = p.handedOut f := by
  have hpublished : p.app.published = List.ofFn fun i => (p.mgrs i).prevStats := by
    apply List.ext_getElem
    · rw [List.length_ofFn, App.published, List.length_map]
      exact hp.length
    · intro i hi hi'
      rw [List.length_ofFn] at hi'
      have hlt : i < p.app.th.length := by
        rw [hp.length]
        exact hi'
      simp only [App.published, List.getElem_map, List.getElem_ofFn]
      exact hp.published ⟨i, hi'⟩ _ (List.getElem?_eq_getElem hlt)
  rw [hpublished, List.map_ofFn, List.sum_ofFn]
  rfl

theorem handedOut_le_total (hp : p.Ok) (hf : f ≠ .nconn) : p.handedOut f ≤ p.total f :=
  Finset.sum_le_sum fun i _ => (countsOk_of_reachable (hp.reachable i)).behind f hf

theorem total_step (hp : p.Ok) (h : (program cfg).step d p = some p') (hf : ¬ f.OfPool) :
    p'.total f = p.total f + d.counted f p := by
  have hone : ∀ i, (p'.mgrs i).stats.field f = (p.mgrs i).stats.field f +
      match d.ofWorker i with
      | some e => ((e.fields (p.mgrs i)).count f : ℤ)
      | none => 0 := by
    intro i
    obtain ⟨hd, hsame⟩ | ⟨e, hd, hstep⟩ := mgrs_step h i
    · rw [hd, hsame, Int.add_zero]
    · rw [hd]
      exact cltMgrStep_field (cltMgrOk_of_reachable (hp.reachable i)) hstep hf
  rw [Program.total, Finset.sum_congr rfl fun i _ => hone i, Finset.sum_add_distrib]
  congr 1
  cases d with
  | worker j e =>
      rw [ProgramEvent.counted, Finset.sum_eq_single_of_mem j (Finset.mem_univ j)]
      · simp [ProgramEvent.ofWorker]
      · intro i _ hij
        simp [ProgramEvent.ofWorker, hij.symm]
  | _ => exact Finset.sum_const_zero

/-- What all managers have in a counter is how often the events of all workers count
there, however they are interleaved. -/
theorem total_eq_countedIn (h : (program cfg).run ds = some p) (hf : ¬ f.OfPool) :
    p.total f = countedIn cfg f ds := by
  have hsum := System.potential_eq (T := program cfg) (P := Program.Ok)
    (V := Program.total f) (w := ProgramEvent.counted f)
    (fun p d p' hp hstep => ⟨(programStep_of_step hstep).ok hp, total_step hp hstep hf⟩)
    (programOk_start cfg) h
  have hstart : Program.total f (Program.start cfg) = 0 := by
    apply Finset.sum_eq_zero
    intro i _
    obtain ⟨running, hledger⟩ := ledger_init (workerConfig cfg)
    have hstats : ((Program.start cfg).mgrs i).stats = MgrStats.zero :=
      congrArg Ledger.stats hledger
    rw [hstats, field_zero]
  rw [hsum, hstart, Int.zero_add]
  rfl

end Managers

/-! ## Passes -/

/-- A pass under way will report at least `v`, and so does every report after the
first `n`. -/
structure App.Covers (v : ℤ) (n : ℕ) (f : StatsField) (a : App) : Prop where
  reads : ReadsUp v (a.reading.2.field f) a.reading.1 (a.published.map (MgrStats.field f))
  last : n < (a.lines "interval_total").length → v ≤ a.lastTotal.field f

section Passes

variable {bound v : ℤ} {n : ℕ} {f : StatsField} {a a' : App}

theorem App.IntervalsOk.covers (ha : a.IntervalsOk bound) (hf : f ≠ .nconn)
    (hfresh : a.reading.1 = 0) (hv : v ≤ (a.published.map (MgrStats.field f)).sum) :
    a.Covers v (a.lines "interval_total").length f := by
  refine ⟨?_, fun hlt => absurd hlt (Nat.lt_irrefl _)⟩
  have hread := (ha.reads f hf).le_read
  rw [hfresh, List.take_zero, List.sum_nil] at hread
  have hnone : a.reading.2.field f = 0 := Int.le_antisymm hread (field_counter_nonneg hf _)
  rw [hfresh, hnone]
  exact readsUp_zero hv

theorem AppStep.covers {e : AppEvent} (h : AppStep a e a') (hf : f ≠ .nconn)
    (ha : a.IntervalsOk bound) (hcovers : a.Covers v n f)
    (hpublish : ∀ i s, e = .publish i s →
      ∀ thr, a.th[i]? = some thr → thr.prevStats.CountersLe s)
    (hfit : e = .stats → a.CountersFit) (hcap : bound * a.th.length ≤ intMax) :
    a'.Covers v n f := by
  obtain ⟨hreads, hlast⟩ := hcovers
  cases h with
  | @publish i s thr hthr =>
      refine ⟨?_, hlast⟩
      have hset : App.published { a with th := a.th.set i { thr with prevStats := s } } =
          a.published.set i s := by
        simp [App.published]
      rw [hset, List.map_set]
      apply hreads.mono
      apply forall₂_set_of_le
      intro x hx
      obtain rfl : thr.prevStats.field f = x := by
        simpa [App.published, hthr] using hx
      exact hpublish i s rfl thr hthr f hf
  | @exit i thr hthr halive =>
      refine ⟨?_, hlast⟩
      have hsame : App.published { a with th := a.th.set i { thr with exited := true } } =
          a.published := by
        apply List.ext_getElem?
        intro j
        rw [(AppStep.exit hthr halive).published j]
        simp [AppEvent.published]
      rw [hsame]
      exact hreads
  | testRun hpc =>
      refine ⟨?_, hlast⟩
      simp only [App.reading, hpc] at hreads
      exact hreads
  | testEnd hpc =>
      refine ⟨?_, hlast⟩
      simp only [App.reading, hpc] at hreads
      exact hreads
  | wake hpc =>
      refine ⟨?_, hlast⟩
      simp only [App.reading, hpc] at hreads
      exact hreads
  | @read i s thr hpc hthr =>
      refine ⟨?_, hlast⟩
      simp only [App.reading, hpc] at hreads
      simp only [App.reading, field_mgrStatsAdd f (ha.fits_next (hfit rfl) hcap hpc hthr f)]
      apply hreads.next
      simp [App.published, hthr]
  | @pass i s hpc hend =>
      have hover : (a.published.map (MgrStats.field f))[i]? = none := by
        simp [App.published, hend]
      simp only [App.reading, hpc] at hreads
      obtain ⟨hv, hsum⟩ := hreads.finish hover
      constructor
      · simp only [App.reading, field_zero]
        exact readsUp_zero (hv.trans hsum)
      · intro _
        have hlines : App.lines "interval_total" { a with
            output := a.output ++
              [("interval_total", s), ("interval_diff", mgrStatsDiff a.prevStats s)]
            prevStats := s
            statsPc := .test } = a.lines "interval_total" ++ [s] := lines_append _ a _
        rw [App.lastTotal, hlines]
        simpa using hv
  | print hpc =>
      have hlines : App.lines "interval_total"
          { a with output := a.output ++ [("run_total", a.prevStats)], mainPc := .done } =
            a.lines "interval_total" := by
        simp [App.lines]
      refine ⟨hreads, ?_⟩
      rw [App.lastTotal, hlines]
      exact hlast
  | _ => exact ⟨hreads, hlast⟩

end Passes

/-! ## Reports -/

section Reports

variable {cfg : MgrConfig} {p p' : Program cfg} {v : ℤ} {n : ℕ} {f : StatsField}

theorem ProgramStep.covers {d : ProgramEvent cfg.numThreads.toNat} (h : ProgramStep p d p')
    (hf : f ≠ .nconn) (hp : p.Consistent) (hint : IsInt32 cfg.targetNconn)
    (hfit : d = .stats → p.app.CountersFit) (hcovers : p.app.Covers v n f) :
    p'.app.Covers v n f := by
  have hcap : workerBound cfg * p.app.th.length ≤ intMax := by
    rw [hp.ok.length]
    exact (workerBound_mul_le cfg).trans (max_le hint.2 (by decide))
  cases h with
  | manager => exact hcovers
  | @publish i m app hm happ =>
      refine happ.covers hf hp.intervals hcovers ?_ (by simp) hcap
      rintro j s ⟨⟩
      exact (hp.ok.publishes hm).2
  | @thread _ e app he happ =>
      refine happ.covers hf hp.intervals hcovers ?_ ?_ hcap
      · rintro j s rfl
        cases d <;> simp [ProgramEvent.thread] at he
      · rintro rfl
        apply hfit
        cases d <;> simp [ProgramEvent.thread] at he ⊢

theorem Program.Consistent.lastTotal_le (hp : p.Consistent) (hf : f ≠ .nconn) :
    p.app.lastTotal.field f ≤ p.total f := by
  rw [hp.reports.last]
  have hread := (hp.intervals.reads f hf).le_sum
  rw [sum_published hp.ok] at hread
  exact hread.trans (handedOut_le_total hp.ok hf)

/-- The reports of the statistics thread follow the managers.  At any moment of any run
the last report counts nothing that has not happened; and it counts everything that had
happened at an earlier moment, if since then every worker has published, or had nothing
new to publish, and after that a pass was begun and reported.  What has happened is, in
each counter but those of the pool, how often the events of all workers count there,
however they are interleaved. -/
theorem reports_follow (hint : IsInt32 cfg.targetNconn)
    {ds₁ ds₂ ds₃ : List (ProgramEvent cfg.numThreads.toNat)} {p₁ p₂ p₃ : Program cfg}
    (h₁ : (program cfg).run ds₁ = some p₁) (h₂ : (program cfg).runFrom ds₂ p₁ = some p₂)
    (h₃ : (program cfg).runFrom ds₃ p₂ = some p₃)
    (hfit : (program cfg).Guarded NoCounterOverflow (ds₁ ++ ds₂ ++ ds₃))
    (hpublished : ∀ i, .worker i .statTimer ∈ ds₂ ∨ (p₁.mgrs i).prevStats = (p₁.mgrs i).stats)
    (hfresh : p₂.app.reading.1 = 0)
    (hreport : (p₂.app.lines "interval_total").length < (p₃.app.lines "interval_total").length) :
    (∀ f, f ≠ .nconn →
        p₁.total f ≤ p₃.app.lastTotal.field f ∧ p₃.app.lastTotal.field f ≤ p₃.total f) ∧
      ∀ f, ¬ f.OfPool → p₁.total f = countedIn cfg f ds₁ ∧
        p₃.total f = countedIn cfg f (ds₁ ++ ds₂ ++ ds₃) ∧
        countedIn cfg f ds₁ ≤ p₃.app.lastTotal.field f ∧
        p₃.app.lastTotal.field f ≤ countedIn cfg f (ds₁ ++ ds₂ ++ ds₃) := by
  have h₁₂ : (program cfg).run (ds₁ ++ ds₂) = some p₂ := by
    rw [System.run_append, h₁, Option.bind_some, h₂]
  have h₁₃ : (program cfg).run (ds₁ ++ ds₂ ++ ds₃) = some p₃ := by
    rw [System.run_append, h₁₂, Option.bind_some, h₃]
  have hp₁ := programOk_of_reachable ⟨ds₁, h₁⟩
  have hp₂ := consistent_of_run hint h₁₂ (hfit.of_prefix _ (List.prefix_append _ _))
  have hp₃ := consistent_of_run hint h₁₃ hfit
  have hbetween : ∀ f, f ≠ .nconn →
      p₁.total f ≤ p₃.app.lastTotal.field f ∧ p₃.app.lastTotal.field f ≤ p₃.total f := by
    intro f hf
    refine ⟨?_, hp₃.lastTotal_le hf⟩
    have hout : p₁.total f ≤ p₂.handedOut f :=
      Finset.sum_le_sum fun i _ => handedOut_of_publishes hp₁ h₂ (hpublished i) f hf
    rw [← sum_published hp₂.ok] at hout
    have hstart := hp₂.intervals.covers hf hfresh hout
    have hend := (program cfg).guarded_runFrom (G := NoCounterOverflow)
      (P := fun p => p.Consistent ∧
        p.app.Covers (p₁.total f) (p₂.app.lines "interval_total").length f)
      (fun _ d p p' _ hguard hp hstep =>
        ⟨(programStep_of_step hstep).consistent hp.1 hint hguard,
          (programStep_of_step hstep).covers hf hp.1 hint hguard hp.2⟩)
      hfit h₁₂ ⟨hp₂, hstart⟩ h₃
    exact hend.2.last hreport
  refine ⟨hbetween, ?_⟩
  intro f hf
  have hcounter : f ≠ .nconn := fun heq => hf (Or.inl heq)
  have hfirst := total_eq_countedIn h₁ hf
  have hlast := total_eq_countedIn h₁₃ hf
  refine ⟨hfirst, hlast, ?_⟩
  rw [← hfirst, ← hlast]
  exact hbetween f hcounter

/-- A request that a worker makes and publishes before a pass. -/
def requestPublished : List (ProgramEvent oneHostConfig.numThreads.toNat) :=
  [.worker ⟨0, Nat.one_pos⟩ (.timer fun _ => allocAll),
    .worker ⟨0, Nat.one_pos⟩ (.newHttpReq 0 true true), .worker ⟨0, Nat.one_pos⟩ .statTimer,
    .stats, .stats, .stats, .stats]

/-- The pass reports it. -/
theorem reports_follow_requestPublished :
    ∃ p, (program oneHostConfig).run requestPublished = some p ∧
      countedIn oneHostConfig .reqCount (requestPublished.take 2) = 1 ∧
      1 ≤ p.app.lastTotal.field .reqCount := by
  have hfit : (program oneHostConfig).Guarded NoCounterOverflow requestPublished := by
    have hstart := (program oneHostConfig).guarded_nil NoCounterOverflow
    have htick := noCounterOverflow_worker hstart ⟨0, Nat.one_pos⟩ (.timer fun _ => allocAll)
    have hrequest := noCounterOverflow_worker htick ⟨0, Nat.one_pos⟩ (.newHttpReq 0 true true)
    have hpublish := noCounterOverflow_worker hrequest ⟨0, Nat.one_pos⟩ .statTimer
    have htest := noCounterOverflow_stats hpublish rfl (by rintro i acc thr ⟨⟩)
    have hsleep := noCounterOverflow_stats htest rfl (by rintro i acc thr ⟨⟩)
    have hread := noCounterOverflow_stats hsleep rfl
      (by rintro i acc thr ⟨⟩ ⟨⟩ f -; cases f <;> decide)
    exact noCounterOverflow_stats hread rfl (by rintro i acc thr ⟨⟩ ⟨⟩)
  have hrun : ∃ p₁ p₂ p₃, (program oneHostConfig).run (requestPublished.take 2) = some p₁ ∧
      (program oneHostConfig).runFrom [.worker ⟨0, by decide⟩ .statTimer] p₁ = some p₂ ∧
      (program oneHostConfig).runFrom [.stats, .stats, .stats, .stats] p₂ = some p₃ ∧
      p₂.app.reading.1 = 0 ∧
      (p₂.app.lines "interval_total").length < (p₃.app.lines "interval_total").length :=
    ⟨_, _, _, rfl, rfl, rfl, rfl, by decide⟩
  obtain ⟨p₁, p₂, p₃, h₁, h₂, h₃, hfresh, hreport⟩ := hrun
  have hone : ∀ i : Fin oneHostConfig.numThreads.toNat, i = ⟨0, by decide⟩ := by decide
  have hfollow := reports_follow (by decide) h₁ h₂ h₃ hfit
    (fun i => Or.inl (by rw [hone i]; exact List.mem_singleton_self _)) hfresh hreport
  have hcounted : countedIn oneHostConfig .reqCount (requestPublished.take 2) = 1 := by decide
  refine ⟨p₃, ?_, hcounted, ?_⟩
  · have hall : requestPublished = requestPublished.take 2 ++
        ([.worker ⟨0, by decide⟩ .statTimer] ++ [.stats, .stats, .stats, .stats]) := rfl
    rw [hall, System.run_append, h₁, Option.bind_some, System.runFrom_append, h₂,
      Option.bind_some, h₃]
  · rw [← hcounted]
    exact (hfollow.2 .reqCount (by decide)).2.2.1

end Reports

end EvhtpHttp.Client

import EvhtpHttp.Client.App
import Mathlib.Algebra.BigOperators.Intervals

/-!
# The totals of a run

The statistics thread adds up what the workers have published, one worker after
the other, and looks at the flag once in each pass.  `main` prints the sum of what
its last pass has read, so what a worker publishes after it was read last is
missing.
-/

namespace EvhtpHttp.Client

open EvhtpHttp.Support

/-! ## What is published -/

/-- The statistics that an event publishes for worker `i`. -/
def AppEvent.published (i : ℕ) : AppEvent → Option MgrStats
  | .publish j s => if j = i then some s else none
  | _ => none

/-- What worker `i` published last in a run. -/
def lastPublished (i : ℕ) (es : List AppEvent) : MgrStats :=
  (es.filterMap (AppEvent.published i)).getLast?.getD MgrStats.zero

/-- What the workers have published by now. -/
def App.published (a : App) : List MgrStats :=
  a.th.map CltThr.prevStats

theorem lastPublished_concat (i : ℕ) (es : List AppEvent) (e : AppEvent) :
    lastPublished i (es ++ [e]) = (e.published i).getD (lastPublished i es) := by
  unfold lastPublished
  rw [List.filterMap_append]
  cases h : e.published i with
  | none => simp [h]
  | some stats => simp [h]

/-! ## What one step does -/

/-- The steps of the threads. -/
inductive AppStep (a : App) : AppEvent → App → Prop
  | publish {i : ℕ} {s : MgrStats} {thr : CltThr} (hthr : a.th[i]? = some thr)
      (halive : thr.exited = false) :
      AppStep a (.publish i s) { a with th := a.th.set i { thr with prevStats := s } }
  | exit {i : ℕ} {thr : CltThr} (hthr : a.th[i]? = some thr) (halive : thr.exited = false) :
      AppStep a (.exit i) { a with th := a.th.set i { thr with exited := true } }
  | testRun (hpc : a.statsPc = .test) (hrun : a.statsThreadRun = true) :
      AppStep a .stats { a with statsPc := .sleep }
  | testEnd (hpc : a.statsPc = .test) (hrun : a.statsThreadRun = false) :
      AppStep a .stats { a with statsPc := .exited }
  | wake (hpc : a.statsPc = .sleep) :
      AppStep a .stats { a with statsPc := .read 0 MgrStats.zero }
  | read {i : ℕ} {s : MgrStats} {thr : CltThr} (hpc : a.statsPc = .read i s)
      (hthr : a.th[i]? = some thr) :
      AppStep a .stats { a with statsPc := .read (i + 1) (mgrStatsAdd thr.prevStats s) }
  | pass {i : ℕ} {s : MgrStats} (hpc : a.statsPc = .read i s) (hend : a.th[i]? = none) :
      AppStep a .stats { a with
        output := a.output ++
          [("interval_total", s), ("interval_diff", mgrStatsDiff a.prevStats s)]
        prevStats := s
        statsPc := .test }
  | join {i : ℕ} {thr : CltThr} (hpc : a.mainPc = .join i) (hthr : a.th[i]? = some thr)
      (hexited : thr.exited = true) : AppStep a .main { a with mainPc := .join (i + 1) }
  | joined {i : ℕ} (hpc : a.mainPc = .join i) (hend : a.th[i]? = none) :
      AppStep a .main { a with mainPc := .clearFlag }
  | clear (hpc : a.mainPc = .clearFlag) :
      AppStep a .main { a with statsThreadRun := false, mainPc := .joinStats }
  | joinStats (hpc : a.mainPc = .joinStats) (hexited : a.statsPc = .exited) :
      AppStep a .main { a with mainPc := .print }
  | print (hpc : a.mainPc = .print) :
      AppStep a .main { a with
        output := a.output ++ [("run_total", a.prevStats)]
        mainPc := .done }

theorem worker_eq_some {i : ℕ} {f : CltThr → CltThr} {a a' : App}
    (h : a.worker i f = some a') :
    ∃ thr, a.th[i]? = some thr ∧ thr.exited = false ∧
      a' = { a with th := a.th.set i (f thr) } := by
  unfold App.worker at h
  split at h
  · cases h
  · rename_i thr hthr
    split at h
    · cases h
    · rename_i halive
      cases h
      exact ⟨thr, hthr, by simpa using halive, rfl⟩

theorem appStep_of_step {n : ℕ} {e : AppEvent} {a a' : App}
    (h : (appSystem n).step e a = some a') : AppStep a e a' := by
  cases e with
  | publish i s =>
      obtain ⟨thr, hthr, halive, rfl⟩ := worker_eq_some h
      exact AppStep.publish hthr halive
  | exit i =>
      obtain ⟨thr, hthr, halive, rfl⟩ := worker_eq_some h
      exact AppStep.exit hthr halive
  | stats =>
      simp only [appSystem, appStatsThread] at h
      split at h
      · rename_i hpc
        cases h
        by_cases hrun : a.statsThreadRun = true
        · rw [if_pos hrun]
          exact AppStep.testRun hpc hrun
        · rw [if_neg hrun]
          exact AppStep.testEnd hpc (by simpa using hrun)
      · rename_i hpc
        cases h
        exact AppStep.wake hpc
      · rename_i i s hpc
        split at h
        · rename_i thr hthr
          cases h
          exact AppStep.read hpc hthr
        · rename_i hend
          cases h
          have hpass := AppStep.pass hpc hend
          simpa [App.print, mgrStatsCopy] using hpass
      · cases h
  | main =>
      simp only [appSystem, appMain] at h
      split at h
      · rename_i i hpc
        split at h
        · rename_i thr hthr
          split at h
          · rename_i hexited
            cases h
            exact AppStep.join hpc hthr hexited
          · cases h
        · rename_i hend
          cases h
          exact AppStep.joined hpc hend
      · rename_i hpc
        cases h
        exact AppStep.clear hpc
      · rename_i hpc
        split at h
        · rename_i hexited
          cases h
          exact AppStep.joinStats hpc hexited
        · cases h
      · rename_i hpc
        cases h
        exact AppStep.print hpc
      · cases h

theorem AppStep.published {e : AppEvent} {a a' : App} (h : AppStep a e a') (i : ℕ) :
    a'.published[i]? = a.published[i]?.map fun old => (e.published i).getD old := by
  have hstay : ∀ l : List MgrStats, l[i]? = l[i]?.map fun old => old := by
    intro l
    simp
  cases h with
  | @publish j s thr hthr =>
      obtain ⟨hlt, -⟩ := List.getElem?_eq_some_iff.mp hthr
      simp only [App.published, List.map_set, List.getElem?_set, AppEvent.published]
      by_cases hij : j = i
      · subst hij
        simp [hlt]
      · simp [hij, Function.comp_def]
  | @exit j thr hthr =>
      obtain ⟨hlt, hget⟩ := List.getElem?_eq_some_iff.mp hthr
      simp only [App.published, List.map_set, List.getElem?_set, AppEvent.published]
      by_cases hij : j = i
      · subst hij
        simp [hlt, hget]
      · simp [hij, Function.comp_def]
  | _ => exact hstay _

theorem published_of_run {n : ℕ} {es : List AppEvent} {a : App}
    (h : (appSystem n).run es = some a) :
    a.published = (List.range n).map fun i => lastPublished i es := by
  refine (appSystem n).run_induction (P := fun es a =>
    a.published = (List.range n).map fun i => lastPublished i es) ?_ ?_ es a h
  · simp [appSystem, App.start, App.published, lastPublished, List.map_const']
  · intro es e a a' _ ha hstep
    apply List.ext_getElem?
    intro i
    rw [(appStep_of_step hstep).published, ha]
    simp only [List.getElem?_map, Option.map_map]
    by_cases hi : i < n
    · simp [List.getElem?_range hi, lastPublished_concat]
    · have hnone : (List.range n)[i]? = none := by
        rw [List.getElem?_eq_none_iff, List.length_range]
        omega
      simp [hnone]

theorem threads_length {n : ℕ} {a : App} (h : (appSystem n).Reachable a) : a.th.length = n := by
  obtain ⟨es, hes⟩ := h
  have hlength := congrArg List.length (published_of_run hes)
  simpa [App.published] using hlength

/-! ## The order of the threads -/

/-- `main` clears the flag after it has seen every worker return, and prints the
total after the statistics thread has ended. -/
structure AppOk (a : App) : Prop where
  joining : ∀ i, a.mainPc = .join i → ∀ thr ∈ a.th.take i, thr.exited = true
  joined : (∀ i, a.mainPc ≠ .join i) → ∀ thr ∈ a.th, thr.exited = true
  ended : a.mainPc = .print ∨ a.mainPc = .done → a.statsPc = .exited
  total : ∀ stats, ("run_total", stats) ∈ a.output → a.mainPc = .done ∧ stats = a.prevStats

theorem appOk_start (n : ℕ) : AppOk (App.start n) := by
  constructor <;> simp [App.start]

theorem AppOk.waiting {a : App} (ha : AppOk a) {j : ℕ} {thr : CltThr}
    (hthr : a.th[j]? = some thr) (halive : thr.exited = false) :
    ∃ i ≤ j, a.mainPc = .join i := by
  by_contra hnot
  have hmem : thr ∈ a.th := List.mem_of_getElem? hthr
  have hexited : thr.exited = true := by
    by_cases hjoin : ∃ i, a.mainPc = .join i
    · obtain ⟨i, hi⟩ := hjoin
      have hlt : j < i := by
        by_contra hle
        exact hnot ⟨i, not_lt.mp hle, hi⟩
      apply ha.joining i hi
      apply List.mem_of_getElem? (i := j)
      rw [List.getElem?_take_of_lt hlt, hthr]
    · exact ha.joined (fun i hi => hjoin ⟨i, hi⟩) thr hmem
  rw [halive] at hexited
  cases hexited

theorem AppOk.worker {a : App} (ha : AppOk a) {j : ℕ} {thr thr' : CltThr}
    (hthr : a.th[j]? = some thr) (halive : thr.exited = false) :
    AppOk { a with th := a.th.set j thr' } := by
  obtain ⟨k, hkj, hk⟩ := ha.waiting hthr halive
  constructor
  · intro i hi
    have hik : i = k := MainPc.join.inj (hi.symm.trans hk)
    have htake : (a.th.set j thr').take i = a.th.take i :=
      List.take_set_of_le (hik ▸ hkj)
    dsimp only
    rw [htake]
    exact ha.joining i hi
  · intro hnone
    exact absurd hk (hnone k)
  · exact ha.ended
  · exact ha.total

theorem AppOk.stats {a : App} (ha : AppOk a) (hpc : a.statsPc ≠ .exited) (pc : StatsPc) :
    AppOk { a with statsPc := pc } where
  joining := ha.joining
  joined := ha.joined
  ended hover := absurd (ha.ended hover) hpc
  total := ha.total

theorem AppOk.main {a : App} (ha : AppOk a) {pc : MainPc} (hpc : a.mainPc ≠ .done)
    (hjoining : ∀ i, pc = .join i → ∀ thr ∈ a.th.take i, thr.exited = true)
    (hjoined : (∀ i, pc ≠ .join i) → ∀ thr ∈ a.th, thr.exited = true)
    (hover : pc = .print ∨ pc = .done → a.statsPc = .exited) :
    AppOk { a with mainPc := pc } where
  joining := hjoining
  joined := hjoined
  ended := hover
  total stats hstats := absurd (ha.total stats hstats).1 hpc

theorem AppStep.appOk {e : AppEvent} {a a' : App} (h : AppStep a e a') (ha : AppOk a) :
    AppOk a' := by
  cases h with
  | publish hthr halive => exact ha.worker hthr halive
  | exit hthr halive => exact ha.worker hthr halive
  | testRun hpc => exact ha.stats (by simp [hpc]) _
  | testEnd hpc => exact ha.stats (by simp [hpc]) _
  | wake hpc => exact ha.stats (by simp [hpc]) _
  | read hpc => exact ha.stats (by simp [hpc]) _
  | @pass i s hpc =>
      have htest : AppOk { a with statsPc := .test } := ha.stats (by simp [hpc]) .test
      refine ⟨htest.joining, htest.joined, htest.ended, ?_⟩
      intro stats hstats
      have hold : ("run_total", stats) ∈ a.output := by simpa using hstats
      have hended := ha.ended (Or.inr (ha.total stats hold).1)
      rw [hpc] at hended
      cases hended
  | @join i thr hpc hthr hexited =>
      refine ha.main (by simp [hpc]) ?_ (fun hnone => absurd rfl (hnone (i + 1))) (by simp)
      rintro k ⟨⟩ x hx
      have htake : a.th.take (i + 1) = a.th.take i ++ [thr] := by
        rw [List.take_add_one, hthr]
        rfl
      rw [htake] at hx
      rcases List.mem_append.mp hx with hx | hx
      · exact ha.joining i hpc x hx
      · cases List.mem_singleton.mp hx
        exact hexited
  | @joined i hpc hend =>
      refine ha.main (by simp [hpc]) (by simp) (fun _ => ?_) (by simp)
      have htake : a.th.take i = a.th :=
        List.take_of_length_le (List.getElem?_eq_none_iff.mp hend)
      rw [← htake]
      exact ha.joining i hpc
  | clear hpc =>
      have hmain : AppOk { a with mainPc := .joinStats } :=
        ha.main (by simp [hpc]) (by simp) (fun _ => ha.joined (by simp [hpc])) (by simp)
      exact ⟨hmain.joining, hmain.joined, hmain.ended, hmain.total⟩
  | joinStats hpc hexited =>
      exact ha.main (by simp [hpc]) (by simp) (fun _ => ha.joined (by simp [hpc]))
        (fun _ => hexited)
  | print hpc =>
      have hended := ha.ended (Or.inl hpc)
      refine ⟨by simp, fun _ => ha.joined (by simp [hpc]), fun _ => hended, ?_⟩
      intro stats hstats
      refine ⟨rfl, ?_⟩
      rcases List.mem_append.mp hstats with hold | hnew
      · exact (ha.total stats hold).2
      · simpa using hnew

theorem appOk_of_run {n : ℕ} {es : List AppEvent} {a : App}
    (h : (appSystem n).run es = some a) : AppOk a := by
  refine (appSystem n).invariant (appOk_start n) ?_ a ⟨es, h⟩
  intro a e a' ha hstep
  exact (appStep_of_step hstep).appOk ha

/-! ## What the statistics thread reads -/

/-- An access to the statistics that a worker publishes: the worker writes them, or the
statistics thread reads them. -/
inductive Access
  | publish (s : MgrStats)
  | read (s : MgrStats)
deriving Repr, DecidableEq

def Access.published : Access → Option MgrStats
  | .publish s => some s
  | .read _ => none

def Access.seen : Access → Option MgrStats
  | .publish _ => none
  | .read s => some s

/-- What a step does to the published statistics of worker `i`. -/
def AppEvent.access (i : ℕ) (e : AppEvent) (a : App) : Option Access :=
  match e with
  | .publish j s => if j = i then some (.publish s) else none
  | .stats =>
    match a.statsPc with
    | .read j _ => if j = i then a.th[i]?.map fun thr => .read thr.prevStats else none
    | _ => none
  | _ => none

/-- The accesses to the published statistics of worker `i` in a run. -/
def accesses (n i : ℕ) (es : List AppEvent) : List Access :=
  (appSystem n).observed (AppEvent.access i) es

/-- What the statistics thread has read of worker `i` last. -/
def lastRead (n i : ℕ) (es : List AppEvent) : MgrStats :=
  ((accesses n i es).filterMap Access.seen).getLast?.getD MgrStats.zero

/-- The worker has published nothing since the statistics thread has read it last. -/
def ReadLast (n i : ℕ) (es : List AppEvent) : Prop :=
  (accesses n i es).getLast?.bind Access.published = none

instance (n i : ℕ) (es : List AppEvent) : Decidable (ReadLast n i es) :=
  inferInstanceAs (Decidable (_ = _))

section Reads

variable {n i : ℕ} {es : List AppEvent} {e : AppEvent} {a a' : App}

/-- A step publishes the statistics of the worker, reads them, or has nothing to do with
them. -/
theorem access_cases (i : ℕ) (e : AppEvent) (a : App) :
    (e.access i a = none ∧ e.published i = none) ∨
      (∃ s, e = .publish i s ∧ e.access i a = some (.publish s)) ∨
      ∃ acc thr, e = .stats ∧ a.statsPc = .read i acc ∧ a.th[i]? = some thr ∧
        e.access i a = some (.read thr.prevStats) := by
  cases e with
  | publish j s =>
      by_cases hj : j = i
      · subst hj
        exact Or.inr (Or.inl ⟨s, rfl, by simp [AppEvent.access]⟩)
      · exact Or.inl ⟨by simp [AppEvent.access, hj], by simp [AppEvent.published, hj]⟩
  | stats =>
      cases hpc : a.statsPc with
      | read j acc =>
          by_cases hj : j = i
          · subst hj
            cases hthr : a.th[j]? with
            | none => exact Or.inl ⟨by simp [AppEvent.access, hpc, hthr], rfl⟩
            | some thr =>
                exact Or.inr (Or.inr ⟨acc, thr, rfl, rfl, rfl,
                  by simp [AppEvent.access, hpc, hthr]⟩)
          · exact Or.inl ⟨by simp [AppEvent.access, hpc, hj], rfl⟩
      | _ => exact Or.inl ⟨by simp [AppEvent.access, hpc], rfl⟩
  | _ => exact Or.inl ⟨rfl, rfl⟩

theorem accesses_concat (h : (appSystem n).run es = some a) :
    accesses n i (es ++ [e]) = accesses n i es ++ (e.access i a).toList :=
  (appSystem n).observed_concat _ h

theorem lastRead_concat (h : (appSystem n).run es = some a) :
    lastRead n i (es ++ [e]) = ((e.access i a).bind Access.seen).getD (lastRead n i es) := by
  rw [lastRead, accesses_concat h, List.filterMap_append]
  obtain ⟨haccess, -⟩ | ⟨s, -, haccess⟩ | ⟨acc, thr, -, -, -, haccess⟩ := access_cases i e a
  · simp [haccess, lastRead]
  · simp [haccess, lastRead, Access.seen]
  · simp [haccess, Access.seen]

theorem filterMap_accesses (h : (appSystem n).run es = some a) :
    (accesses n i es).filterMap Access.published = es.filterMap (AppEvent.published i) := by
  refine (appSystem n).run_induction (P := fun es _ => (accesses n i es).filterMap
    Access.published = es.filterMap (AppEvent.published i)) rfl ?_ es a h
  intro es e a a' hrun ih _
  rw [accesses_concat hrun, List.filterMap_append, List.filterMap_append, ih]
  congr 1
  obtain ⟨haccess, hnone⟩ | ⟨s, rfl, haccess⟩ | ⟨acc, thr, rfl, -, -, haccess⟩ :=
    access_cases i e a
  · simp [haccess, hnone]
  · simp [haccess, Access.published, AppEvent.published]
  · rw [haccess]
    rfl

theorem prevStats_of_run {thr : CltThr} (h : (appSystem n).run es = some a)
    (hthr : a.th[i]? = some thr) : thr.prevStats = lastPublished i es := by
  have hpublished : a.published[i]? = some thr.prevStats := by
    simp [App.published, hthr]
  rw [published_of_run h, List.getElem?_map, Option.map_eq_some_iff] at hpublished
  obtain ⟨j, hj, hlast⟩ := hpublished
  obtain ⟨hlt, rfl⟩ := List.getElem?_eq_some_iff.mp hj
  rw [← hlast, List.getElem_range]

theorem lastPublished_mem (i : ℕ) (es : List AppEvent) :
    lastPublished i es = MgrStats.zero ∨ .publish i (lastPublished i es) ∈ es := by
  cases hlast : (es.filterMap (AppEvent.published i)).getLast? with
  | none => exact Or.inl (by simp [lastPublished, hlast])
  | some s =>
      obtain ⟨e, he, hs⟩ := List.mem_filterMap.mp (List.mem_of_getLast? hlast)
      obtain rfl : e = .publish i s := by
        cases e with
        | publish j t =>
            by_cases hj : j = i
            · simpa [AppEvent.published, hj] using hs
            · simp [AppEvent.published, hj] at hs
        | _ => simp [AppEvent.published] at hs
      exact Or.inr (by simpa [lastPublished, hlast] using he)

theorem lastRead_mem (h : (appSystem n).run es = some a) :
    lastRead n i es = MgrStats.zero ∨ .publish i (lastRead n i es) ∈ es := by
  refine (appSystem n).run_induction (P := fun es _ =>
    lastRead n i es = MgrStats.zero ∨ .publish i (lastRead n i es) ∈ es) (Or.inl rfl) ?_ es a h
  intro es e a a' hrun ih _
  have hearlier : ∀ {s}, s = MgrStats.zero ∨ .publish i s ∈ es →
      s = MgrStats.zero ∨ .publish i s ∈ es ++ [e] := fun hs => hs.imp_right
        (List.mem_append_left _)
  rw [lastRead_concat hrun]
  obtain ⟨haccess, -⟩ | ⟨s, -, haccess⟩ | ⟨acc, thr, -, -, hthr, haccess⟩ := access_cases i e a
  · rw [haccess]
    exact hearlier ih
  · rw [haccess]
    exact hearlier ih
  · rw [haccess]
    have hread := lastPublished_mem i es
    rw [← prevStats_of_run hrun hthr] at hread
    exact hearlier hread

/-- What a worker has not published since is what was read of it last. -/
theorem lastRead_of_readLast (h : (appSystem n).run es = some a) (hlast : ReadLast n i es) :
    lastRead n i es = lastPublished i es := by
  revert hlast
  refine (appSystem n).run_induction (P := fun es _ =>
    ReadLast n i es → lastRead n i es = lastPublished i es) (fun _ => rfl) ?_ es a h
  intro es e a a' hrun ih _ hlast
  rw [ReadLast, accesses_concat hrun] at hlast
  rw [lastRead_concat hrun, lastPublished_concat]
  obtain ⟨haccess, hnone⟩ | ⟨s, -, haccess⟩ | ⟨acc, thr, rfl, -, hthr, haccess⟩ :=
    access_cases i e a
  · rw [haccess, Option.toList_none, List.append_nil] at hlast
    rw [haccess, hnone]
    exact ih hlast
  · simp [haccess, Access.published] at hlast
  · rw [haccess]
    exact prevStats_of_run hrun hthr

/-! ## What is printed -/

/-- The field-wise sum of the statistics `s` of `n` workers, in the arithmetic of the
fields. -/
def IsSum (n : ℕ) (s : ℕ → MgrStats) (total : MgrStats) : Prop :=
  ∀ f : StatsField, total.field f = f.wrap (∑ i ∈ Finset.range n, (s i).field f)

/-- In a pass the sum is that of what was read, and otherwise the sum of the last pass is
kept. -/
def SumsRead (n : ℕ) (es : List AppEvent) (a : App) : Prop :=
  match a.statsPc with
  | .read i acc => i ≤ n ∧ IsSum i (fun j => lastRead n j es) acc
  | _ => IsSum n (fun j => lastRead n j es) a.prevStats

theorem isSum_zero (s : ℕ → MgrStats) : IsSum 0 s MgrStats.zero := by
  intro f
  rw [Finset.sum_range_zero, field_zero, wrap_zero]

theorem IsSum.congr {s s' : ℕ → MgrStats} {total : MgrStats} (h : IsSum n s total)
    (hsame : ∀ i < n, s' i = s i) : IsSum n s' total := by
  intro f
  have hsum : ∑ i ∈ Finset.range n, (s i).field f = ∑ i ∈ Finset.range n, (s' i).field f :=
    Finset.sum_congr rfl fun i hi => by rw [hsame i (Finset.mem_range.mp hi)]
  rw [h f, hsum]

theorem IsSum.add {s : ℕ → MgrStats} {acc : MgrStats} (h : IsSum i s acc) :
    IsSum (i + 1) s (mgrStatsAdd (s i) acc) := by
  intro f
  rw [field_add, h f, wrap_add, Finset.sum_range_succ]

theorem sumsRead_of_run (h : (appSystem n).run es = some a) : SumsRead n es a := by
  refine (appSystem n).run_induction (P := SumsRead n) ?_ ?_ es a h
  · intro f
    have hnone : ∀ j, (lastRead n j []).field f = 0 := fun j => field_zero f
    simp [appSystem, App.start, field_zero, hnone, wrap_zero]
  · intro es e a a' hrun ha hstep
    have hsame : (∀ acc j, e = .stats → a.statsPc = .read j acc → a.th[j]? = none) →
        ∀ j, lastRead n j (es ++ [e]) = lastRead n j es := by
      intro hnone j
      rw [lastRead_concat hrun]
      obtain ⟨haccess, -⟩ | ⟨s, -, haccess⟩ | ⟨acc, thr, he, hpc, hthr, -⟩ := access_cases j e a
      · rw [haccess]
        rfl
      · rw [haccess]
        rfl
      · rw [hnone acc j he hpc] at hthr
        cases hthr
    cases appStep_of_step hstep with
    | testRun hpc =>
        simp only [SumsRead, hpc, hsame (by simp [hpc])] at ha ⊢
        exact ha
    | testEnd hpc =>
        simp only [SumsRead, hpc, hsame (by simp [hpc])] at ha ⊢
        exact ha
    | wake hpc => exact ⟨Nat.zero_le n, isSum_zero _⟩
    | @read i acc thr hpc hthr =>
        simp only [SumsRead, hpc] at ha
        have hnew : lastRead n i (es ++ [.stats]) = thr.prevStats := by
          rw [lastRead_concat hrun]
          simp [AppEvent.access, hpc, hthr, Access.seen]
        have hold : ∀ j < i, lastRead n j (es ++ [.stats]) = lastRead n j es := by
          intro j hj
          rw [lastRead_concat hrun]
          simp [AppEvent.access, hpc, hj.ne']
        obtain ⟨hlt, -⟩ := List.getElem?_eq_some_iff.mp hthr
        rw [threads_length ⟨es, hrun⟩] at hlt
        refine ⟨hlt, ?_⟩
        rw [← hnew]
        exact (ha.2.congr hold).add
    | @pass i acc hpc hend =>
        simp only [SumsRead, hpc] at ha
        obtain ⟨hi, hacc⟩ := ha
        have hn : n ≤ i := by
          rw [List.getElem?_eq_none_iff, threads_length ⟨es, hrun⟩] at hend
          exact hend
        obtain rfl : i = n := Nat.le_antisymm hi hn
        refine hacc.congr fun j _ => hsame ?_ j
        intro acc' k _ hk
        obtain ⟨rfl, -⟩ := StatsPc.read.inj (hpc.symm.trans hk)
        exact hend
    | _ =>
        simp only [SumsRead, hsame (by simp)] at ha ⊢
        exact ha

end Reads

/-! ## The interleaving -/

/-- The event, with zeroes if statistics are published. -/
def AppEvent.bare : AppEvent → AppEvent
  | .publish i _ => .publish i MgrStats.zero
  | e => e

/-- The threads take the same steps, whatever statistics are published. -/
def SameSchedule (es es' : List AppEvent) : Prop :=
  es'.map AppEvent.bare = es.map AppEvent.bare

def StatsPc.bare : StatsPc → StatsPc
  | .read i _ => .read i MgrStats.zero
  | pc => pc

def Access.bare : Access → Access
  | .publish _ => .publish MgrStats.zero
  | .read _ => .read MgrStats.zero

def CltThr.bare (thr : CltThr) : CltThr :=
  { thr with prevStats := MgrStats.zero }

/-- The state of the threads, with zeroes for all statistics. -/
def App.bare (a : App) : App where
  th := a.th.map CltThr.bare
  prevStats := MgrStats.zero
  statsThreadRun := a.statsThreadRun
  statsPc := a.statsPc.bare
  mainPc := a.mainPc
  output := a.output.map fun line => (line.1, MgrStats.zero)

section Schedules

variable {n i : ℕ} {es es' : List AppEvent} {e : AppEvent} {a a' : App}

theorem worker_bare {f g : CltThr → CltThr} (hfg : ∀ thr, g thr.bare = (f thr).bare) :
    a.bare.worker i g = (a.worker i f).map App.bare := by
  unfold App.worker
  have hth : a.bare.th[i]? = a.th[i]?.map CltThr.bare := List.getElem?_map
  rw [hth]
  cases a.th[i]? with
  | none => rfl
  | some thr =>
      simp only [Option.map_some]
      have hexited : thr.bare.exited = thr.exited := rfl
      rw [hexited]
      split
      · rfl
      · simp [App.bare, List.map_set, hfg]

/-- What the threads do next does not depend on the statistics. -/
theorem step_bare (n : ℕ) (e : AppEvent) (a : App) :
    (appSystem n).step e.bare a.bare = ((appSystem n).step e a).map App.bare := by
  cases e with
  | publish i s => exact worker_bare fun thr => rfl
  | exit i => exact worker_bare fun thr => rfl
  | stats =>
      simp only [appSystem, AppEvent.bare, appStatsThread]
      have hpc : a.bare.statsPc = a.statsPc.bare := rfl
      rw [hpc]
      cases a.statsPc with
      | test => cases hrun : a.statsThreadRun <;> simp [App.bare, StatsPc.bare, hrun]
      | sleep => rfl
      | read i s =>
          have hth : a.bare.th[i]? = a.th[i]?.map CltThr.bare := List.getElem?_map
          simp only [StatsPc.bare, hth]
          cases a.th[i]? with
          | none =>
              have hdiff : mgrStatsDiff MgrStats.zero MgrStats.zero = MgrStats.zero := by decide
              simp [App.bare, App.print, StatsPc.bare, mgrStatsCopy, hdiff]
          | some thr => rfl
      | exited => rfl
  | main =>
      simp only [appSystem, AppEvent.bare, appMain]
      have hpc : a.bare.mainPc = a.mainPc := rfl
      rw [hpc]
      cases a.mainPc with
      | join i =>
          have hth : a.bare.th[i]? = a.th[i]?.map CltThr.bare := List.getElem?_map
          simp only [hth]
          cases a.th[i]? with
          | none => rfl
          | some thr =>
              have hexited : thr.bare.exited = thr.exited := rfl
              simp only [Option.map_some, hexited]
              split <;> rfl
      | clearFlag => rfl
      | joinStats =>
          have hstats : a.bare.statsPc = .exited ↔ a.statsPc = .exited := by
            cases hpc : a.statsPc <;> simp [App.bare, StatsPc.bare, hpc]
          simp only [hstats]
          split <;> rfl
      | print => simp [App.bare, App.print]
      | done => rfl

theorem start_bare (n : ℕ) : (appSystem n).init.bare = (appSystem n).init := by
  simp [appSystem, App.start, App.bare, CltThr.bare, StatsPc.bare]

theorem run_bare (n : ℕ) (es : List AppEvent) :
    (appSystem n).run (es.map AppEvent.bare) = ((appSystem n).run es).map App.bare := by
  have hmap := (appSystem n).runFrom_map (step_bare n) es (appSystem n).init
  rw [start_bare] at hmap
  exact hmap

theorem access_bare (i : ℕ) (e : AppEvent) (a : App) :
    e.bare.access i a.bare = (e.access i a).map Access.bare := by
  cases e with
  | publish j s =>
      by_cases hj : j = i
      · simp [AppEvent.bare, AppEvent.access, Access.bare, hj]
      · simp [AppEvent.bare, AppEvent.access, hj]
  | stats =>
      have hth : a.bare.th[i]? = a.th[i]?.map CltThr.bare := List.getElem?_map
      simp only [AppEvent.bare, AppEvent.access, hth]
      have hpc : a.bare.statsPc = a.statsPc.bare := rfl
      rw [hpc]
      cases a.statsPc with
      | read j s =>
          by_cases hj : j = i
          · simp [StatsPc.bare, hj, Function.comp_def, Access.bare, CltThr.bare]
          · simp [StatsPc.bare, hj]
      | _ => rfl
  | _ => rfl

theorem accesses_bare (n i : ℕ) (es : List AppEvent) :
    accesses n i (es.map AppEvent.bare) = (accesses n i es).map Access.bare := by
  have hmap := (appSystem n).observedFrom_map (step_bare n) (access_bare i) es (appSystem n).init
  rw [start_bare] at hmap
  exact hmap

theorem SameSchedule.length_accesses (h : SameSchedule es es') (n i : ℕ) :
    (accesses n i es').length = (accesses n i es).length := by
  have hbare := accesses_bare n i es'
  rw [h, accesses_bare] at hbare
  simpa using (congrArg List.length hbare).symm

theorem SameSchedule.readLast (h : SameSchedule es es') (hlast : ReadLast n i es) :
    ReadLast n i es' := by
  have hbare := accesses_bare n i es'
  rw [h, accesses_bare] at hbare
  have hends := congrArg List.getLast? hbare
  rw [List.getLast?_map, List.getLast?_map] at hends
  unfold ReadLast at hlast ⊢
  cases hx : (accesses n i es').getLast? with
  | none => rfl
  | some x =>
      obtain ⟨y, hy, hsame⟩ : ∃ y, (accesses n i es).getLast? = some y ∧ y.bare = x.bare := by
        simpa [hx] using hends
      rw [hy] at hlast
      cases x with
      | read s => rfl
      | publish s =>
          cases y with
          | publish t => simp [Access.published] at hlast
          | read t => simp [Access.bare] at hsame

theorem SameSchedule.run (h : SameSchedule es es') (hrun : (appSystem n).run es = some a) :
    ∃ a', (appSystem n).run es' = some a' ∧ a'.bare = a.bare := by
  have hbare := run_bare n es'
  rw [h, run_bare, hrun, Option.map_some] at hbare
  exact Option.map_eq_some_iff.mp hbare.symm

theorem run_total_of_bare {total : MgrStats} (h : a'.bare = a.bare)
    (hprint : ("run_total", total) ∈ a.output) :
    ∃ total', ("run_total", total') ∈ a'.output := by
  have hmem : ("run_total", MgrStats.zero) ∈ a.bare.output :=
    List.mem_map.mpr ⟨_, hprint, rfl⟩
  rw [← h] at hmem
  obtain ⟨⟨label, total'⟩, hline, hlabel⟩ := List.mem_map.mp hmem
  obtain ⟨rfl, -⟩ := Prod.mk.inj hlabel
  exact ⟨total', hline⟩

end Schedules

/-! ## Runs -/

/-- The total is the field-wise sum of what every worker published last. -/
def Complete (n : ℕ) (es : List AppEvent) (total : MgrStats) : Prop :=
  IsSum n (fun i => lastPublished i es) total

/-- The statistics of a worker that has issued one request. -/
def oneRequest : MgrStats :=
  { MgrStats.zero with reqCount := 1 }

section Runs

variable {n i : ℕ} {es : List AppEvent} {a : App} {total : MgrStats}

theorem run_total_isSum (h : (appSystem n).run es = some a)
    (hprint : ("run_total", total) ∈ a.output) : IsSum n (fun i => lastRead n i es) total := by
  have horder := appOk_of_run h
  obtain ⟨hdone, rfl⟩ := horder.total total hprint
  have hsum := sumsRead_of_run h
  rw [SumsRead, horder.ended (Or.inr hdone)] at hsum
  exact hsum

theorem eq_zero_of_mem_bare {s : MgrStats} (h : .publish i s ∈ es.map AppEvent.bare) :
    s = MgrStats.zero := by
  obtain ⟨e, -, he⟩ := List.mem_map.mp h
  cases e <;> simp_all [AppEvent.bare]

theorem bare_publish (i : ℕ) (s : MgrStats) :
    AppEvent.bare (.publish i s) = .publish i MgrStats.zero :=
  rfl

theorem bare_comp_bare : AppEvent.bare ∘ AppEvent.bare = AppEvent.bare := by
  funext e
  cases e <;> rfl

/-- One request published by worker `i` after `pre`, and zeroes by everybody else. -/
def onlyRequest (i : ℕ) (pre post : List AppEvent) : List AppEvent :=
  pre.map AppEvent.bare ++ [.publish i oneRequest] ++ post.map AppEvent.bare

theorem sameSchedule_onlyRequest (i : ℕ) (t : MgrStats) (pre post : List AppEvent) :
    SameSchedule (pre ++ .publish i t :: post) (onlyRequest i pre post) := by
  simp [SameSchedule, onlyRequest, bare_comp_bare, bare_publish]

theorem eq_zero_of_mem_onlyRequest {pre post : List AppEvent} {j : ℕ} {s : MgrStats} (hj : j ≠ i)
    (h : .publish j s ∈ onlyRequest i pre post) : s = MgrStats.zero := by
  simp only [onlyRequest, List.mem_append, List.mem_singleton] at h
  obtain (hmem | hmem) | hmem := h
  · exact eq_zero_of_mem_bare hmem
  · exact absurd (AppEvent.publish.inj hmem).1 hj
  · exact eq_zero_of_mem_bare hmem

section OnlyRequest

variable {pre post : List AppEvent} (hrun : (appSystem n).run (onlyRequest i pre post) = some a)
include hrun

theorem exists_run_onlyRequest : ∃ b c, (appSystem n).run (pre.map AppEvent.bare) = some b ∧
    (appSystem n).run (pre.map AppEvent.bare ++ [.publish i oneRequest]) = some c := by
  obtain ⟨c, hc, -⟩ := (appSystem n).exists_run_of_run_append hrun
  obtain ⟨b, hb, -⟩ := (appSystem n).run_concat_eq_some.mp hc
  exact ⟨b, c, hb, hc⟩

/-- When nobody touched the statistics of the worker after its publication, nobody does. -/
theorem accesses_onlyRequest {t : MgrStats}
    (hsame : accesses n i (pre ++ .publish i t :: post) = accesses n i (pre ++ [.publish i t])) :
    accesses n i (onlyRequest i pre post) =
      accesses n i (pre.map AppEvent.bare ++ [.publish i oneRequest]) := by
  obtain ⟨b, c, -, hc⟩ := exists_run_onlyRequest hrun
  have hlength := (sameSchedule_onlyRequest i t pre post).length_accesses n i
  have hlength' := (sameSchedule_onlyRequest i t pre []).length_accesses n i
  rw [onlyRequest, List.map_nil, List.append_nil] at hlength'
  have hsplit : accesses n i (onlyRequest i pre post) =
      accesses n i (pre.map AppEvent.bare ++ [.publish i oneRequest]) ++
        (appSystem n).observedFrom (AppEvent.access i) (post.map AppEvent.bare) c :=
    (appSystem n).observedFrom_append (AppEvent.access i) hc
  rw [hsame, ← hlength', hsplit, List.length_append] at hlength
  rw [hsplit, List.eq_nil_of_length_eq_zero (Nat.add_eq_left.mp hlength), List.append_nil]

variable (hrest : accesses n i (onlyRequest i pre post) =
  accesses n i (pre.map AppEvent.bare ++ [.publish i oneRequest]))
include hrest

theorem lastRead_onlyRequest (j : ℕ) : lastRead n j (onlyRequest i pre post) = MgrStats.zero := by
  obtain ⟨b, c, hb, -⟩ := exists_run_onlyRequest hrun
  by_cases hj : j = i
  · subst hj
    have hread := lastRead_concat (i := j) (e := .publish j oneRequest) hb
    rw [lastRead, ← hrest] at hread
    rw [lastRead, hread]
    simpa [AppEvent.access, Access.seen] using (lastRead_mem hb).elim id eq_zero_of_mem_bare
  · exact (lastRead_mem hrun).elim id (eq_zero_of_mem_onlyRequest hj)

theorem lastPublished_onlyRequest (j : ℕ) : lastPublished j (onlyRequest i pre post) =
    if j = i then oneRequest else MgrStats.zero := by
  obtain ⟨b, c, -, hc⟩ := exists_run_onlyRequest hrun
  split
  · rename_i hj
    subst hj
    have hnew := lastPublished_concat j (pre.map AppEvent.bare) (.publish j oneRequest)
    rw [lastPublished, ← filterMap_accesses hc, ← hrest, filterMap_accesses hrun] at hnew
    rw [lastPublished, hnew]
    simp [AppEvent.published]
  · rename_i hj
    exact (lastPublished_mem j _).elim id (eq_zero_of_mem_onlyRequest hj)

end OnlyRequest

theorem isSum_oneRequest (hi : i < n) (hzero : IsSum n (fun _ => MgrStats.zero) total) :
    ¬ IsSum n (fun j => if j = i then oneRequest else MgrStats.zero) total := by
  intro hone
  have hsum := hzero .reqCount
  rw [hone .reqCount, Finset.sum_eq_single_of_mem i (Finset.mem_range.mpr hi)] at hsum
  · simp only [if_true, field_zero, Finset.sum_const_zero] at hsum
    exact absurd hsum (by decide)
  · intro j _ hj
    dsimp only
    rw [if_neg hj, field_zero]

/-- A worker that publishes after it was read last may publish something that is missing
from the total. -/
theorem exists_incomplete (h : (appSystem n).run es = some a)
    (hprint : ("run_total", total) ∈ a.output) (hi : i < n) (hlate : ¬ ReadLast n i es) :
    ∃ es' a' total', SameSchedule es es' ∧ (appSystem n).run es' = some a' ∧
      ("run_total", total') ∈ a'.output ∧ ¬ Complete n es' total' := by
  obtain ⟨s, hs⟩ := Option.ne_none_iff_exists'.mp hlate
  obtain ⟨x, hx, hpublish⟩ := Option.bind_eq_some_iff.mp hs
  obtain ⟨pre, e, post, b, rfl, -, haccess, hsame⟩ := (appSystem n).exists_last_observed h hx
  obtain ⟨t, rfl⟩ : ∃ t, e = .publish i t := by
    obtain ⟨hnone, -⟩ | ⟨t, rfl, -⟩ | ⟨acc, thr, -, -, -, hread⟩ := access_cases i e b
    · simp [hnone] at haccess
    · exact ⟨t, rfl⟩
    · rw [hread] at haccess
      obtain rfl := Option.some.inj haccess
      simp [Access.published] at hpublish
  have hschedule := sameSchedule_onlyRequest i t pre post
  obtain ⟨a', hrun, hbare⟩ := hschedule.run h
  obtain ⟨total', hprint'⟩ := run_total_of_bare hbare hprint
  refine ⟨_, a', total', hschedule, hrun, hprint', fun hcomplete => ?_⟩
  have hrest := accesses_onlyRequest hrun hsame
  refine isSum_oneRequest hi ((run_total_isSum hrun hprint').congr fun j _ => ?_)
    (hcomplete.congr fun j _ => ?_)
  · exact (lastRead_onlyRequest hrun hrest j).symm
  · exact (lastPublished_onlyRequest hrun hrest j).symm

/-- The total that `main` prints is the field-wise sum of what the statistics thread has
read of the workers last.  On an interleaving it is the sum of what every worker
published last, whatever statistics are published, exactly when no worker publishes
after the statistics thread has read it last. -/
theorem run_total_complete_iff (h : (appSystem n).run es = some a)
    (hprint : ("run_total", total) ∈ a.output) :
    IsSum n (fun i => lastRead n i es) total ∧
      ((∀ es' a' total', SameSchedule es es' → (appSystem n).run es' = some a' →
        ("run_total", total') ∈ a'.output → Complete n es' total') ↔
          ∀ i < n, ReadLast n i es) := by
  refine ⟨run_total_isSum h hprint, ?_, ?_⟩
  · intro hall i hi
    by_contra hlate
    obtain ⟨es', a', total', hsame, hrun, hprint', hnot⟩ := exists_incomplete h hprint hi hlate
    exact hnot (hall es' a' total' hsame hrun hprint')
  · intro hlast es' a' total' hsame hrun hprint'
    refine (run_total_isSum hrun hprint').congr fun i hi => ?_
    exact (lastRead_of_readLast hrun (hsame.readLast (hlast i hi))).symm

end Runs

/-- The statistics thread reads the only worker before that one publishes, and `main`
clears the flag before the pass is over. -/
def lateRun : List AppEvent :=
  [.stats, .stats, .stats, .publish 0 oneRequest, .exit 0, .main, .main, .main, .stats, .stats,
    .main, .main]

/-- The request of the worker is missing from the total. -/
theorem run_total_incomplete :
    ∃ a, (appSystem 1).run lateRun = some a ∧ ("run_total", MgrStats.zero) ∈ a.output ∧
      ¬ Complete 1 lateRun MgrStats.zero := by
  refine ⟨_, rfl, by decide, ?_⟩
  intro hcomplete
  exact absurd (hcomplete .reqCount) (by decide)

/-- Two workers publish while the statistics thread is asleep, and return before its
pass. -/
def asleepRun : List AppEvent :=
  [.stats, .publish 0 oneRequest, .publish 1 oneRequest, .exit 1, .exit 0, .main, .main, .main,
    .main, .stats, .stats, .stats, .stats, .stats, .main, .main]

/-- The total has the requests of both. -/
theorem run_total_complete_after_sleep :
    ∃ a total, (appSystem 2).run asleepRun = some a ∧ ("run_total", total) ∈ a.output ∧
      total.reqCount = 2 ∧ Complete 2 asleepRun total := by
  have hrun : ∃ a total, (appSystem 2).run asleepRun = some a ∧
      ("run_total", total) ∈ a.output ∧ total.reqCount = 2 :=
    ⟨_, { MgrStats.zero with reqCount := 2 }, rfl, by decide, rfl⟩
  obtain ⟨a, total, ha, hprint, htwo⟩ := hrun
  exact ⟨a, total, ha, hprint, htwo,
    (run_total_complete_iff ha hprint).2.mpr (by decide) _ a total rfl ha hprint⟩

end EvhtpHttp.Client

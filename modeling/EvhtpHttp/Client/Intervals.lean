import EvhtpHttp.Client.Totals
import EvhtpHttp.Support.Reading
import Mathlib.Data.Int.ConditionallyCompleteOrder

/-!
# The intervals between two reports

Every second the statistics thread reports the sum of what the workers have
published and its difference from the sum before.  The workers are read one
after the other, so the sum need not have been the state of the program at any
moment.  Its counters still never decrease, because those of every worker do
not, and the differences are exact.
-/

namespace EvhtpHttp.Client

open EvhtpHttp.Support

/-! ## Fields -/

namespace MgrStats

/-- The complete responses are those of the three kinds of status. -/
def Balanced (s : MgrStats) : Prop :=
  s.reqCountOk = s.reqStatustype200 + s.reqStatustype302 + s.reqStatustypeOther

instance (s : MgrStats) : Decidable s.Balanced :=
  inferInstanceAs (Decidable (_ = _))

/-- No counter of `s` is above that of `t`. -/
def CountersLe (s t : MgrStats) : Prop :=
  ∀ f, f ≠ .nconn → s.field f ≤ t.field f

/-- Statistics of at most `bound` connections. -/
structure Sound (bound : ℤ) (s : MgrStats) : Prop where
  nonneg : 0 ≤ s.nconn
  le_bound : s.nconn ≤ bound
  balanced : s.Balanced

end MgrStats

/-- The values of the field's type. -/
def StatsField.Fits (f : StatsField) (x : ℤ) : Prop :=
  if f = .nconn then IsInt32 x else 0 ≤ x ∧ x < 2 ^ 64

theorem StatsField.fits_nconn {x : ℤ} : StatsField.nconn.Fits x ↔ IsInt32 x :=
  Iff.rfl

theorem StatsField.fits_counter {f : StatsField} (hf : f ≠ .nconn) {x : ℤ} :
    f.Fits x ↔ 0 ≤ x ∧ x < 2 ^ 64 := by
  rw [StatsField.Fits, if_neg hf]

theorem field_counter_nonneg {f : StatsField} (hf : f ≠ .nconn) (s : MgrStats) :
    0 ≤ s.field f := by
  cases f with
  | nconn => exact absurd rfl hf
  | _ => exact Int.natCast_nonneg _

theorem balanced_iff {s : MgrStats} : s.Balanced ↔ s.field .reqCountOk =
    s.field .reqStatustype200 + s.field .reqStatustype302 + s.field .reqStatustypeOther := by
  simp only [MgrStats.Balanced, MgrStats.field]
  omega

theorem MgrStats.CountersLe.refl (s : MgrStats) : s.CountersLe s :=
  fun _ _ => le_refl _

theorem MgrStats.CountersLe.trans {s t u : MgrStats} (h : s.CountersLe t) (h' : t.CountersLe u) :
    s.CountersLe u :=
  fun f hf => (h f hf).trans (h' f hf)

theorem MgrStats.Sound.mono {b b' : ℤ} {s : MgrStats} (h : s.Sound b) (hb : b ≤ b') :
    s.Sound b' :=
  ⟨h.nonneg, h.le_bound.trans hb, h.balanced⟩

theorem sound_zero : MgrStats.zero.Sound 0 :=
  ⟨le_refl _, le_refl _, rfl⟩

theorem cast_uint64_add {a b : ℕ} (h : (a : ℤ) + b < 2 ^ 64) :
    ((uint64 (a + b) : ℕ) : ℤ) = a + b := by
  unfold uint64
  omega

theorem cast_uint64Sub {a b : ℕ} (h : 0 ≤ (a : ℤ) - b) (hlt : (a : ℤ) - b < 2 ^ 64) :
    ((uint64Sub a b : ℕ) : ℤ) = a - b := by
  unfold uint64Sub uint64
  omega

theorem field_mgrStatsAdd {s acc : MgrStats} (f : StatsField)
    (hfits : f.Fits (acc.field f + s.field f)) :
    (mgrStatsAdd s acc).field f = acc.field f + s.field f := by
  cases f with
  | nconn => exact int32_of_isInt32 hfits
  | _ => exact cast_uint64_add hfits.2

theorem field_mgrStatsDiff {sfrom sto : MgrStats} (f : StatsField)
    (hfits : f.Fits (sto.field f - sfrom.field f)) :
    (mgrStatsDiff sfrom sto).field f = sto.field f - sfrom.field f := by
  cases f with
  | nconn => exact int32_of_isInt32 hfits
  | _ => exact cast_uint64Sub hfits.1 hfits.2

theorem sound_mgrStatsAdd {s acc : MgrStats} {b c : ℤ} (hacc : acc.Sound c) (hs : s.Sound b)
    (hfits : ∀ f : StatsField, f.Fits (acc.field f + s.field f)) :
    (mgrStatsAdd s acc).Sound (c + b) := by
  have hnconn : (mgrStatsAdd s acc).nconn = acc.nconn + s.nconn :=
    field_mgrStatsAdd .nconn (hfits .nconn)
  have hbalanced := balanced_iff.mp hacc.balanced
  have hbalanced' := balanced_iff.mp hs.balanced
  constructor
  · rw [hnconn]
    exact add_nonneg hacc.nonneg hs.nonneg
  · rw [hnconn]
    exact add_le_add hacc.le_bound hs.le_bound
  · rw [balanced_iff]
    simp only [field_mgrStatsAdd _ (hfits _)]
    omega

theorem balanced_mgrStatsDiff {sfrom sto : MgrStats} (hfrom : sfrom.Balanced)
    (hto : sto.Balanced) (hfits : ∀ f : StatsField, f.Fits (sto.field f - sfrom.field f)) :
    (mgrStatsDiff sfrom sto).Balanced := by
  rw [balanced_iff] at hfrom hto ⊢
  simp only [field_mgrStatsDiff _ (hfits _)]
  omega

/-! ## Reports -/

namespace App

/-- The statistics printed with a prefix. -/
def lines (label : String) (a : App) : List MgrStats :=
  (a.output.filter fun line => line.1 = label).map Prod.snd

/-- The sum printed last, if any was. -/
def lastTotal (a : App) : MgrStats :=
  (a.lines "interval_total").getLastD MgrStats.zero

/-- The differences printed are those of the sums printed, none of whose
counters ever decreases, and the last sum is kept for the next difference. -/
structure ReportsOk (a : App) : Prop where
  last : a.lastTotal = a.prevStats
  exact : ∀ f, (a.lines "interval_diff").map (MgrStats.field f) =
    differences 0 ((a.lines "interval_total").map (MgrStats.field f))
  rises : ∀ f, f ≠ .nconn → ((a.lines "interval_total").map (MgrStats.field f)).IsChain (· ≤ ·)
  balanced : ∀ s ∈ a.lines "interval_total" ++ a.lines "interval_diff", s.Balanced

/-- Where the statistics thread is in its pass, and the sum so far. -/
def reading (a : App) : ℕ × MgrStats :=
  match a.statsPc with
  | .read i s => (i, s)
  | _ => (0, MgrStats.zero)

/-- No counter of the sum reaches `2^64` when the next worker is added to it. -/
def CountersFit (a : App) : Prop :=
  ∀ i acc thr, a.statsPc = .read i acc → a.th[i]? = some thr →
    ∀ f, f ≠ .nconn → acc.field f + thr.prevStats.field f < 2 ^ 64

/-- What has been read and published, when no worker ever publishes more than
`bound` connections. -/
structure IntervalsOk (bound : ℤ) (a : App) : Prop where
  published : ∀ s ∈ a.published, s.Sound bound
  total : a.prevStats.Sound (bound * a.th.length)
  within : a.reading.1 ≤ a.th.length
  sum : a.reading.2.Sound (bound * a.reading.1)
  fits : ∀ f, f ≠ .nconn → a.reading.2.field f < 2 ^ 64
  reads : ∀ f, f ≠ .nconn → ReadsUp (a.prevStats.field f) (a.reading.2.field f) a.reading.1
    (a.published.map (MgrStats.field f))

end App

theorem lines_append (label : String) (a : App) (l : List (String × MgrStats)) :
    App.lines label { a with output := a.output ++ l } =
      a.lines label ++ (l.filter fun line => line.1 = label).map Prod.snd := by
  simp [App.lines]

theorem reportsOk_start (n : ℕ) : (App.start n).ReportsOk := by
  constructor <;> simp [App.start, App.lines, App.lastTotal, differences]

theorem field_lastTotal (f : StatsField) (a : App) :
    ((a.lines "interval_total").map (MgrStats.field f)).getLastD 0 = a.lastTotal.field f := by
  rw [App.lastTotal, List.getLastD_eq_getLast?, List.getLastD_eq_getLast?, List.getLast?_map,
    ← field_zero f, Option.getD_map]

theorem App.ReportsOk.pass {a : App} (ha : a.ReportsOk) {s : MgrStats} {pc : StatsPc}
    (hbalanced : s.Balanced) (hprev : a.prevStats.Balanced) (hle : a.prevStats.CountersLe s)
    (hfits : ∀ f : StatsField, f.Fits (s.field f - a.prevStats.field f)) :
    ReportsOk { a with
      output := a.output ++
        [("interval_total", s), ("interval_diff", mgrStatsDiff a.prevStats s)]
      prevStats := s
      statsPc := pc } := by
  have htotal : ∀ prev pc, App.lines "interval_total" { a with
      output := a.output ++
        [("interval_total", s), ("interval_diff", mgrStatsDiff a.prevStats s)]
      prevStats := prev
      statsPc := pc } = a.lines "interval_total" ++ [s] := fun _ _ => lines_append _ a _
  have hdiff : ∀ prev pc, App.lines "interval_diff" { a with
      output := a.output ++
        [("interval_total", s), ("interval_diff", mgrStatsDiff a.prevStats s)]
      prevStats := prev
      statsPc := pc } = a.lines "interval_diff" ++ [mgrStatsDiff a.prevStats s] :=
    fun _ _ => lines_append _ a _
  constructor
  · rw [App.lastTotal, htotal]
    simp
  · intro f
    rw [hdiff, htotal, List.map_append, List.map_append, ha.exact f]
    simp only [List.map_cons, List.map_nil]
    rw [differences_concat, field_lastTotal, ha.last, field_mgrStatsDiff f (hfits f)]
  · intro f hf
    rw [htotal, List.map_append, List.isChain_append]
    refine ⟨ha.rises f hf, List.isChain_singleton _, ?_⟩
    intro x hx y hy
    have hlast := field_lastTotal f a
    rw [List.getLastD_eq_getLast?, Option.mem_def.mp hx, Option.getD_some, ha.last] at hlast
    obtain rfl : s.field f = y := by simpa using hy
    rw [hlast]
    exact hle f hf
  · intro t ht
    rw [htotal, hdiff] at ht
    simp only [List.mem_append, List.mem_singleton] at ht
    rcases ht with (ht | rfl) | (ht | rfl)
    · exact ha.balanced t (List.mem_append_left _ ht)
    · exact hbalanced
    · exact ha.balanced t (List.mem_append_right _ ht)
    · exact balanced_mgrStatsDiff hprev hbalanced hfits

/-! ## Passes -/

section Passes

variable {bound : ℤ} {a a' : App}

theorem intervalsOk_start (n : ℕ) (hbound : 0 ≤ bound) : (App.start n).IntervalsOk bound where
  published s hs := by
    obtain ⟨-, rfl⟩ : n ≠ 0 ∧ s = MgrStats.zero := by
      simpa [App.start, App.published] using hs
    exact sound_zero.mono hbound
  total := sound_zero.mono (mul_nonneg hbound (Int.natCast_nonneg _))
  within := Nat.zero_le _
  sum := sound_zero.mono (mul_nonneg hbound (Int.natCast_nonneg _))
  fits f _ := (field_zero f).trans_lt (by decide)
  reads f _ := by
    have hstart : ReadsUp (0 : ℤ) 0 0 ((App.start n).published.map (MgrStats.field f)) :=
      readsUp_zero (by simp [App.start, App.published, field_zero])
    simpa [App.start, App.reading, field_zero] using hstart

namespace App.IntervalsOk

theorem congr (ha : a.IntervalsOk bound) (hpublished : a'.published = a.published)
    (hprev : a'.prevStats = a.prevStats) (hreading : a'.reading = a.reading) :
    a'.IntervalsOk bound := by
  have hlength : a'.th.length = a.th.length := by
    have hmap := congrArg List.length hpublished
    simpa only [App.published, List.length_map] using hmap
  obtain ⟨hp, ht, hw, hs, hf, hr⟩ := ha
  rw [← hpublished] at hp hr
  rw [← hprev] at ht hr
  rw [← hreading] at hw hs hf hr
  rw [← hlength] at ht hw
  exact ⟨hp, ht, hw, hs, hf, hr⟩

theorem publish (ha : a.IntervalsOk bound) {i : ℕ} {thr : CltThr} {s : MgrStats}
    (hthr : a.th[i]? = some thr) (hs : s.Sound bound) (hle : thr.prevStats.CountersLe s) :
    IntervalsOk bound { a with th := a.th.set i { thr with prevStats := s } } := by
  have hpublished : App.published { a with th := a.th.set i { thr with prevStats := s } } =
      a.published.set i s := by
    simp [App.published]
  constructor
  · intro t ht
    rw [hpublished] at ht
    rcases List.mem_or_eq_of_mem_set ht with ht | rfl
    · exact ha.published t ht
    · exact hs
  · rw [List.length_set]
    exact ha.total
  · rw [List.length_set]
    exact ha.within
  · exact ha.sum
  · exact ha.fits
  · intro f hf
    rw [hpublished, List.map_set]
    apply (ha.reads f hf).mono
    apply forall₂_set_of_le
    intro x hx
    obtain rfl : thr.prevStats.field f = x := by
      simpa [App.published, hthr] using hx
    exact hle f hf

theorem fits_next (ha : a.IntervalsOk bound) (hfit : a.CountersFit)
    (hcap : bound * a.th.length ≤ intMax) {i : ℕ} {acc : MgrStats} {thr : CltThr}
    (hpc : a.statsPc = .read i acc) (hthr : a.th[i]? = some thr) (f : StatsField) :
    f.Fits (acc.field f + thr.prevStats.field f) := by
  by_cases hf : f = .nconn
  · subst hf
    have hacc := ha.sum
    simp only [App.reading, hpc] at hacc
    have hs : thr.prevStats.Sound bound :=
      ha.published _ (List.mem_map_of_mem (List.mem_of_getElem? hthr))
    obtain ⟨hlt, -⟩ := List.getElem?_eq_some_iff.mp hthr
    have hle : bound * ((i : ℤ) + 1) ≤ bound * a.th.length :=
      mul_le_mul_of_nonneg_left (by exact_mod_cast hlt) (hs.nonneg.trans hs.le_bound)
    rw [mul_add, mul_one] at hle
    have hlo := add_nonneg hacc.nonneg hs.nonneg
    have hhi := add_le_add hacc.le_bound hs.le_bound
    rw [StatsField.fits_nconn]
    refine ⟨?_, (hhi.trans hle).trans hcap⟩
    exact le_trans (by decide) hlo
  · rw [StatsField.fits_counter hf]
    refine ⟨?_, hfit i acc thr hpc hthr f hf⟩
    exact add_nonneg (field_counter_nonneg hf _) (field_counter_nonneg hf _)

theorem read (ha : a.IntervalsOk bound) (hfit : a.CountersFit)
    (hcap : bound * a.th.length ≤ intMax) {i : ℕ} {acc : MgrStats} {thr : CltThr}
    (hpc : a.statsPc = .read i acc) (hthr : a.th[i]? = some thr) :
    IntervalsOk bound
      { a with statsPc := .read (i + 1) (mgrStatsAdd thr.prevStats acc) } := by
  have hfits := ha.fits_next hfit hcap hpc hthr
  have hacc := ha.sum
  have hreads := ha.reads
  simp only [App.reading, hpc] at hacc hreads
  have hs : thr.prevStats.Sound bound :=
    ha.published _ (List.mem_map_of_mem (List.mem_of_getElem? hthr))
  obtain ⟨hlt, -⟩ := List.getElem?_eq_some_iff.mp hthr
  constructor
  · exact ha.published
  · exact ha.total
  · exact hlt
  · have hsum := sound_mgrStatsAdd hacc hs hfits
    apply hsum.mono
    simp only [App.reading]
    push_cast
    rw [mul_add, mul_one]
  · intro f hf
    simp only [App.reading, field_mgrStatsAdd f (hfits f)]
    exact hfit i acc thr hpc hthr f hf
  · intro f hf
    simp only [App.reading, field_mgrStatsAdd f (hfits f)]
    apply (hreads f hf).next
    simp [App.published, hthr]

/-- At the end of a pass the new sum and the one before differ by values of the
fields' types, and no counter has decreased. -/
theorem pass_fits (ha : a.IntervalsOk bound) (hcap : bound * a.th.length ≤ intMax) {i : ℕ}
    {s : MgrStats} (hpc : a.statsPc = .read i s) (hend : a.th[i]? = none) :
    s.Sound (bound * a.th.length) ∧ a.prevStats.CountersLe s ∧
      ∀ f : StatsField, f.Fits (s.field f - a.prevStats.field f) := by
  have hs := ha.sum
  have hreads := ha.reads
  have hlt := ha.fits
  have hi := ha.within
  simp only [App.reading, hpc] at hs hreads hlt hi
  have hlength : i = a.th.length := le_antisymm hi (List.getElem?_eq_none_iff.mp hend)
  have hnone : ∀ f, (a.published.map (MgrStats.field f))[i]? = none := by
    intro f
    simp [App.published, hend]
  have hle : a.prevStats.CountersLe s := fun f hf => ((hreads f hf).finish (hnone f)).1
  rw [hlength] at hs
  refine ⟨hs, hle, ?_⟩
  intro f
  by_cases hf : f = .nconn
  · subst hf
    have hprev := ha.total
    obtain ⟨hlo, hhi, -⟩ := hs
    obtain ⟨hlo', hhi', -⟩ := hprev
    rw [StatsField.fits_nconn]
    simp only [IsInt32, intMax, MgrStats.field] at hcap ⊢
    constructor <;> omega
  · rw [StatsField.fits_counter hf]
    have hlo := field_counter_nonneg hf a.prevStats
    have hhi := hlt f hf
    have hmono := hle f hf
    constructor <;> omega

theorem pass (ha : a.IntervalsOk bound) (hcap : bound * a.th.length ≤ intMax) {i : ℕ}
    {s : MgrStats} (hpc : a.statsPc = .read i s) (hend : a.th[i]? = none)
    (output : List (String × MgrStats)) :
    IntervalsOk bound { a with output := output, prevStats := s, statsPc := .test } := by
  obtain ⟨hs, -, -⟩ := ha.pass_fits hcap hpc hend
  have hreads := ha.reads
  simp only [App.reading, hpc] at hreads
  constructor
  · exact ha.published
  · exact hs
  · exact Nat.zero_le _
  · exact sound_zero.mono (by simp [App.reading])
  · intro f _
    exact (field_zero f).trans_lt (by decide)
  · intro f hf
    have hle := ((hreads f hf).finish (by simp [App.published, hend])).2
    simp only [App.reading, field_zero]
    exact readsUp_zero hle

end App.IntervalsOk

/-- What the workers publish keeps the statistics thread's view consistent. -/
theorem AppStep.intervalsOk {e : AppEvent} (h : AppStep a e a') (ha : a.IntervalsOk bound)
    (hpublish : ∀ i s, e = .publish i s → s.Sound bound ∧
      ∀ thr, a.th[i]? = some thr → thr.prevStats.CountersLe s)
    (hfit : e = .stats → a.CountersFit) (hcap : bound * a.th.length ≤ intMax) :
    a'.IntervalsOk bound := by
  cases h with
  | @publish i s thr hthr =>
      obtain ⟨hs, hle⟩ := hpublish i s rfl
      exact ha.publish hthr hs (hle thr hthr)
  | exit hthr halive =>
      refine ha.congr ?_ rfl rfl
      apply List.ext_getElem?
      intro j
      rw [(AppStep.exit hthr halive).published j]
      simp [AppEvent.published]
  | testRun hpc => exact ha.congr rfl rfl (by simp [App.reading, hpc])
  | testEnd hpc => exact ha.congr rfl rfl (by simp [App.reading, hpc])
  | wake hpc => exact ha.congr rfl rfl (by simp [App.reading, hpc])
  | read hpc hthr => exact ha.read (hfit rfl) hcap hpc hthr
  | pass hpc hend => exact ha.pass hcap hpc hend _
  | _ => exact ha.congr rfl rfl rfl

/-- Only the end of a pass adds to the reports of the statistics thread. -/
theorem AppStep.reportsOk {e : AppEvent} (h : AppStep a e a') (ha : a.IntervalsOk bound)
    (hreports : a.ReportsOk) (hcap : bound * a.th.length ≤ intMax) : a'.ReportsOk := by
  cases h with
  | pass hpc hend =>
      obtain ⟨hs, hle, hfits⟩ := ha.pass_fits hcap hpc hend
      exact hreports.pass hs.balanced ha.total.balanced hle hfits
  | print hpc =>
      have hlines : ∀ label, label ≠ "run_total" → ∀ pc, App.lines label
          { a with output := a.output ++ [("run_total", a.prevStats)], mainPc := pc } =
            a.lines label := by
        intro label hlabel pc
        simp [App.lines, hlabel.symm]
      have htotal := hlines "interval_total" (by decide)
      have hdiff := hlines "interval_diff" (by decide)
      obtain ⟨hlast, hexact, hrises, hbalanced⟩ := hreports
      constructor
      · rw [App.lastTotal, htotal]
        exact hlast
      · rw [htotal, hdiff]
        exact hexact
      · rw [htotal]
        exact hrises
      · rw [htotal, hdiff]
        exact hbalanced
  | _ => exact ⟨hreports.last, hreports.exact, hreports.rises, hreports.balanced⟩

end Passes

end EvhtpHttp.Client

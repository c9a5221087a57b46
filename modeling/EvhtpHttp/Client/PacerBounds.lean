import EvhtpHttp.Client.Refinement
import EvhtpHttp.Support.Potential

/-!
# How much the pacer admits

The pacer on its own: intervals begin with an update, and between two updates
any number of attempts is made, each of which asks first.  The level of the
pacer is the error less what was admitted in the present interval; an update
adds the share of one interval to the level, up to that share, and every
admission takes one unit from it.
-/

namespace EvhtpHttp.Client

open EvhtpHttp.Support

/-- What happens to the pacer.  An attempt that is admitted may still be given
up before it is counted. -/
inductive PacerEvent
  | update
  | attempt (taken : Bool)
deriving Repr, DecidableEq

/-- The pacer for a positive rate, from the zeroed state on. -/
def pacerSystem (rate : ℤ) : System Pacer PacerEvent where
  init := Pacer.zero
  step
    | .update, p => some (cltMgrReqratePacerUpdate rate p)
    | .attempt taken, p =>
      if cltMgrReqratePacerCheck rate p && taken then some (cltMgrReqratePacerInc rate p)
      else some p

/-- The admissions of one event. -/
def admits (rate : ℤ) (e : PacerEvent) (p : Pacer) : ℤ :=
  match e with
  | .update => 0
  | .attempt taken => if cltMgrReqratePacerCheck rate p && taken then 1 else 0

/-- The admissions in a sequence of events out of the state `p`. -/
def admissions (rate : ℤ) (es : List PacerEvent) (p : Pacer) : ℤ :=
  (pacerSystem rate).sumFrom (admits rate) es p

/-- The number of intervals that begin in a sequence of events. -/
def intervals (es : List PacerEvent) : ℕ :=
  es.count .update

theorem pacerSystem_total (rate : ℤ) (es : List PacerEvent) (p : Pacer) :
    ∃ p', (pacerSystem rate).runFrom es p = some p' := by
  induction es generalizing p with
  | nil => exact ⟨p, rfl⟩
  | cons e es ih =>
      have hstep : ∃ p₁, (pacerSystem rate).step e p = some p₁ := by
        cases e with
        | update => exact ⟨_, rfl⟩
        | attempt taken =>
            simp only [pacerSystem]
            split
            · exact ⟨_, rfl⟩
            · exact ⟨_, rfl⟩
      obtain ⟨p₁, hp₁⟩ := hstep
      obtain ⟨p', hp'⟩ := ih p₁
      exact ⟨p', by rw [System.runFrom, hp₁, Option.bind_some, hp']⟩

/-! ## Invariant -/

/-- The error is at most the share of one interval, and the target is what the
rate and the error allow. -/
structure PacerOk (rate : ℤ) (p : Pacer) : Prop where
  error_nonneg : 0 ≤ p.requestRateError
  error_le : p.requestRateError ≤ 10 * rate
  cur_nonneg : 0 ≤ p.requestCountCur
  cur_le : p.requestCountCur ≤ p.requestCountTarget
  target_le : p.requestCountTarget ≤ rate / 100 + p.requestRateError / 1000

/-- What is left of the error after the admissions of the present interval. -/
def Pacer.level (p : Pacer) : ℤ :=
  p.requestRateError - 1000 * p.requestCountCur

theorem PacerOk.zero {rate : ℤ} (hrate : 0 < rate) : PacerOk rate Pacer.zero := by
  constructor
  · exact le_refl 0
  · simp only [Pacer.zero]
    omega
  · exact le_refl 0
  · exact le_refl 0
  · simp only [Pacer.zero]
    omega

theorem PacerOk.level_ge {rate : ℤ} {p : Pacer} (h : PacerOk rate p) :
    -(1000 * (rate / 100)) ≤ p.level := by
  have hcur := h.cur_le
  have htarget := h.target_le
  have herror := h.error_nonneg
  simp only [Pacer.level]
  omega

section Update

variable {rate : ℤ} {p : Pacer}

theorem pacerShare_eq (hfits : IsInt32 (rate * 1000)) (hrate : 0 < rate) :
    pacerShare rate = 10 * rate := by
  rw [pacerShare, reqrateFixedMult, reqrateInt, int32_of_isInt32 hfits,
    Int.tdiv_eq_ediv_of_nonneg (by omega)]
  omega

theorem pacerClamp_eq {t x : ℤ} (hneg : IsInt32 (-t)) (hx : -t ≤ x) :
    pacerClamp t x = min x t := by
  rw [pacerClamp, int32_of_isInt32 hneg]
  split
  · omega
  · split
    · omega
    · omega

/-- The exact values of the expressions that `clt_mgr_reqrate_pacer_update` computes
in `int`, in their order; each operand is the value the code has for it. -/
def pacerUpdateValues (rate : ℤ) (p : Pacer) : List ℤ :=
  let counted := p.requestCountCur * reqrateFixedMult
  let lowered := p.requestRateError - int32 counted
  let scaled := rate * reqrateFixedMult
  let raised := int32 lowered + pacerShare rate
  let err := pacerClamp (pacerShare rate) (int32 raised)
  let target := rate.tdiv reqrateInt + err.tdiv reqrateFixedMult
  [counted, lowered, scaled, raised, -pacerShare rate, target]

/-- The update computes with these values, each brought back into an `int`. -/
theorem pacerUpdate_values (rate : ℤ) (p : Pacer) :
    ∃ counted lowered scaled raised negated target,
      pacerUpdateValues rate p = [counted, lowered, scaled, raised, negated, target] ∧
      lowered = p.requestRateError - int32 counted ∧
      raised = int32 lowered + (int32 scaled).tdiv reqrateInt ∧
      cltMgrReqratePacerUpdate rate p =
        { requestRateError := pacerClamp ((int32 scaled).tdiv reqrateInt) (int32 raised)
          requestCountTarget := int32 target
          requestCountCur := 0 } :=
  ⟨_, _, _, _, _, _, rfl, rfl, rfl, rfl⟩

/-- When the scaled rate fits in an `int`, so does every value of an update. -/
theorem PacerOk.values_fit (hfits : IsInt32 (rate * 1000)) (hrate : 0 < rate)
    (hp : PacerOk rate p) : ∀ x ∈ pacerUpdateValues rate p, IsInt32 x := by
  have hlevel := hp.level_ge
  obtain ⟨herror, herror', hcur, hcur', htarget⟩ := hp
  have hmax := (isInt32_iff.mp hfits).2
  have hcounted : IsInt32 (p.requestCountCur * 1000) := by
    rw [isInt32_iff]
    omega
  have hlowered : IsInt32 (p.requestRateError - p.requestCountCur * 1000) := by
    rw [isInt32_iff]
    omega
  have hraised : IsInt32 (p.requestRateError - p.requestCountCur * 1000 + 10 * rate) := by
    rw [isInt32_iff]
    omega
  have hneg : IsInt32 (-(10 * rate)) := by
    rw [isInt32_iff]
    omega
  have hclamp := pacerClamp_eq hneg
    (x := p.requestRateError - p.requestCountCur * 1000 + 10 * rate) (by
      simp only [Pacer.level] at hlevel
      omega)
  have hsum : IsInt32 (rate.tdiv 100 +
      (min (p.requestRateError - p.requestCountCur * 1000 + 10 * rate) (10 * rate)).tdiv 1000) := by
    simp only [Pacer.level] at hlevel
    rw [Int.tdiv_eq_ediv_of_nonneg hrate.le, Int.tdiv_eq_ediv_of_nonneg (by omega), isInt32_iff]
    omega
  simp only [pacerUpdateValues, pacerShare_eq hfits hrate, reqrateFixedMult, reqrateInt,
    int32_of_isInt32 hcounted, int32_of_isInt32 hlowered, int32_of_isInt32 hraised, hclamp,
    List.forall_mem_cons]
  exact ⟨hcounted, hlowered, hfits, hraised, hneg, hsum, by simp⟩

/-- An update adds the share of one interval to the level, up to that share. -/
theorem pacerUpdate_eq (hfits : IsInt32 (rate * 1000)) (hrate : 0 < rate)
    (hp : PacerOk rate p) :
    cltMgrReqratePacerUpdate rate p =
      { requestRateError := min (p.level + 10 * rate) (10 * rate)
        requestCountTarget := rate / 100 + min (p.level + 10 * rate) (10 * rate) / 1000
        requestCountCur := 0 } := by
  have hlevel := hp.level_ge
  have hvalues := hp.values_fit hfits hrate
  simp only [pacerUpdateValues, pacerShare_eq hfits hrate, reqrateFixedMult, reqrateInt,
    List.forall_mem_cons] at hvalues
  obtain ⟨hcounted, hlowered, -, hraised, hneg, htarget, -⟩ := hvalues
  rw [int32_of_isInt32 hcounted] at hlowered
  have hraise : p.requestRateError - p.requestCountCur * 1000 + 10 * rate =
      p.level + 10 * rate := by
    simp only [Pacer.level]
    omega
  simp only [int32_of_isInt32 hcounted, int32_of_isInt32 hlowered, hraise] at hraised htarget
  have hclamp : pacerClamp (10 * rate) (p.level + 10 * rate) =
      min (p.level + 10 * rate) (10 * rate) := pacerClamp_eq hneg (by omega)
  rw [int32_of_isInt32 hraised, hclamp, Int.tdiv_eq_ediv_of_nonneg hrate.le,
    Int.tdiv_eq_ediv_of_nonneg (by omega)] at htarget
  simp only [cltMgrReqratePacerUpdate, pacerShare_eq hfits hrate, reqrateFixedMult, reqrateInt,
    int32_of_isInt32 hcounted, int32_of_isInt32 hlowered, hraise, int32_of_isInt32 hraised, hclamp]
  rw [Int.tdiv_eq_ediv_of_nonneg hrate.le, Int.tdiv_eq_ediv_of_nonneg (by omega),
    int32_of_isInt32 htarget]

theorem PacerOk.update (hfits : IsInt32 (rate * 1000)) (hrate : 0 < rate)
    (hp : PacerOk rate p) : PacerOk rate (cltMgrReqratePacerUpdate rate p) := by
  have hlevel := hp.level_ge
  rw [pacerUpdate_eq hfits hrate hp]
  constructor <;> dsimp only <;> omega

theorem level_update (hfits : IsInt32 (rate * 1000)) (hrate : 0 < rate)
    (hp : PacerOk rate p) :
    (cltMgrReqratePacerUpdate rate p).level = min (p.level + 10 * rate) (10 * rate) := by
  rw [pacerUpdate_eq hfits hrate hp]
  simp [Pacer.level]

theorem cltMgrReqratePacerCheck_eq_true (hrate : 0 < rate) :
    cltMgrReqratePacerCheck rate p = true ↔ p.requestCountCur < p.requestCountTarget := by
  have hnot : ¬ rate < 0 := by omega
  simp [cltMgrReqratePacerCheck, hnot]

theorem pacerInc_eq (hfits : IsInt32 (rate * 1000)) (hrate : 0 < rate)
    (hp : PacerOk rate p) (hcheck : cltMgrReqratePacerCheck rate p = true) :
    cltMgrReqratePacerInc rate p =
      { p with requestCountCur := p.requestCountCur + 1 } := by
  have hlt := (cltMgrReqratePacerCheck_eq_true hrate).mp hcheck
  have hmax := (isInt32_iff.mp hfits).2
  obtain ⟨herror, herror', hcur, hcur', htarget⟩ := hp
  have hnext : IsInt32 (p.requestCountCur + 1) := by
    rw [isInt32_iff]
    omega
  have hnot : ¬ rate < 0 := by omega
  simp [cltMgrReqratePacerInc, hnot, int32_of_isInt32 hnext]

theorem PacerOk.inc (hfits : IsInt32 (rate * 1000)) (hrate : 0 < rate)
    (hp : PacerOk rate p) (hcheck : cltMgrReqratePacerCheck rate p = true) :
    PacerOk rate (cltMgrReqratePacerInc rate p) := by
  have hlt := (cltMgrReqratePacerCheck_eq_true hrate).mp hcheck
  rw [pacerInc_eq hfits hrate hp hcheck]
  refine ⟨hp.error_nonneg, hp.error_le, ?_, ?_, hp.target_le⟩
  · have hcur := hp.cur_nonneg
    dsimp only
    omega
  · dsimp only
    omega

end Update

/-! ## Steps -/

section Step

variable {rate : ℤ}

/-- What one event adds to the level. -/
def credit (rate : ℤ) (e : PacerEvent) : ℤ :=
  if e = .update then rate else 0

theorem credit_sum (rate : ℤ) (es : List PacerEvent) :
    (es.map (credit rate)).sum = rate * intervals es := by
  induction es with
  | nil => simp [intervals]
  | cons e es ih =>
      rw [List.map_cons, List.sum_cons, ih]
      cases e with
      | update =>
          simp only [credit, if_true, intervals, List.count_cons_self]
          push_cast
          rw [Int.mul_add]
          omega
      | attempt taken => simp [credit, intervals]

/-- Every event keeps the invariant, and adds to the level at most the share of
an interval if it begins one, less a unit for an admission. -/
theorem pacerStep_spec (hfits : IsInt32 (rate * 1000)) (hrate : 0 < rate) :
    ∀ p e p', PacerOk rate p → (pacerSystem rate).step e p = some p' →
      PacerOk rate p' ∧ p'.level ≤ p.level + (10 * credit rate e + (-1000) * admits rate e p) := by
  intro p e p' hp h
  cases e with
  | update =>
      cases h
      refine ⟨hp.update hfits hrate, ?_⟩
      rw [level_update hfits hrate hp]
      simp only [credit, if_true, admits]
      omega
  | attempt taken =>
      simp only [pacerSystem] at h
      simp only [admits, credit, reduceCtorEq, if_false]
      split at h
      · rename_i htaken
        cases h
        have hcheck : cltMgrReqratePacerCheck rate p = true := by
          rw [Bool.and_eq_true] at htaken
          exact htaken.1
        refine ⟨hp.inc hfits hrate hcheck, ?_⟩
        rw [if_pos htaken, pacerInc_eq hfits hrate hp hcheck]
        simp only [Pacer.level]
        omega
      · rename_i htaken
        cases h
        refine ⟨hp, ?_⟩
        rw [if_neg htaken]
        omega

theorem pacerOk_of_reachable (hfits : IsInt32 (rate * 1000)) (hrate : 0 < rate) {p : Pacer}
    (h : (pacerSystem rate).Reachable p) : PacerOk rate p := by
  refine (pacerSystem rate).invariant (PacerOk.zero hrate) ?_ p h
  intro p e p' hp hstep
  exact (pacerStep_spec hfits hrate p e p' hp hstep).1

end Step

/-! ## The pacer of a manager -/

section Manager

variable {rate : ℤ} {s s' : Ledger}

theorem reachable_paceInc (hlimits : s.limits.targetRequestRate = rate) (hpace : s.MayPace)
    (h : (pacerSystem rate).Reachable s.pacer) : (pacerSystem rate).Reachable s.paceInc := by
  subst hlimits
  have hcheck : cltMgrReqratePacerCheck s.limits.targetRequestRate s.pacer = true := hpace
  refine h.step (e := .attempt true) ?_
  simp [pacerSystem, hcheck, Ledger.paceInc]

theorem TryOpen.pacer_reachable (h : TryOpen s s')
    (hlimits : s.limits.targetRequestRate = rate)
    (hs : (pacerSystem rate).Reachable s.pacer) : (pacerSystem rate).Reachable s'.pacer := by
  cases h with
  | refused => exact hs
  | failed => exact hs
  | opened _ hpace => exact reachable_paceInc hlimits hpace hs

theorem Burst.pacer_reachable {k : ℕ} (h : Burst s k s')
    (hlimits : s.limits.targetRequestRate = rate)
    (hs : (pacerSystem rate).Reachable s.pacer) : (pacerSystem rate).Reachable s'.pacer := by
  induction h with
  | done => exact hs
  | failed => exact hs
  | opened _ hpace _ ih => exact ih hlimits (reachable_paceInc hlimits hpace hs)

theorem LedgerStep.pacer_reachable {e : LoopEvent} (h : LedgerStep e s s')
    (hrate : 0 < rate) (hlimits : s.limits.targetRequestRate = rate)
    (hs : (pacerSystem rate).Reachable s.pacer) : (pacerSystem rate).Reachable s'.pacer := by
  cases h with
  | completeNext _ _ _ _ hpace => exact reachable_paceInc hlimits hpace hs
  | @close _ _ pre post c _ _ _ o p _ _ _ hp htry =>
      have hclosed : (pacerSystem rate).Reachable (s.closeConn pre c post o p).pacer := by
        rcases hp with rfl | ⟨hpace, rfl⟩
        · exact hs
        · exact reachable_paceInc hlimits hpace hs
      exact htry.pacer_reachable hlimits hclosed
  | destroyOpen _ _ _ htry => exact htry.pacer_reachable hlimits hs
  | tickRunning _ _ _ hburst =>
      have hpaced : (pacerSystem rate).Reachable s.paced.pacer := by
        subst hlimits
        rw [s.paced_of_pos hrate]
        exact hs.step (e := .update) rfl
      have hlimits' : s.paced.limits.targetRequestRate = rate := by
        rw [s.paced_limits]
        exact hlimits
      have hend := hburst.pacer_reachable hlimits' hpaced
      obtain ⟨state, timers, htick⟩ := Ledger.tickEnd_rearm_eq _
      rw [htick]
      exact hend
  | _ => exact hs

/-- The pacer of a manager goes through states of the pacer only. -/
theorem pacer_reachable {cfg : MgrConfig} (hrate : 0 < cfg.targetRequestRate) {m : CltMgr}
    (h : (cltMgrSystem cfg).Reachable m) :
    (pacerSystem cfg.targetRequestRate).Reachable m.pacer := by
  refine ledger_invariant
    (P := fun s => (pacerSystem cfg.targetRequestRate).Reachable s.pacer) ?_ ?_ h
  · intro running
    exact System.Reachable.init _
  · intro e s s' _ hlimits hs hstep
    have hlimit : s.limits.targetRequestRate = cfg.targetRequestRate :=
      congrArg Limits.targetRequestRate hlimits
    exact hstep.pacer_reachable hrate hlimit hs

end Manager

/-! ## The upper bound -/

/-- The intervals of a window admit at most the share of the rate of as many
intervals and one more, wherever the window begins, and the state of the pacer
is always within its bounds. -/
theorem pacer_upper_bound {rate : ℤ} (hrate : 0 < rate) (hfits : IsInt32 (rate * 1000)) :
    (∀ p, (pacerSystem rate).Reachable p →
      0 ≤ p.requestRateError ∧ p.requestRateError ≤ 10 * rate ∧
        0 ≤ p.requestCountCur ∧ p.requestCountCur ≤ p.requestCountTarget ∧
        p.requestCountTarget ≤ 2 * (rate / 100)) ∧
      ∀ p, (pacerSystem rate).Reachable p → ∀ rest : List PacerEvent,
        100 * admissions rate (.update :: rest) p ≤
          (intervals (.update :: rest) + 1) * rate := by
  refine ⟨?_, ?_⟩
  · intro p hp
    obtain ⟨herror, herror', hcur, hcur', htarget⟩ := pacerOk_of_reachable hfits hrate hp
    refine ⟨herror, herror', hcur, hcur', ?_⟩
    omega
  · intro p hp rest
    have hok := pacerOk_of_reachable hfits hrate hp
    have hstart : (pacerSystem rate).step .update p =
        some (cltMgrReqratePacerUpdate rate p) := rfl
    obtain ⟨p', hrest⟩ := pacerSystem_total rate rest (cltMgrReqratePacerUpdate rate p)
    obtain ⟨hok', hlevel'⟩ := System.potential_le (pacerStep_spec hfits hrate)
      (hok.update hfits hrate) hrest
    have hfirst : (cltMgrReqratePacerUpdate rate p).level ≤ 10 * rate := by
      rw [level_update hfits hrate hok]
      exact min_le_right _ _
    have hlast := hok'.level_ge
    have hcredit := System.sumFrom_event (w := credit rate) hrest
    rw [System.sumFrom_linear, hcredit, credit_sum] at hlevel'
    have hadmitted : admissions rate (.update :: rest) p =
        (pacerSystem rate).sumFrom (admits rate) rest (cltMgrReqratePacerUpdate rate p) := by
      rw [admissions, System.sumFrom_cons hstart, admits, Int.zero_add]
    have hcount : (intervals (.update :: rest) : ℤ) = intervals rest + 1 := by
      simp [intervals]
    have hshare : ((intervals (.update :: rest) : ℤ) + 1) * rate =
        rate * intervals rest + 2 * rate := by
      rw [hcount]
      rw [Int.add_mul, Int.add_mul, Int.mul_comm]
      omega
    rw [hadmitted, hshare]
    omega

/-- At 150 requests per second the first interval admits two of three attempts, and one
interval admits at most three. -/
theorem pacer_upper_bound_one_interval :
    admissions 150 [.update, .attempt true, .attempt true, .attempt true] Pacer.zero = 2 ∧
      100 * admissions 150 [.update, .attempt true, .attempt true, .attempt true] Pacer.zero ≤
        (intervals [.update, .attempt true, .attempt true, .attempt true] + 1) * 150 :=
  ⟨by decide, (pacer_upper_bound (by decide) (by decide)).2 Pacer.zero (System.Reachable.init _) _⟩

/-! ## The lower bound -/

/-- An interval ends when the pacer refuses another attempt. -/
def AttemptsExhausted (rate : ℤ) (_ : List PacerEvent) (e : PacerEvent) (p : Pacer) : Prop :=
  e = .update → cltMgrReqratePacerCheck rate p = false

theorem exhausted_attempt (rate : ℤ) (taken : Bool) {es : List PacerEvent}
    (h : (pacerSystem rate).Guarded (AttemptsExhausted rate) es) :
    (pacerSystem rate).Guarded (AttemptsExhausted rate) (es ++ [.attempt taken]) := by
  apply h.concat
  intro p _ hupdate
  cases hupdate

theorem exhausted_update (rate : ℤ) {es : List PacerEvent} {p : Pacer}
    (h : (pacerSystem rate).Guarded (AttemptsExhausted rate) es)
    (hrun : (pacerSystem rate).run es = some p)
    (hend : cltMgrReqratePacerCheck rate p = false) :
    (pacerSystem rate).Guarded (AttemptsExhausted rate) (es ++ [.update]) := by
  apply h.concat
  intro q hq _
  obtain rfl : p = q := Option.some.inj (hrun.symm.trans hq)
  exact hend

/-- At less than one request per interval the error never reaches a whole
request, so the pacer has no target. -/
theorem pacerUpdate_of_low_rate {rate : ℤ} (hrate : 0 ≤ rate) (hlow : rate < 100) (p : Pacer) :
    (cltMgrReqratePacerUpdate rate p).requestCountCur = 0 ∧
      (cltMgrReqratePacerUpdate rate p).requestCountTarget = 0 := by
  have hfits : IsInt32 (rate * 1000) := by
    rw [isInt32_iff]
    omega
  have hshare : pacerShare rate = 10 * rate := by
    rw [pacerShare, reqrateFixedMult, reqrateInt, int32_of_isInt32 hfits,
      Int.tdiv_eq_ediv_of_nonneg (by omega)]
    omega
  have hneg : IsInt32 (-(10 * rate)) := by
    rw [isInt32_iff]
    omega
  have hclamp : ∀ err, -1000 < pacerClamp (10 * rate) err ∧ pacerClamp (10 * rate) err < 1000 := by
    intro err
    simp only [pacerClamp, int32_of_isInt32 hneg]
    split
    · omega
    · split
      · omega
      · omega
  have hnone : ∀ err : ℤ, -1000 < err → err < 1000 → err.tdiv 1000 = 0 := by
    intro err hlo hhi
    have hbounds := tdiv_bounds (a := err) (n := 1000) (k := 0) (by decide) le_rfl
      (by omega) (by omega)
    omega
  refine ⟨rfl, ?_⟩
  simp only [cltMgrReqratePacerUpdate, hshare, reqrateInt, reqrateFixedMult]
  rw [hnone _ (hclamp _).1 (hclamp _).2, Int.tdiv_eq_zero_of_lt hrate hlow]
  rfl

/-- A pacer for less than one request per interval admits nothing. -/
theorem admissions_of_low_rate {rate : ℤ} (hrate : 0 < rate) (hlow : rate < 100)
    {es : List PacerEvent} {p : Pacer} (h : (pacerSystem rate).run es = some p) :
    admissions rate es Pacer.zero = 0 := by
  have hrest : (p.requestCountCur = 0 ∧ p.requestCountTarget = 0) ∧
      admissions rate es Pacer.zero = 0 := by
    refine (pacerSystem rate).run_induction
      (P := fun es p => (p.requestCountCur = 0 ∧ p.requestCountTarget = 0) ∧
        admissions rate es Pacer.zero = 0) ⟨⟨rfl, rfl⟩, rfl⟩ ?_ es p h
    rintro es e p p' hrun ⟨⟨hcur, htarget⟩, hnone⟩ hstep
    have hrefused : cltMgrReqratePacerCheck rate p = false := by
      rw [← Bool.not_eq_true, cltMgrReqratePacerCheck_eq_true hrate]
      omega
    have hmore : admissions rate (es ++ [e]) Pacer.zero =
        admissions rate es Pacer.zero + admits rate e p := System.sumFrom_concat hrun
    cases e with
    | update =>
        cases hstep
        refine ⟨pacerUpdate_of_low_rate hrate.le hlow p, ?_⟩
        rw [hmore, hnone]
        rfl
    | attempt taken =>
        simp only [pacerSystem, hrefused, Bool.false_and, Bool.false_eq_true, if_false] at hstep
        cases hstep
        refine ⟨⟨hcur, htarget⟩, ?_⟩
        rw [hmore, hnone]
        simp [admits, hrefused]
  exact hrest.2

/-- The state of the pacer when every interval so far was exhausted: the level
accounts for all that was credited and admitted. -/
structure Exhausting (rate : ℤ) (es : List PacerEvent) (p : Pacer) : Prop where
  ok : PacerOk rate p
  target : p = Pacer.zero ∨ p.requestCountTarget = rate / 100 + p.requestRateError / 1000
  level : p.level = 10 * (rate * intervals es) - 1000 * admissions rate es Pacer.zero

/-- An exhausted pacer for a whole request per interval or more is not ahead of
its rate, so that no credit is lost at the next update. -/
theorem Exhausting.level_le {rate : ℤ} {es : List PacerEvent} {p : Pacer}
    (h : Exhausting rate es p) (hrate : 100 ≤ rate)
    (hcheck : cltMgrReqratePacerCheck rate p = false) : p.level ≤ 0 := by
  rcases h.target with rfl | htarget
  · exact le_refl 0
  · rw [← Bool.not_eq_true, cltMgrReqratePacerCheck_eq_true (by omega)] at hcheck
    have hcur := h.ok.cur_le
    simp only [Pacer.level]
    omega

theorem exhausting_of_guarded {rate : ℤ} (hrate : 100 ≤ rate)
    (hfits : IsInt32 (rate * 1000)) {es : List PacerEvent} {p : Pacer}
    (hguard : (pacerSystem rate).Guarded (AttemptsExhausted rate) es)
    (h : (pacerSystem rate).run es = some p) : Exhausting rate es p := by
  have hpos : 0 < rate := by omega
  refine (pacerSystem rate).guarded_induction ?_ ?_ es p hguard h
  · exact ⟨PacerOk.zero hpos, Or.inl rfl, by simp [pacerSystem, Pacer.level, Pacer.zero,
      intervals, admissions, System.sumFrom]⟩
  · intro es e p p' hrun hG hp hstep
    obtain ⟨hok', -⟩ := pacerStep_spec hfits hpos p e p' hp.ok hstep
    have hlevel := hp.level
    have hmore : admissions rate (es ++ [e]) Pacer.zero =
        admissions rate es Pacer.zero + admits rate e p := System.sumFrom_concat hrun
    cases e with
    | update =>
        cases hstep
        have hbehind := hp.level_le hrate (hG rfl)
        have hcount : (intervals (es ++ [.update]) : ℤ) = intervals es + 1 := by
          simp [intervals]
        refine ⟨hok', Or.inr (by rw [pacerUpdate_eq hfits hpos hp.ok]), ?_⟩
        rw [level_update hfits hpos hp.ok, hmore, hcount, Int.mul_add]
        simp only [admits]
        omega
    | attempt taken =>
        have hcount : intervals (es ++ [.attempt taken]) = intervals es := by
          simp [intervals]
        simp only [pacerSystem] at hstep
        split at hstep
        · rename_i htaken
          cases hstep
          have hcheck : cltMgrReqratePacerCheck rate p = true := by
            rw [Bool.and_eq_true] at htaken
            exact htaken.1
          have hinc := pacerInc_eq hfits hpos hp.ok hcheck
          refine ⟨hok', Or.inr ?_, ?_⟩
          · rw [hinc]
            rcases hp.target with rfl | htarget
            · have hlt := (cltMgrReqratePacerCheck_eq_true hpos).mp hcheck
              exact absurd hlt (lt_irrefl 0)
            · exact htarget
          · rw [hinc, hmore, hcount]
            simp only [admits, if_pos htaken]
            simp only [Pacer.level] at hlevel ⊢
            omega
        · rename_i htaken
          cases hstep
          refine ⟨hok', hp.target, ?_⟩
          rw [hmore, hcount]
          simp only [admits, if_neg htaken]
          omega

theorem exists_exhausted_interval {rate : ℤ} (hrate : 0 < rate)
    (hfits : IsInt32 (rate * 1000)) (k : ℕ) :
    ∀ {es : List PacerEvent} {p : Pacer},
      (pacerSystem rate).Guarded (AttemptsExhausted rate) es →
      (pacerSystem rate).run es = some p → p.requestCountTarget - p.requestCountCur ≤ k →
      ∃ es' p', (pacerSystem rate).Guarded (AttemptsExhausted rate) es' ∧
        (pacerSystem rate).run es' = some p' ∧ cltMgrReqratePacerCheck rate p' = false ∧
        intervals es' = intervals es := by
  induction k with
  | zero =>
      intro es p hguard hrun hroom
      refine ⟨es, p, hguard, hrun, ?_, rfl⟩
      rw [← Bool.not_eq_true, cltMgrReqratePacerCheck_eq_true hrate]
      omega
  | succ k ih =>
      intro es p hguard hrun hroom
      by_cases hcheck : cltMgrReqratePacerCheck rate p = true
      · have hok := pacerOk_of_reachable hfits hrate ⟨es, hrun⟩
        have hinc := pacerInc_eq hfits hrate hok hcheck
        have hrun' : (pacerSystem rate).run (es ++ [.attempt true]) =
            some (cltMgrReqratePacerInc rate p) := by
          refine System.run_concat_eq_some _ |>.mpr ⟨p, hrun, ?_⟩
          simp [pacerSystem, hcheck]
        have hguard' := exhausted_attempt rate true hguard
        obtain ⟨es', p', hguard'', hrun'', hend, hcount⟩ := ih hguard' hrun' (by
          rw [hinc]
          push_cast at hroom
          dsimp only
          omega)
        refine ⟨es', p', hguard'', hrun'', hend, ?_⟩
        rw [hcount]
        simp [intervals]
      · exact ⟨es, p, hguard, hrun, by simpa using hcheck, rfl⟩

/-- There is a run of any number of exhausted intervals. -/
theorem exists_exhausted_run {rate : ℤ} (hrate : 0 < rate) (hfits : IsInt32 (rate * 1000))
    (n : ℕ) :
    ∃ es p, (pacerSystem rate).Guarded (AttemptsExhausted rate) es ∧
      (pacerSystem rate).run es = some p ∧ cltMgrReqratePacerCheck rate p = false ∧
      intervals es = n := by
  induction n with
  | zero =>
      refine ⟨[], Pacer.zero, System.guarded_nil _ _, rfl, ?_, rfl⟩
      rw [← Bool.not_eq_true, cltMgrReqratePacerCheck_eq_true hrate]
      exact lt_irrefl 0
  | succ n ih =>
      obtain ⟨es, p, hguard, hrun, hend, hcount⟩ := ih
      have hrun' : (pacerSystem rate).run (es ++ [.update]) =
          some (cltMgrReqratePacerUpdate rate p) :=
        System.run_concat_eq_some _ |>.mpr ⟨p, hrun, rfl⟩
      have hguard' := exhausted_update rate hguard hrun hend
      obtain ⟨es', p', hguard'', hrun'', hend'', hcount'⟩ := exists_exhausted_interval hrate hfits
        (cltMgrReqratePacerUpdate rate p).requestCountTarget.toNat hguard' hrun' (by
          have hzero : (cltMgrReqratePacerUpdate rate p).requestCountCur = 0 := rfl
          omega)
      refine ⟨es', p', hguard'', hrun'', hend'', ?_⟩
      rw [hcount', ← hcount]
      simp [intervals]

/-- Saturated demand is possible for any number of intervals.  Under it the pacer keeps
up with its rate, but for two requests, exactly for the rates of one request per
interval or more, and for as long as the lower rates ask for two requests at most. -/
theorem pacer_reaches_target_iff {rate : ℤ} (hrate : 0 < rate)
    (hfits : IsInt32 (rate * 1000)) :
    (∀ n, ∃ es p, (pacerSystem rate).Guarded (AttemptsExhausted rate) es ∧
      (pacerSystem rate).run es = some p ∧ cltMgrReqratePacerCheck rate p = false ∧
      intervals es = n) ∧
    ∀ es p, (pacerSystem rate).Guarded (AttemptsExhausted rate) es →
      (pacerSystem rate).run es = some p → cltMgrReqratePacerCheck rate p = false →
      (rate * intervals es - 200 ≤ 100 * admissions rate es Pacer.zero ↔
        100 ≤ rate ∨ rate * intervals es ≤ 200) := by
  refine ⟨exists_exhausted_run hrate hfits, fun es p hguard h hend => ?_⟩
  rcases Int.lt_or_le rate 100 with hlow | hhigh
  · rw [admissions_of_low_rate hrate hlow h]
    omega
  · have hp := exhausting_of_guarded hhigh hfits hguard h
    have hlevel := hp.level
    have hbehind := hp.level_le hhigh hend
    constructor
    · intro _
      exact Or.inl hhigh
    · intro _
      omega

/-- Two intervals at 150 requests per second admit four requests. -/
theorem pacer_reaches_target_two_intervals :
    ∃ p, (pacerSystem 150).run [.update, .attempt true, .attempt true, .update,
        .attempt true, .attempt true] = some p ∧
      150 * 2 - 200 ≤ 100 * admissions 150 [.update, .attempt true, .attempt true, .update,
        .attempt true, .attempt true] Pacer.zero := by
  have hinit := System.guarded_nil (pacerSystem 150) (AttemptsExhausted 150)
  have hfirst := exhausted_attempt 150 true (exhausted_attempt 150 true
    (exhausted_update 150 hinit rfl (by decide)))
  have hguard := exhausted_attempt 150 true (exhausted_attempt 150 true
    (exhausted_update 150 hfirst rfl (by decide)))
  exact ⟨_, rfl, ((pacer_reaches_target_iff (by decide) (by decide)).2 _ _ hguard rfl
    (by decide)).mpr (Or.inl (by decide))⟩

/-- At 99 requests per second the attempts of three intervals are all refused. -/
theorem pacer_misses_low_rate :
    ∃ p, (pacerSystem 99).Guarded (AttemptsExhausted 99)
        [.update, .attempt true, .update, .attempt true, .update, .attempt true] ∧
      (pacerSystem 99).run
        [.update, .attempt true, .update, .attempt true, .update, .attempt true] = some p ∧
      cltMgrReqratePacerCheck 99 p = false ∧
      ¬ (99 * intervals
          [.update, .attempt true, .update, .attempt true, .update, .attempt true] - 200 ≤
        100 * admissions 99
          [.update, .attempt true, .update, .attempt true, .update, .attempt true]
          Pacer.zero) := by
  have hinit := System.guarded_nil (pacerSystem 99) (AttemptsExhausted 99)
  have hfirst := exhausted_attempt 99 true (exhausted_update 99 hinit rfl (by decide))
  have hsecond := exhausted_attempt 99 true (exhausted_update 99 hfirst rfl (by decide))
  have hguard := exhausted_attempt 99 true (exhausted_update 99 hsecond rfl (by decide))
  exact ⟨_, hguard, rfl, by decide, by decide⟩

end EvhtpHttp.Client

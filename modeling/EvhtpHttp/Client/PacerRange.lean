import EvhtpHttp.Client.PacerBounds

/-!
# The range of the pacer's arithmetic

`clt_mgr_reqrate_pacer_update` computes in `int`.  Its invariant bounds every
value by the rate times `REQRATE_FIXED_MULT`, so nothing overflows as long as
that product does not; the product itself is computed without a check.
-/

namespace EvhtpHttp.Client

open EvhtpHttp.Support

/-- For a positive rate every value of every update, in every state the pacer
reaches, is an `int` if and only if the scaled rate is. -/
theorem pacer_values_fit_iff {rate : ℤ} (hrate : 0 < rate) :
    (∀ p, (pacerSystem rate).Reachable p → ∀ x ∈ pacerUpdateValues rate p, IsInt32 x) ↔
      rate * 1000 ≤ intMax := by
  constructor
  · intro hall
    have hscaled : rate * 1000 ∈ pacerUpdateValues rate Pacer.zero := by
      simp [pacerUpdateValues, reqrateFixedMult]
    exact (hall _ (System.Reachable.init _) _ hscaled).2
  · intro hmax p hp
    have hfits : IsInt32 (rate * 1000) := ⟨by omega, hmax⟩
    exact (pacerOk_of_reachable hfits hrate hp).values_fit hfits hrate

/-- The largest rate whose updates stay in range. -/
theorem pacer_values_fit_largest :
    (0 : ℤ) < 2147483 ∧
      ∀ p, (pacerSystem 2147483).Reachable p → ∀ x ∈ pacerUpdateValues 2147483 p, IsInt32 x :=
  ⟨by decide, (pacer_values_fit_iff (by decide)).mpr (by decide)⟩

/-- The next rate is an `int` as well, and the first update already overflows. -/
theorem pacer_values_overflow :
    0 < (2147484 : ℤ) ∧ IsInt32 2147484 ∧
      ∃ p, (pacerSystem 2147484).Reachable p ∧
        ∃ x ∈ pacerUpdateValues 2147484 p, ¬ IsInt32 x := by
  refine ⟨by decide, by decide, Pacer.zero, System.Reachable.init _, 2147484 * 1000, ?_, by decide⟩
  simp [pacerUpdateValues, reqrateFixedMult]

/-- In a manager whose scaled rate fits no update overflows. -/
theorem manager_pacer_values_fit {cfg : MgrConfig} (hrate : 0 < cfg.targetRequestRate)
    (hmax : cfg.targetRequestRate * 1000 ≤ intMax) {m : CltMgr}
    (h : (cltMgrSystem cfg).Reachable m) :
    ∀ x ∈ pacerUpdateValues cfg.targetRequestRate m.pacer, IsInt32 x := by
  have hfits : IsInt32 (cfg.targetRequestRate * 1000) := ⟨by omega, hmax⟩
  exact (pacerOk_of_reachable hfits hrate (pacer_reachable hrate h)).values_fit hfits hrate

end EvhtpHttp.Client

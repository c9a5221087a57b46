import EvhtpHttp.Client.Config
import Mathlib.Algebra.BigOperators.Fin

/-!
# The shares of the worker threads

`mgr_config_copy_thread` gives every thread the same share of the parameters it
divides.  Division truncates, so what the shares leave over is the remainder of
the parameter by the number of threads.
-/

namespace EvhtpHttp.Client

/-- The parameters that `mgr_config_copy_thread` divides. -/
inductive DividedParam
  | targetNconn
  | burstConn
  | targetRequestRate
  | targetGlobalRequestCount
  | targetTotalNconnCount
deriving Repr, DecidableEq

/-- The value of a divided parameter in a configuration. -/
def DividedParam.value : DividedParam → MgrConfig → ℤ
  | .targetNconn, cfg => cfg.targetNconn
  | .burstConn, cfg => cfg.burstConn
  | .targetRequestRate, cfg => cfg.targetRequestRate
  | .targetGlobalRequestCount, cfg => cfg.targetGlobalRequestCount
  | .targetTotalNconnCount, cfg => cfg.targetTotalNconnCount

/-- The values that the configurations of `n` threads give to a parameter, taken
together; thread `i` had the configuration `dst i` before. -/
def sharesTotal {n : ℕ} (srcCfg : MgrConfig) (dst : Fin n → MgrConfig)
    (p : DividedParam) : ℤ :=
  ∑ i, p.value (mgrConfigCopyThread srcCfg (dst i) n)

/-- The share of a positive parameter does not depend on which of the divided
parameters it is, nor on what the thread's configuration held before. -/
theorem value_mgrConfigCopyThread {srcCfg : MgrConfig} {p : DividedParam}
    (hpos : 0 < p.value srcCfg) (cfg : MgrConfig) {n : ℤ} (hn : 1 ≤ n) :
    p.value (mgrConfigCopyThread srcCfg cfg n) = (p.value srcCfg).tdiv n := by
  have hne : n ≠ 0 := by omega
  cases p with
  | targetNconn => simp [DividedParam.value, mgrConfigCopyThread, hne]
  | burstConn => simp [DividedParam.value, mgrConfigCopyThread, hne]
  | targetRequestRate =>
      have hrate : 0 < srcCfg.targetRequestRate := hpos
      simp [DividedParam.value, mgrConfigCopyThread, divvy, hne, hrate]
  | targetGlobalRequestCount =>
      have hglobal : 0 < srcCfg.targetGlobalRequestCount := hpos
      simp [DividedParam.value, mgrConfigCopyThread, divvy, hne, hglobal]
  | targetTotalNconnCount =>
      have htotal : 0 < srcCfg.targetTotalNconnCount := hpos
      simp [DividedParam.value, mgrConfigCopyThread, divvy, hne, htotal]

theorem sharesTotal_add_tmod {srcCfg : MgrConfig} {p : DividedParam}
    (hpos : 0 < p.value srcCfg) {n : ℕ} (hn : 1 ≤ n) (dst : Fin n → MgrConfig) :
    sharesTotal srcCfg dst p + (p.value srcCfg).tmod n = p.value srcCfg := by
  have hshare : ∀ i, p.value (mgrConfigCopyThread srcCfg (dst i) n) =
      (p.value srcCfg).tdiv n := fun i =>
    value_mgrConfigCopyThread hpos (dst i) (by exact_mod_cast hn)
  calc
    sharesTotal srcCfg dst p + (p.value srcCfg).tmod n =
        n * (p.value srcCfg).tdiv n + (p.value srcCfg).tmod n := by
      simp [sharesTotal, hshare]
    _ = p.value srcCfg := Int.mul_tdiv_add_tmod _ _

/-- The shares of `n` threads add up to a positive parameter exactly when `n`
divides it. -/
theorem sharesTotal_eq_iff_dvd {srcCfg : MgrConfig} {p : DividedParam}
    (hpos : 0 < p.value srcCfg) {n : ℕ} (hn : 1 ≤ n) (dst : Fin n → MgrConfig) :
    sharesTotal srcCfg dst p = p.value srcCfg ↔ (n : ℤ) ∣ p.value srcCfg := by
  have htotal := sharesTotal_add_tmod hpos hn dst
  rw [Int.dvd_iff_tmod_eq_zero]
  constructor
  · intro hall
    omega
  · intro hrest
    omega

/-- Two threads share the default of 128 connections in full. -/
theorem sharesTotal_default_two :
    sharesTotal (n := 2) oneHostConfig (fun _ => MgrConfig.zero) .targetNconn = 128 :=
  (sharesTotal_eq_iff_dvd (by decide) (by decide) _).mpr (by decide)

/-- Three threads together open 126 of the default 128 connections. -/
theorem sharesTotal_default_three :
    0 < DividedParam.targetNconn.value oneHostConfig ∧
      sharesTotal (n := 3) oneHostConfig (fun _ => MgrConfig.zero) .targetNconn ≠
        DividedParam.targetNconn.value oneHostConfig := by
  decide

end EvhtpHttp.Client

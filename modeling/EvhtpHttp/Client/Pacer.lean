import EvhtpHttp.Support.MachineInt

/-!
# The request rate pacer

The three fields of `struct clt_mgr` that pace requests and the functions of
`src/clt/mgr.c` that use them.  The rate is `cfg.target_request_rate`; the
arithmetic is that of `int`.
-/

namespace EvhtpHttp.Client

open EvhtpHttp.Support

/-- `REQRATE_INT`: the number of intervals in a second. -/
def reqrateInt : ℤ := 100

/-- `REQRATE_FIXED_MULT`: the unit of the error term. -/
def reqrateFixedMult : ℤ := 1000

/-- The pacing fields of `struct clt_mgr`. -/
structure Pacer where
  requestRateError : ℤ
  requestCountCur : ℤ
  requestCountTarget : ℤ
deriving Repr, DecidableEq

/-- The pacer of a manager allocated by `calloc`. -/
def Pacer.zero : Pacer where
  requestRateError := 0
  requestCountCur := 0
  requestCountTarget := 0

/-- The error accrued per interval, `t` in `clt_mgr_reqrate_pacer_update`, which
is also the bound the error is clamped to. -/
def pacerShare (rate : ℤ) : ℤ :=
  (int32 (rate * reqrateFixedMult)).tdiv reqrateInt

/-- The clamp of `clt_mgr_reqrate_pacer_update`. -/
def pacerClamp (t err : ℤ) : ℤ :=
  if err > t then t
  else if err < int32 (-t) then int32 (-t)
  else err

def cltMgrReqratePacerUpdate (rate : ℤ) (p : Pacer) : Pacer :=
  let err := int32 (p.requestRateError - int32 (p.requestCountCur * reqrateFixedMult))
  let err := int32 (err + pacerShare rate)
  let err := pacerClamp (pacerShare rate) err
  { requestRateError := err
    requestCountTarget :=
      int32 (rate.tdiv reqrateInt + err.tdiv reqrateFixedMult)
    requestCountCur := 0 }

def cltMgrReqratePacerCheck (rate : ℤ) (p : Pacer) : Bool :=
  if rate < 0 then true
  else decide (p.requestCountCur < p.requestCountTarget)

def cltMgrReqratePacerInc (rate : ℤ) (p : Pacer) : Pacer :=
  if rate < 0 then p
  else { p with requestCountCur := int32 (p.requestCountCur + 1) }

end EvhtpHttp.Client

import Mathlib.Data.Int.Basic

/-!
# Client configuration

`struct mgr_config` of the test client, the array of destination addresses and
the division of one configuration among the worker threads
(`src/clt/mgr_config.c`, defaults from `src/clt/main.c`).

A `char *` is an `Option String`, with `none` for `NULL`; `strdup` of a string
is the string.  The entries of the address array in use are a list, so the
count `n` of the source is its length.
-/

namespace EvhtpHttp.Client

def cfgIpv4ArrayMax : ℕ := 16

/-- `struct cfg_ipv4_array`: the addresses in use and the read cursor. -/
structure CfgIpv4Array where
  ipv4 : List String
  cur : ℕ
deriving Repr, DecidableEq

/-- An array zeroed by `bzero` or `calloc`. -/
def CfgIpv4Array.zero : CfgIpv4Array where
  ipv4 := []
  cur := 0

def cfgIpv4ArrayNentries (r : CfgIpv4Array) : ℕ :=
  r.ipv4.length

/-- `cfg_ipv4_array_add`: the array and the return code, `-1` when it is full. -/
def cfgIpv4ArrayAdd (a : CfgIpv4Array) (addr : String) : CfgIpv4Array × ℤ :=
  if a.ipv4.length ≥ cfgIpv4ArrayMax then (a, -1)
  else ({ a with ipv4 := a.ipv4 ++ [addr] }, 0)

/-- `cfg_ipv4_array_dup`: the addresses and their count are copied, the cursor
of the destination is not touched. -/
def cfgIpv4ArrayDup (dst src : CfgIpv4Array) : CfgIpv4Array :=
  { dst with ipv4 := src.ipv4 }

/-- `cfg_ipv4_array_get_next`: the address under the cursor and the array with
the cursor moved on.  With no entry the remainder by `n` traps. -/
def cfgIpv4ArrayGetNext (r : CfgIpv4Array) : Option (String × CfgIpv4Array) :=
  match r.ipv4[r.cur]? with
  | none => none
  | some c => some (c, { r with cur := (r.cur + 1) % r.ipv4.length })

theorem cfgIpv4ArrayGetNext_eq_some {r r' : CfgIpv4Array} {addr : String} :
    cfgIpv4ArrayGetNext r = some (addr, r') ↔
      r.ipv4[r.cur]? = some addr ∧ r' = { r with cur := (r.cur + 1) % r.ipv4.length } := by
  unfold cfgIpv4ArrayGetNext
  split
  · rename_i hnone
    simp [hnone]
  · rename_i c hsome
    simp [hsome, eq_comm]

theorem cfgIpv4ArrayGetNext_of_lt {r : CfgIpv4Array} (h : r.cur < r.ipv4.length) :
    ∃ addr r', cfgIpv4ArrayGetNext r = some (addr, r') ∧ r'.cur < r'.ipv4.length := by
  have hpos : 0 < r.ipv4.length := Nat.zero_lt_of_lt h
  refine ⟨r.ipv4[r.cur], { r with cur := (r.cur + 1) % r.ipv4.length }, ?_,
    Nat.mod_lt _ hpos⟩
  exact cfgIpv4ArrayGetNext_eq_some.mpr ⟨List.getElem?_eq_getElem h, rfl⟩

/-- `struct mgr_config`. -/
structure MgrConfig where
  numThreads : ℤ
  burstConn : ℤ
  targetNconn : ℤ
  targetRequestRate : ℤ
  targetRequestCount : ℤ
  targetGlobalRequestCount : ℤ
  targetTotalNconnCount : ℤ
  runningPeriodSec : ℤ
  waitingPeriodSec : ℤ
  ipv4Dst : CfgIpv4Array
  hostHdr : Option String
  port : ℤ
  uri : Option String
  waitTimePreHttpReqMsec : ℤ
  httpKeepalive : ℤ
deriving Repr, DecidableEq

/-- A configuration zeroed by `bzero` or `calloc`. -/
def MgrConfig.zero : MgrConfig where
  numThreads := 0
  burstConn := 0
  targetNconn := 0
  targetRequestRate := 0
  targetRequestCount := 0
  targetGlobalRequestCount := 0
  targetTotalNconnCount := 0
  runningPeriodSec := 0
  waitingPeriodSec := 0
  ipv4Dst := CfgIpv4Array.zero
  hostHdr := none
  port := 0
  uri := none
  waitTimePreHttpReqMsec := 0
  httpKeepalive := 0

def mgrConfigDefaults (cfg : MgrConfig) : MgrConfig :=
  { cfg with
    hostHdr := none
    port := -1
    uri := none
    numThreads := 1
    targetRequestRate := -1
    targetNconn := 128
    burstConn := 1
    targetRequestCount := -1
    waitTimePreHttpReqMsec := 1
    targetTotalNconnCount := -1
    targetGlobalRequestCount := -1
    httpKeepalive := 1
    runningPeriodSec := 30
    waitingPeriodSec := 30 }

/-- The share of one thread of a limit for which only a positive value is a
limit: a positive value is divided, any other value is kept. -/
def divvy (value nthreads : ℤ) : ℤ :=
  if value > 0 then value.tdiv nthreads else value

/-- `mgr_config_copy_thread`: the configuration of one of `nthreads` threads.
Division truncates, as in C. -/
def mgrConfigCopyThread (srcCfg cfg : MgrConfig) (nthreads : ℤ) : MgrConfig :=
  let nthreads := if nthreads = 0 then 1 else nthreads
  { cfg with
    numThreads := srcCfg.numThreads
    burstConn := srcCfg.burstConn.tdiv nthreads
    targetNconn := srcCfg.targetNconn.tdiv nthreads
    targetRequestCount := srcCfg.targetRequestCount
    targetRequestRate := divvy srcCfg.targetRequestRate nthreads
    targetGlobalRequestCount := divvy srcCfg.targetGlobalRequestCount nthreads
    targetTotalNconnCount := divvy srcCfg.targetTotalNconnCount nthreads
    runningPeriodSec := srcCfg.runningPeriodSec
    waitingPeriodSec := srcCfg.waitingPeriodSec
    ipv4Dst := cfgIpv4ArrayDup cfg.ipv4Dst srcCfg.ipv4Dst
    hostHdr := srcCfg.hostHdr.or cfg.hostHdr
    port := srcCfg.port
    uri := srcCfg.uri
    waitTimePreHttpReqMsec := srcCfg.waitTimePreHttpReqMsec
    httpKeepalive := srcCfg.httpKeepalive }

/-- The defaults with one destination, a port and a path. -/
def oneHostConfig : MgrConfig :=
  { mgrConfigDefaults MgrConfig.zero with
    ipv4Dst := ⟨["10.0.0.1"], 0⟩
    uri := some "/"
    port := 8080 }

end EvhtpHttp.Client

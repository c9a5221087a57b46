import EvhtpHttp.Support.MachineInt

/-!
# Client statistics

`struct mgr_stats` and its three operations (`src/clt/mgr_stats.c`).  The
`uint64_t` counters of one manager are unbounded naturals, since no run takes
`2^64` events; the sums and differences of two records are computed in the
arithmetic of the field's type, because a difference taken the wrong way round
would be a wrapped value.
-/

namespace EvhtpHttp.Client

open EvhtpHttp.Support

/-- `struct mgr_stats`. -/
structure MgrStats where
  nconn : ℤ
  nconnCreateFailed : ℕ
  connCount : ℕ
  connClosingCount : ℕ
  reqCount : ℕ
  reqCountOk : ℕ
  reqCountErr : ℕ
  reqCountCreateErr : ℕ
  reqCountTimeout : ℕ
  reqStatustype200 : ℕ
  reqStatustype302 : ℕ
  reqStatustypeOther : ℕ
deriving Repr, DecidableEq

/-- Statistics zeroed by `bzero` or `calloc`. -/
def MgrStats.zero : MgrStats where
  nconn := 0
  nconnCreateFailed := 0
  connCount := 0
  connClosingCount := 0
  reqCount := 0
  reqCountOk := 0
  reqCountErr := 0
  reqCountCreateErr := 0
  reqCountTimeout := 0
  reqStatustype200 := 0
  reqStatustype302 := 0
  reqStatustypeOther := 0

/-- `mgr_stats_copy`: the new value of `*dst`. -/
def mgrStatsCopy (src _dst : MgrStats) : MgrStats :=
  src

/-- `mgr_stats_diff`: the new value of `*res`. -/
def mgrStatsDiff (sfrom sto : MgrStats) : MgrStats where
  nconn := int32 (sto.nconn - sfrom.nconn)
  nconnCreateFailed := uint64Sub sto.nconnCreateFailed sfrom.nconnCreateFailed
  connCount := uint64Sub sto.connCount sfrom.connCount
  connClosingCount := uint64Sub sto.connClosingCount sfrom.connClosingCount
  reqCount := uint64Sub sto.reqCount sfrom.reqCount
  reqCountOk := uint64Sub sto.reqCountOk sfrom.reqCountOk
  reqCountErr := uint64Sub sto.reqCountErr sfrom.reqCountErr
  reqCountCreateErr := uint64Sub sto.reqCountCreateErr sfrom.reqCountCreateErr
  reqCountTimeout := uint64Sub sto.reqCountTimeout sfrom.reqCountTimeout
  reqStatustype200 := uint64Sub sto.reqStatustype200 sfrom.reqStatustype200
  reqStatustype302 := uint64Sub sto.reqStatustype302 sfrom.reqStatustype302
  reqStatustypeOther := uint64Sub sto.reqStatustypeOther sfrom.reqStatustypeOther

/-- `mgr_stats_add`: the new value of `*sto`. -/
def mgrStatsAdd (sfrom sto : MgrStats) : MgrStats where
  nconn := int32 (sto.nconn + sfrom.nconn)
  nconnCreateFailed := uint64 (sto.nconnCreateFailed + sfrom.nconnCreateFailed)
  connCount := uint64 (sto.connCount + sfrom.connCount)
  connClosingCount := uint64 (sto.connClosingCount + sfrom.connClosingCount)
  reqCount := uint64 (sto.reqCount + sfrom.reqCount)
  reqCountOk := uint64 (sto.reqCountOk + sfrom.reqCountOk)
  reqCountErr := uint64 (sto.reqCountErr + sfrom.reqCountErr)
  reqCountCreateErr := uint64 (sto.reqCountCreateErr + sfrom.reqCountCreateErr)
  reqCountTimeout := uint64 (sto.reqCountTimeout + sfrom.reqCountTimeout)
  reqStatustype200 := uint64 (sto.reqStatustype200 + sfrom.reqStatustype200)
  reqStatustype302 := uint64 (sto.reqStatustype302 + sfrom.reqStatustype302)
  reqStatustypeOther := uint64 (sto.reqStatustypeOther + sfrom.reqStatustypeOther)

def mgrStatustypeUpdate (stats : MgrStats) (status : ℤ) : MgrStats :=
  if status = 200 then
    { stats with reqStatustype200 := stats.reqStatustype200 + 1 }
  else if status = 302 then
    { stats with reqStatustype302 := stats.reqStatustype302 + 1 }
  else
    { stats with reqStatustypeOther := stats.reqStatustypeOther + 1 }

/-! ## Fields -/

/-- The fields of `struct mgr_stats`. -/
inductive StatsField
  | nconn
  | nconnCreateFailed
  | connCount
  | connClosingCount
  | reqCount
  | reqCountOk
  | reqCountErr
  | reqCountCreateErr
  | reqCountTimeout
  | reqStatustype200
  | reqStatustype302
  | reqStatustypeOther
deriving Repr, DecidableEq

/-- The value of a field. -/
def MgrStats.field (f : StatsField) (s : MgrStats) : ℤ :=
  match f with
  | .nconn => s.nconn
  | .nconnCreateFailed => s.nconnCreateFailed
  | .connCount => s.connCount
  | .connClosingCount => s.connClosingCount
  | .reqCount => s.reqCount
  | .reqCountOk => s.reqCountOk
  | .reqCountErr => s.reqCountErr
  | .reqCountCreateErr => s.reqCountCreateErr
  | .reqCountTimeout => s.reqCountTimeout
  | .reqStatustype200 => s.reqStatustype200
  | .reqStatustype302 => s.reqStatustype302
  | .reqStatustypeOther => s.reqStatustypeOther

theorem field_zero (f : StatsField) : MgrStats.zero.field f = 0 := by
  cases f <;> rfl

/-- What the field's type makes of a sum whose exact value is `x`. -/
def StatsField.wrap (f : StatsField) (x : ℤ) : ℤ :=
  if f = .nconn then int32 x else x % 2 ^ 64

theorem field_add (s acc : MgrStats) (f : StatsField) :
    (mgrStatsAdd s acc).field f = f.wrap (acc.field f + s.field f) := by
  cases f with
  | nconn => rfl
  | _ => simp [mgrStatsAdd, MgrStats.field, StatsField.wrap, uint64]

theorem wrap_zero (f : StatsField) : f.wrap 0 = 0 := by
  cases f <;> decide

theorem wrap_add (f : StatsField) (x y : ℤ) : f.wrap (f.wrap x + y) = f.wrap (x + y) := by
  unfold StatsField.wrap
  split
  · exact Int.bmod_add_bmod
  · exact Int.emod_add_emod x _ y

end EvhtpHttp.Client

import EvhtpHttp.Client.Stats
import EvhtpHttp.Support.Decimal

/-!
# The lines of the report

What `clt_mgr_stats_print` (`src/clt/main.c`) prints: the time, a prefix and the
counters of a `struct mgr_stats`, all but `req_count_create_err`.  A line can be
read again, whatever the prefix is.
-/

namespace EvhtpHttp.Client

open EvhtpHttp.Support

/-- `struct timeval`. -/
structure Timeval where
  tvSec : ℤ
  tvUsec : ℤ
deriving Repr, DecidableEq

/-- A conversion `%lld`. -/
def lld (x : ℤ) : String :=
  String.ofList (signedDecimal x)

/-- A conversion `%llu`. -/
def llu (n : ℕ) : String :=
  String.ofList (decimal n)

/-- A conversion `%06lld`. -/
def lld06 (x : ℤ) : String :=
  String.ofList (paddedDecimal 6 x)

/-- `clt_mgr_stats_print`: the text of its two calls of `printf`. -/
def cltMgrStatsPrint (tv : Timeval) (label : String) (stats : MgrStats) : String :=
  "[" ++ lld tv.tvSec ++ "." ++ lld06 tv.tvUsec ++ "]: " ++ label ++
    ": nconn=" ++ lld stats.nconn ++
    ", conn_count=" ++ llu stats.connCount ++
    ", conn_create_failed=" ++ llu stats.nconnCreateFailed ++
    ", conn closing=" ++ llu stats.connClosingCount ++
    ", req_count=" ++ llu stats.reqCount ++
    ", ok=" ++ llu stats.reqCountOk ++
    ", err=" ++ llu stats.reqCountErr ++
    ", timeout=" ++ llu stats.reqCountTimeout ++ ", " ++
    "200_OK: " ++ llu stats.reqStatustype200 ++
    ", 302: " ++ llu stats.reqStatustype302 ++
    ", Other: " ++ llu stats.reqStatustypeOther ++ "\n"

/-- The counters of a line, each with the text before it. -/
def statsFields (stats : MgrStats) : List (List Char × ℤ) :=
  [(": nconn=".toList, stats.nconn),
    (", conn_count=".toList, stats.connCount),
    (", conn_create_failed=".toList, stats.nconnCreateFailed),
    (", conn closing=".toList, stats.connClosingCount),
    (", req_count=".toList, stats.reqCount),
    (", ok=".toList, stats.reqCountOk),
    (", err=".toList, stats.reqCountErr),
    (", timeout=".toList, stats.reqCountTimeout),
    (", ".toList ++ "200_OK: ".toList, stats.reqStatustype200),
    (", 302: ".toList, stats.reqStatustype302),
    (", Other: ".toList, stats.reqStatustypeOther)]

/-- The time and the prefix of a line. -/
def lineHead (tv : Timeval) (label : String) : List Char :=
  "[".toList ++ (signedDecimal tv.tvSec ++
    (".".toList ++ (paddedDecimal 6 tv.tvUsec ++ ("]: ".toList ++ label.toList))))

example : lineHead ⟨1700000000, 42⟩ "run_total" = "[1700000000.000042]: run_total".toList := by
  decide

theorem toList_cltMgrStatsPrint (tv : Timeval) (label : String) (stats : MgrStats) :
    (cltMgrStatsPrint tv label stats).toList =
      lineHead tv label ++ fieldsText (statsFields stats) ++ "\n".toList := by
  unfold cltMgrStatsPrint lineHead statsFields
  simp only [String.toList_append, lld, llu, lld06, String.toList_ofList]
  simp only [fieldsText, signedDecimal_natCast, List.append_assoc, List.append_nil]

/-- The head of a line says when it was printed, and with which prefix. -/
theorem lineHead_injective {tv tv' : Timeval} {label label' : String}
    (h : lineHead tv label = lineHead tv' label') : tv = tv' ∧ label = label' := by
  have hstop : ∀ c s, isNumeric c = false → ∀ rest : List Char,
      s.toList = c :: rest → ∀ after, NoNumberNext (String.toList s ++ after) := by
    intro c s hc rest hs after
    rw [hs, List.cons_append]
    exact noNumberNext_cons hc _
  have hdot := hstop '.' "." (by decide) [] (by decide)
  have hbracket := hstop ']' "]: " (by decide) [':', ' '] (by decide)
  have hsec := List.append_cancel_left h
  obtain ⟨htvSec, hafter⟩ := legible_signedDecimal.cancel_front (hdot _) (hdot _) hsec
  obtain ⟨htvUsec, hlabel⟩ := (legible_paddedDecimal 6).cancel_front (hbracket _) (hbracket _)
    (List.append_cancel_left hafter)
  obtain ⟨sec, usec⟩ := tv
  obtain rfl : sec = tv'.tvSec := htvSec
  obtain rfl : usec = tv'.tvUsec := htvUsec
  exact ⟨rfl, String.toList_injective (List.append_cancel_left hlabel)⟩

/-- What a line says of the statistics: everything but `req_count_create_err`. -/
def MgrStats.printed (stats : MgrStats) : MgrStats :=
  { stats with reqCountCreateErr := 0 }

theorem statsFields_eq_iff {stats stats' : MgrStats} :
    statsFields stats = statsFields stats' ↔ stats.printed = stats'.printed := by
  simp [statsFields, MgrStats.printed, and_left_comm, and_comm]

theorem endsLabel_statsFields (stats : MgrStats) :
    ∀ field ∈ statsFields stats, EndsLabel field.1 := by
  have hlabels : ∀ label ∈ (statsFields MgrStats.zero).map Prod.fst, EndsLabel label := by
    decide
  have hsame : (statsFields stats).map Prod.fst = (statsFields MgrStats.zero).map Prod.fst := rfl
  intro field hfield
  exact hlabels field.1 (hsame ▸ List.mem_map_of_mem hfield)

/-- A line of the report can be read again: two lines are the same exactly when they
were printed at the same time, with the same prefix and for the same statistics,
`req_count_create_err` apart. -/
theorem cltMgrStatsPrint_inj {tv tv' : Timeval} {label label' : String}
    {stats stats' : MgrStats} :
    cltMgrStatsPrint tv label stats = cltMgrStatsPrint tv' label' stats' ↔
      tv = tv' ∧ label = label' ∧ stats.printed = stats'.printed := by
  constructor
  · intro h
    have htext := congrArg String.toList h
    rw [toList_cltMgrStatsPrint, toList_cltMgrStatsPrint] at htext
    have hlabels : (statsFields stats).map Prod.fst = (statsFields stats').map Prod.fst := rfl
    obtain ⟨hhead, hfields⟩ := fieldsText_cancel hlabels (endsLabel_statsFields stats) _ _
      (List.append_cancel_right htext)
    obtain ⟨htv, hlabel⟩ := lineHead_injective hhead
    exact ⟨htv, hlabel, statsFields_eq_iff.mp hfields⟩
  · rintro ⟨rfl, rfl, hprinted⟩
    apply String.toList_injective
    rw [toList_cltMgrStatsPrint, toList_cltMgrStatsPrint, statsFields_eq_iff.mpr hprinted]

end EvhtpHttp.Client

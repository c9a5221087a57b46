import EvhtpHttp.Client.Stats
import EvhtpHttp.Support.Transition

/-!
# The threads of the program

`src/clt/main.c` once all threads are created: the workers, of which only the
statistics they publish matter here, the thread that adds these up every second
and `main`, which waits for all of them and prints the result.  A section under
a thread's mutex is one step, and so is every other access to shared memory.
-/

namespace EvhtpHttp.Client

open EvhtpHttp.Support

/-- The part of `struct clt_thr` that other threads see. -/
structure CltThr where
  prevStats : MgrStats
  exited : Bool
deriving Repr, DecidableEq

/-- Where `app_stats_thread` is: at the test of its loop, asleep, before thread
`i` with the sum so far in `stats`, or at its end. -/
inductive StatsPc
  | test
  | sleep
  | read (i : ℕ) (stats : MgrStats)
  | exited
deriving Repr, DecidableEq

/-- Where `main` is: waiting for worker `i`, before it clears the flag, waiting
for the statistics thread, before it prints the total, or after that. -/
inductive MainPc
  | join (i : ℕ)
  | clearFlag
  | joinStats
  | print
  | done
deriving Repr, DecidableEq

/-- `struct app`, with the places of its threads and the statistics that the statistics
thread and `main` print, each with its prefix.  What a worker prints of its own before
it returns is not among them. -/
structure App where
  th : List CltThr
  prevStats : MgrStats
  statsThreadRun : Bool
  statsPc : StatsPc
  mainPc : MainPc
  output : List (String × MgrStats)
deriving Repr, DecidableEq

/-- The application with `n` workers that have published nothing yet. -/
def App.start (n : ℕ) : App where
  th := List.replicate n ⟨MgrStats.zero, false⟩
  prevStats := MgrStats.zero
  statsThreadRun := true
  statsPc := .test
  mainPc := .join 0
  output := []

/-- `clt_mgr_stats_print` in the statistics thread and in `main`. -/
def App.print (label : String) (stats : MgrStats) (a : App) : App :=
  { a with output := a.output ++ [(label, stats)] }

def cltMgrStatsNotify (stats : MgrStats) (thr : CltThr) : CltThr :=
  { thr with prevStats := mgrStatsCopy stats thr.prevStats }

/-- A step of worker `i`, if it has not returned yet. -/
def App.worker (i : ℕ) (f : CltThr → CltThr) (a : App) : Option App :=
  match a.th[i]? with
  | none => none
  | some thr => if thr.exited then none else some { a with th := a.th.set i (f thr) }

/-- A step of `app_stats_thread`. -/
def appStatsThread (a : App) : Option App :=
  match a.statsPc with
  | .test => some { a with statsPc := if a.statsThreadRun then .sleep else .exited }
  | .sleep => some { a with statsPc := .read 0 MgrStats.zero }
  | .read i stats =>
    match a.th[i]? with
    | some thr => some { a with statsPc := .read (i + 1) (mgrStatsAdd thr.prevStats stats) }
    | none =>
      let sdiff := mgrStatsDiff a.prevStats stats
      let a := (a.print "interval_total" stats).print "interval_diff" sdiff
      some { a with prevStats := mgrStatsCopy stats a.prevStats, statsPc := .test }
  | .exited => none

/-- A step of `main`, from the first `pthread_join` on. -/
def appMain (a : App) : Option App :=
  match a.mainPc with
  | .join i =>
    match a.th[i]? with
    | some thr => if thr.exited then some { a with mainPc := .join (i + 1) } else none
    | none => some { a with mainPc := .clearFlag }
  | .clearFlag => some { a with statsThreadRun := false, mainPc := .joinStats }
  | .joinStats => if a.statsPc = .exited then some { a with mainPc := .print } else none
  | .print => some { a.print "run_total" a.prevStats with mainPc := .done }
  | .done => none

/-- Which thread takes a step. -/
inductive AppEvent
  | publish (i : ℕ) (stats : MgrStats)
  | exit (i : ℕ)
  | stats
  | main
deriving Repr, DecidableEq

/-- The program with `n` worker threads. -/
def appSystem (n : ℕ) : System App AppEvent where
  init := App.start n
  step
    | .publish i stats, a => a.worker i (cltMgrStatsNotify stats)
    | .exit i, a => a.worker i fun thr => { thr with exited := true }
    | .stats, a => appStatsThread a
    | .main, a => appMain a

end EvhtpHttp.Client

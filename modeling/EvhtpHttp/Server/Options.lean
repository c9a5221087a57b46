import EvhtpHttp.Client.CommandLine

/-!
# The command line of the server

`main` and `parse_opts` of `src/srv/http.c`.  The arguments are those of the
client's command line.  The codes of the options are numbers here, since the loop
of `parse_opts` compares the result of `getopt_long` with 1 where it means the end
of the arguments.
-/

namespace EvhtpHttp.Server

open EvhtpHttp.Support
open EvhtpHttp.Client (Arg)

/-- The part of `struct http_app` that the options set. -/
structure HttpApp where
  port : ℤ
  ncpu : ℤ
deriving Repr, DecidableEq

def optPort : ℤ := 1000

def optNumberThreads : ℤ := 1001

def optHelp : ℤ := 1002

/-- `struct option`. -/
structure LongOption where
  name : String
  hasArg : Bool
  val : ℤ
deriving Repr, DecidableEq

def longopts : List LongOption :=
  [⟨"listen-port", true, optPort⟩,
    ⟨"number-threads", true, optNumberThreads⟩,
    ⟨"help", false, optHelp⟩]

/-- What `getopt_long` returns at the end of the arguments. -/
def getoptEnd : ℤ := -1

/-- `getopt_long` on one argument: the code, `'?'` for an argument that is not an
option, and `optarg`, which is empty for the codes without a value. -/
def getoptLong : Arg → ℤ × String
  | .short c => (if c = 'h' then ('h'.toNat : ℤ) else '?'.toNat, "")
  | .long name value =>
    match longopts.find? fun o => o.name = name with
    | none => ('?'.toNat, "")
    | some o =>
      if o.hasArg = value.isSome then (o.val, value.getD "") else ('?'.toNat, "")

/-- The switch of `parse_opts`; without a result it prints the usage and returns
`-1`. -/
def parseOpt (ch : ℤ) (optarg : String) (app : HttpApp) : Option HttpApp :=
  if ch = optPort then some { app with port := atoi optarg }
  else if ch = optNumberThreads then some { app with ncpu := atoi optarg }
  else if ch = 'h'.toNat ∨ ch = optHelp then none
  else none

/-- `parse_opts`: the loop ends where `getopt_long` returns 1, or with the `break`
at the end of the arguments. -/
def parseOpts : List Arg → HttpApp → Option HttpApp
  | [], app => some app
  | arg :: args, app =>
    let (ch, optarg) := getoptLong arg
    if ch = 1 ∨ ch = getoptEnd then some app
    else
      match parseOpt ch optarg app with
      | none => none
      | some app => parseOpts args app

/-- The defaults of `main`. -/
def HttpApp.defaults : HttpApp where
  port := 8080
  ncpu := 1

/-- `main` up to its first call of libevhtp, with `argc` words and the options
among them; without a result the process has exited with code 127. -/
def mainApp (argc : ℕ) (args : List Arg) : Option HttpApp :=
  if argc < 2 then none
  else parseOpts args HttpApp.defaults

/-! ## What the options say -/

/-- An option with its value, where the program takes it. -/
def assignment : Arg → Option (String × String)
  | .long name (some v) =>
    if name = "listen-port" ∨ name = "number-threads" then some (name, v) else none
  | _ => none

/-- The application that options with their values ask for: the number given last for
each, or what it was before. -/
def requestedApp (opts : List (String × String)) (app : HttpApp) : HttpApp where
  port := ((lastValue "listen-port" opts).map atoi).getD app.port
  ncpu := ((lastValue "number-threads" opts).map atoi).getD app.ncpu

/-! ## The loop -/

/-- The loop does not stop before the end of the arguments: no option has the code 1,
nor the one for the end. -/
theorem getoptLong_ne (arg : Arg) : (getoptLong arg).1 ≠ 1 ∧ (getoptLong arg).1 ≠ getoptEnd := by
  have hvals : ∀ o ∈ longopts, o.val ≠ 1 ∧ o.val ≠ getoptEnd := by decide
  cases arg with
  | short c =>
      simp only [getoptLong]
      split <;> decide
  | long name value =>
      simp only [getoptLong]
      split
      · decide
      · rename_i o ho
        split
        · exact hvals o (List.mem_of_find?_eq_some ho)
        · decide

theorem parseOpts_cons (arg : Arg) (args : List Arg) (app : HttpApp) :
    parseOpts (arg :: args) app =
      (parseOpt (getoptLong arg).1 (getoptLong arg).2 app).bind (parseOpts args) := by
  obtain ⟨hone, hend⟩ := getoptLong_ne arg
  simp only [parseOpts, hone, hend, or_self, if_false]
  cases parseOpt (getoptLong arg).1 (getoptLong arg).2 app <;> rfl

/-- What one argument does: it assigns its value, or ends the program. -/
theorem parseOpt_getoptLong (arg : Arg) (app : HttpApp) :
    parseOpt (getoptLong arg).1 (getoptLong arg).2 app =
      (assignment arg).map fun a => requestedApp [a] app := by
  cases arg with
  | short c =>
      simp only [getoptLong, assignment, Option.map_none]
      split <;> rfl
  | long name value =>
      by_cases hport : name = "listen-port"
      · subst hport
        cases value <;> rfl
      by_cases hthreads : name = "number-threads"
      · subst hthreads
        cases value <;> rfl
      have hnone : assignment (.long name value) = none := by
        cases value <;> simp [assignment, hport, hthreads]
      rw [hnone, Option.map_none]
      by_cases hhelp : name = "help"
      · subst hhelp
        cases value <;> rfl
      · have hfind : longopts.find? (fun o => o.name = name) = none := by
          simp [longopts, Ne.symm hport, Ne.symm hthreads, Ne.symm hhelp]
        simp only [getoptLong, hfind]
        rfl

theorem requestedApp_cons (a : String × String) (opts : List (String × String)) (app : HttpApp) :
    requestedApp (a :: opts) app = requestedApp opts (requestedApp [a] app) := by
  have hfirst : ∀ key default, ((lastValue key (a :: opts)).map atoi).getD default =
      ((lastValue key opts).map atoi).getD (((lastValue key [a]).map atoi).getD default) := by
    intro key default
    rw [← Prod.mk.eta (p := a), lastValue_cons, lastValue_cons, lastValue_nil, Option.none_or]
    cases lastValue key opts <;> rfl
  simp only [requestedApp, hfirst]

/-- `parse_opts` takes options that all have their values, and nothing else. -/
theorem parseOpts_eq (args : List Arg) (app : HttpApp) :
    parseOpts args app = (args.mapM assignment).map fun opts => requestedApp opts app := by
  induction args generalizing app with
  | nil => rfl
  | cons arg args ih =>
      rw [parseOpts_cons, parseOpt_getoptLong, List.mapM_cons]
      cases assignment arg with
      | none => rfl
      | some a =>
          rw [Option.map_some, Option.bind_some, ih]
          cases args.mapM assignment with
          | none => rfl
          | some opts => exact congrArg some (requestedApp_cons a opts app).symm

/-! ## The server's configuration -/

/-- `main` goes on exactly with an argument at least and with options only that have
their values; it listens on the port given last, or on 8080, with the number of
threads given last, or one.  Every port and number of threads that an `int` can hold
can be asked for, and no other. -/
theorem mainApp_spec :
    (∀ argc args, mainApp argc args =
      if argc < 2 then none
      else (args.mapM assignment).map fun opts => requestedApp opts HttpApp.defaults) ∧
      ∀ app, (∃ argc args, mainApp argc args = some app) ↔
        IsInt32 app.port ∧ IsInt32 app.ncpu := by
  have hmain : ∀ argc args, mainApp argc args =
      if argc < 2 then none
      else (args.mapM assignment).map fun opts => requestedApp opts HttpApp.defaults := by
    intro argc args
    rw [mainApp, parseOpts_eq]
  refine ⟨hmain, fun app => ⟨?_, ?_⟩⟩
  · rintro ⟨argc, args, h⟩
    rw [hmain] at h
    obtain ⟨-, h⟩ := Option.ite_none_left_eq_some.mp h
    obtain ⟨opts, -, rfl⟩ := Option.map_eq_some_iff.mp h
    have hint : ∀ key default, IsInt32 default →
        IsInt32 (((lastValue key opts).map atoi).getD default) := by
      intro key default hdefault
      cases lastValue key opts with
      | none => exact hdefault
      | some v => exact isInt32_int32 _
    exact ⟨hint _ _ (by decide), hint _ _ (by decide)⟩
  · rintro ⟨hport, hncpu⟩
    refine ⟨3, [.long "listen-port" (some (String.ofList (signedDecimal app.port))),
      .long "number-threads" (some (String.ofList (signedDecimal app.ncpu)))], ?_⟩
    have hread : mainApp 3 [.long "listen-port" (some (String.ofList (signedDecimal app.port))),
        .long "number-threads" (some (String.ofList (signedDecimal app.ncpu)))] =
        some ⟨atoi (String.ofList (signedDecimal app.port)),
          atoi (String.ofList (signedDecimal app.ncpu))⟩ := rfl
    rw [hread, atoi_signedDecimal hport, atoi_signedDecimal hncpu]

end EvhtpHttp.Server

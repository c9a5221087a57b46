import EvhtpHttp.Client.Config
import EvhtpHttp.Support.Numeral
import EvhtpHttp.Support.Overwrite

/-!
# The command line

The options of the test client (`src/clt/main.c`): the table `longopts`, the
names `usage` prints, and `parse_opts`, which calls `getopt_long` for one
argument after the other.  An argument is taken as `getopt_long` sees it, an
option with the value that belongs to it.
-/

namespace EvhtpHttp.Client

open EvhtpHttp.Support

/-! ## The table of options -/

/-- What `getopt_long` returns: the codes of the enumeration in `main.c`, `'h'`
and, for an argument that is not an option, `'?'`. -/
inductive OptCode
  | hostIp
  | hostHdr
  | port
  | uri
  | targetNconn
  | burstConn
  | targetRequestCount
  | waitTimePreHttpReqMsec
  | targetTotalNconnCount
  | targetGlobalRequestCount
  | httpKeepalive
  | runningPeriod
  | waitingPeriod
  | numberThreads
  | targetRequestRate
  | help
  | unknown
deriving Repr, DecidableEq

/-- `struct option`. -/
structure LongOption where
  name : String
  hasArg : Bool
  val : OptCode
deriving Repr, DecidableEq

def longopts : List LongOption :=
  [⟨"host-ip", true, .hostIp⟩,
    ⟨"host-hdr", true, .hostHdr⟩,
    ⟨"port", true, .port⟩,
    ⟨"uri", true, .uri⟩,
    ⟨"target-nconn", true, .targetNconn⟩,
    ⟨"burst-conn", true, .burstConn⟩,
    ⟨"target-request-count", true, .targetRequestCount⟩,
    ⟨"wait-time-request-msec", true, .waitTimePreHttpReqMsec⟩,
    ⟨"target-total-nconn-count", true, .targetTotalNconnCount⟩,
    ⟨"target-global-request-count", true, .targetGlobalRequestCount⟩,
    ⟨"http-keepalive", true, .httpKeepalive⟩,
    ⟨"running-period", true, .runningPeriod⟩,
    ⟨"waiting-period", true, .waitingPeriod⟩,
    ⟨"number-threads", true, .numberThreads⟩,
    ⟨"target-request-rate", true, .targetRequestRate⟩,
    ⟨"help", false, .help⟩]

/-- The options that `usage` prints, in its order. -/
def usageOptions : List String :=
  ["host-ip", "port", "uri", "host-hdr", "number-threads", "target-nconn", "burst-conn",
    "target-request-count", "wait-time-request-msec", "target-total-nconn-count",
    "target-global-request-count", "http-keepalive", "running-period", "waiting-period",
    "target-request-rate", "help"]

/-- An argument of the program: `-c`, `--name` or `--name=value`. -/
inductive Arg
  | short (c : Char)
  | long (name : String) (value : Option String)
deriving Repr, DecidableEq

/-- `getopt_long` on one argument: the code and `optarg`, which is empty for the
codes without a value. -/
def getoptLong : Arg → OptCode × String
  | .short c => (if c = 'h' then .help else .unknown, "")
  | .long name value =>
    match longopts.find? fun o => o.name = name with
    | none => (.unknown, "")
    | some o => if o.hasArg = value.isSome then (o.val, value.getD "") else (.unknown, "")

/-! ## Parsing -/

/-- What `parse_opts` prints before it returns `-1`. -/
inductive OptsMessage
  | usage
  | tooManyIpv4Dst
deriving Repr, DecidableEq

/-- The body of the loop of `parse_opts`; an error is the return code `-1`.  The
switch has no case for the code of `target-global-request-count`. -/
def parseOpt (ch : OptCode) (optarg : String) (cfg : MgrConfig) : Except OptsMessage MgrConfig :=
  match ch with
  | .help => .error .usage
  | .hostIp =>
    let (ipv4Dst, rc) := cfgIpv4ArrayAdd cfg.ipv4Dst optarg
    if rc ≠ 0 then .error .tooManyIpv4Dst
    else .ok { cfg with ipv4Dst := ipv4Dst }
  | .hostHdr => .ok { cfg with hostHdr := some optarg }
  | .port => .ok { cfg with port := atoi optarg }
  | .uri => .ok { cfg with uri := some optarg }
  | .targetNconn => .ok { cfg with targetNconn := atoi optarg }
  | .burstConn => .ok { cfg with burstConn := atoi optarg }
  | .targetRequestCount => .ok { cfg with targetRequestCount := atoi optarg }
  | .waitTimePreHttpReqMsec => .ok { cfg with waitTimePreHttpReqMsec := atoi optarg }
  | .targetTotalNconnCount => .ok { cfg with targetTotalNconnCount := atoi optarg }
  | .httpKeepalive => .ok { cfg with httpKeepalive := atoi optarg }
  | .runningPeriod => .ok { cfg with runningPeriodSec := atoi optarg }
  | .waitingPeriod => .ok { cfg with waitingPeriodSec := atoi optarg }
  | .numberThreads => .ok { cfg with numThreads := atoi optarg }
  | .targetRequestRate => .ok { cfg with targetRequestRate := atoi optarg }
  | _ => .error .usage

/-- `parse_opts`: the configuration and the return code 0, or the message and
the return code `-1`. -/
def parseOpts : List Arg → MgrConfig → Except OptsMessage MgrConfig
  | [], cfg => .ok cfg
  | arg :: args, cfg =>
    match parseOpt (getoptLong arg).1 (getoptLong arg).2 cfg with
    | .error msg => .error msg
    | .ok cfg => parseOpts args cfg

/-- The configuration that `main` has after its check for a minimum, if it does not
exit before. -/
def mainConfig (args : List Arg) : Option MgrConfig :=
  match parseOpts args (mgrConfigDefaults MgrConfig.zero) with
  | .error _ => none
  | .ok cfg =>
    if cfgIpv4ArrayNentries cfg.ipv4Dst = 0 ∨ cfg.uri = none ∨ cfg.port = -1 then none
    else some cfg

/-! ## Starting the threads -/

/-- What the system gives `main` for its threads: the memory for an array of so many
workers, the memory for the manager of each worker, its thread, and the statistics
thread.  The size of `struct clt_thr`, which holds more than one pointer, is the
compiler's. -/
structure Resources where
  cltThrSize : ℕ
  one_lt_cltThrSize : 1 < cltThrSize
  threads : ℕ → Bool
  manager : ℕ → Bool
  workerThread : ℕ → Bool
  statsThread : Bool

/-- `calloc` for `number` objects of `size` bytes, where the system would grant the
memory or not: a product that is no `size_t` is refused. -/
def calloc (granted : Bool) (number size : ℕ) : Bool :=
  number * size < 2 ^ 64 && granted

/-- `main` up to the start of its threads: the configuration with which it has started
all of them, if it has not exited before. -/
def mainStart (sys : Resources) (args : List Arg) : Option MgrConfig :=
  match mainConfig args with
  | none => none
  | some cfg =>
    let number := uint64OfInt cfg.numThreads
    if calloc (sys.threads number) number sys.cltThrSize = false then none
    -- the loops count an `int`, so they do nothing for a number that is not positive
    else if ∃ i < cfg.numThreads.toNat, sys.manager i = false then none
    else if ∃ i < cfg.numThreads.toNat, sys.workerThread i = false then none
    else if sys.statsThread = false then none
    else some cfg

/-! ## What the options say -/

/-- A name declared in `longopts` for an option with a value and printed by
`usage`. -/
def DeclaredOption (name : String) : Prop :=
  (∃ o ∈ longopts, o.name = name ∧ o.hasArg = true) ∧ name ∈ usageOptions

instance (name : String) : Decidable (DeclaredOption name) :=
  inferInstanceAs (Decidable (_ ∧ _))

/-- The arguments that give each option its value. -/
def withValues (opts : List (String × String)) : List Arg :=
  opts.map fun o => .long o.1 (some o.2)

/-- The number given last for an option, or its default. -/
def numberOption (name : String) (default : ℤ) (opts : List (String × String)) : ℤ :=
  ((lastValue name opts).map atoi).getD default

/-- The configuration that a sequence of options with their values asks for: for
each option its last value or its default, and all the addresses in order. -/
def requestedConfig (opts : List (String × String)) : MgrConfig where
  numThreads := numberOption "number-threads" 1 opts
  burstConn := numberOption "burst-conn" 1 opts
  targetNconn := numberOption "target-nconn" 128 opts
  targetRequestRate := numberOption "target-request-rate" (-1) opts
  targetRequestCount := numberOption "target-request-count" (-1) opts
  targetGlobalRequestCount := numberOption "target-global-request-count" (-1) opts
  targetTotalNconnCount := numberOption "target-total-nconn-count" (-1) opts
  runningPeriodSec := numberOption "running-period" 30 opts
  waitingPeriodSec := numberOption "waiting-period" 30 opts
  ipv4Dst := ⟨values "host-ip" opts, 0⟩
  hostHdr := lastValue "host-hdr" opts
  port := numberOption "port" (-1) opts
  uri := lastValue "uri" opts
  waitTimePreHttpReqMsec := numberOption "wait-time-request-msec" 1 opts
  httpKeepalive := numberOption "http-keepalive" 1 opts

theorem requestedConfig_nil :
    requestedConfig [] = mgrConfigDefaults MgrConfig.zero := by
  rfl

/-! ## The loop -/

/-- A declared option with a value comes back from `getopt_long` with its code
and the value. -/
theorem getoptLong_of_mem {o : LongOption} (ho : o ∈ longopts) (harg : o.hasArg = true)
    (v : String) : getoptLong (.long o.name (some v)) = (o.val, v) := by
  have hfind : ∀ o ∈ longopts, longopts.find? (fun p => p.name = o.name) = some o := by
    decide
  simp [getoptLong, hfind o ho, harg]

theorem parseOpt_hostIp {cfg : MgrConfig} {v : String}
    (hroom : cfg.ipv4Dst.ipv4.length < cfgIpv4ArrayMax) :
    parseOpt .hostIp v cfg =
      .ok { cfg with ipv4Dst := { cfg.ipv4Dst with ipv4 := cfg.ipv4Dst.ipv4 ++ [v] } } := by
  simp [parseOpt, cfgIpv4ArrayAdd, not_le.mpr hroom]

/-- One option after others: the switch has a case for it, and what it asks for
is added to what the others asked for. -/
theorem parseOpt_requestedConfig {o : LongOption} (ho : o ∈ longopts)
    (harg : o.hasArg = true) (hcase : o.val ≠ .targetGlobalRequestCount)
    (opts : List (String × String)) (v : String)
    (hroom : o.val = .hostIp → (values "host-ip" opts).length < cfgIpv4ArrayMax) :
    parseOpt o.val v (requestedConfig opts) =
      .ok (requestedConfig (opts ++ [(o.name, v)])) := by
  simp only [longopts, List.mem_cons, List.not_mem_nil, or_false] at ho
  rcases ho with rfl | rfl | rfl | rfl | rfl | rfl | rfl | rfl | rfl | rfl | rfl | rfl | rfl |
    rfl | rfl | rfl
  · rw [parseOpt_hostIp (hroom rfl)]
    simp [requestedConfig, numberOption]
  all_goals simp [parseOpt, requestedConfig, numberOption] at hcase harg ⊢

/-- The names in the table of the two options that are not simply overwritten. -/
theorem val_eq_iff_name_eq : ∀ o ∈ longopts,
    (o.val = .hostIp ↔ o.name = "host-ip") ∧
      (o.val = .targetGlobalRequestCount ↔ o.name = "target-global-request-count") := by
  decide

theorem parseOpts_requestedConfig {opts : List (String × String)}
    (hdeclared : ∀ o ∈ opts, DeclaredOption o.1)
    (hcase : ∀ o ∈ opts, o.1 ≠ "target-global-request-count") :
    ∀ taken : List (String × String),
      (values "host-ip" (taken ++ opts)).length ≤ cfgIpv4ArrayMax →
      parseOpts (withValues opts) (requestedConfig taken) =
        .ok (requestedConfig (taken ++ opts)) := by
  induction opts with
  | nil => simp [withValues, parseOpts]
  | cons opt opts ih =>
      intro taken hroom
      obtain ⟨name, v⟩ := opt
      obtain ⟨⟨o, ho, rfl, harg⟩, -⟩ := hdeclared (name, v) (List.mem_cons_self ..)
      obtain ⟨hip, hglobal⟩ := val_eq_iff_name_eq o ho
      have hval : o.val ≠ .targetGlobalRequestCount := fun h =>
        hcase (o.name, v) (List.mem_cons_self ..) (hglobal.mp h)
      have hsplit : taken ++ (o.name, v) :: opts = taken ++ [(o.name, v)] ++ opts := by
        simp
      rw [hsplit] at hroom ⊢
      have hfits : o.val = .hostIp → (values "host-ip" taken).length < cfgIpv4ArrayMax := by
        intro hhost
        rw [values_append, values_concat, if_pos (hip.mp hhost)] at hroom
        simp only [List.length_append, List.length_singleton] at hroom
        omega
      have hstep := parseOpt_requestedConfig ho harg hval taken v hfits
      have hrest := ih (fun o ho => hdeclared o (List.mem_cons_of_mem _ ho))
        (fun o ho => hcase o (List.mem_cons_of_mem _ ho)) (taken ++ [(o.name, v)]) hroom
      simpa [withValues, parseOpts, getoptLong_of_mem ho harg, hstep] using hrest

theorem ne_global_of_parseOpts {opts : List (String × String)} {cfg cfg' : MgrConfig}
    (hok : parseOpts (withValues opts) cfg = .ok cfg') :
    ∀ o ∈ opts, o.1 ≠ "target-global-request-count" := by
  induction opts generalizing cfg with
  | nil => simp
  | cons opt opts ih =>
      obtain ⟨name, v⟩ := opt
      rw [withValues, List.map_cons, parseOpts] at hok
      split at hok
      · exact absurd hok (by simp)
      · rename_i cfg₁ hstep
        intro o ho
        rcases List.mem_cons.mp ho with rfl | ho
        · rintro rfl
          exact absurd hstep (by simp [getoptLong, longopts, parseOpt])
        · exact ih hok o ho

/-- Options with values are parsed into what they ask for exactly when none of
them is `target-global-request-count`. -/
theorem parseOpts_eq_ok_iff {opts : List (String × String)}
    (hdeclared : ∀ o ∈ opts, DeclaredOption o.1)
    (hroom : (values "host-ip" opts).length ≤ 16) :
    parseOpts (withValues opts) (mgrConfigDefaults MgrConfig.zero) =
        .ok (requestedConfig opts) ↔
      ∀ o ∈ opts, o.1 ≠ "target-global-request-count" := by
  constructor
  · exact ne_global_of_parseOpts
  · intro hcase
    rw [← requestedConfig_nil]
    exact parseOpts_requestedConfig hdeclared hcase [] hroom

/-- A command line with repeated options and two addresses. -/
theorem parseOpts_two_hosts :
    parseOpts (withValues [("host-ip", "10.0.0.1"), ("port", "80"), ("uri", "/size"),
        ("host-ip", "10.0.0.2"), ("port", "8080")]) (mgrConfigDefaults MgrConfig.zero) =
      .ok (requestedConfig [("host-ip", "10.0.0.1"), ("port", "80"), ("uri", "/size"),
        ("host-ip", "10.0.0.2"), ("port", "8080")]) :=
  (parseOpts_eq_ok_iff (by decide) (by decide)).mpr (by decide)

/-- A limit on all requests, as `usage` prints it, is answered with `usage`. -/
theorem parseOpts_global_request_count :
    (∀ o ∈ [("host-ip", "10.0.0.1"), ("port", "80"), ("uri", "/size"),
        ("target-global-request-count", "1000")], DeclaredOption o.1) ∧
      parseOpts (withValues [("host-ip", "10.0.0.1"), ("port", "80"), ("uri", "/size"),
          ("target-global-request-count", "1000")]) (mgrConfigDefaults MgrConfig.zero) =
        .error .usage := by
  decide

/-! ## The configuration of `main` -/

/-- What one argument does to the addresses: nothing, or one more where there is
room. -/
theorem parseOpt_ipv4Dst {ch : OptCode} {v : String} {cfg cfg' : MgrConfig}
    (hok : parseOpt ch v cfg = .ok cfg') :
    cfg'.ipv4Dst = cfg.ipv4Dst ∨
      cfg.ipv4Dst.ipv4.length < cfgIpv4ArrayMax ∧
        cfg'.ipv4Dst = { cfg.ipv4Dst with ipv4 := cfg.ipv4Dst.ipv4 ++ [v] } := by
  by_cases hip : ch = .hostIp
  · subst hip
    by_cases hroom : cfg.ipv4Dst.ipv4.length < cfgIpv4ArrayMax
    · rw [parseOpt_hostIp hroom] at hok
      obtain rfl := Except.ok.inj hok
      exact Or.inr ⟨hroom, rfl⟩
    · simp [parseOpt, cfgIpv4ArrayAdd, not_lt.mp hroom] at hok
  · left
    cases ch <;> simp [parseOpt] at hip hok <;> subst hok <;> rfl

/-- The addresses stay within their array, and the cursor stays where it is. -/
theorem parseOpts_ipv4Dst {args : List Arg} {cfg cfg' : MgrConfig}
    (hok : parseOpts args cfg = .ok cfg')
    (hroom : cfg.ipv4Dst.ipv4.length ≤ cfgIpv4ArrayMax) :
    cfg'.ipv4Dst.ipv4.length ≤ cfgIpv4ArrayMax ∧ cfg'.ipv4Dst.cur = cfg.ipv4Dst.cur := by
  induction args generalizing cfg with
  | nil =>
      obtain rfl := Except.ok.inj hok
      exact ⟨hroom, rfl⟩
  | cons arg args ih =>
      rw [parseOpts] at hok
      split at hok
      · exact absurd hok (by simp)
      · rename_i cfg₁ hstep
        rcases parseOpt_ipv4Dst hstep with hsame | ⟨hless, hadd⟩
        · rw [← hsame] at hroom ⊢
          exact ih hok hroom
        · have hroom₁ : cfg₁.ipv4Dst.ipv4.length ≤ cfgIpv4ArrayMax := by
            rw [hadd, List.length_append, List.length_singleton]
            omega
          obtain ⟨hlen, hcur⟩ := ih hok hroom₁
          exact ⟨hlen, by rw [hcur, hadd]⟩

/-- `main` goes on with 1 to 16 addresses, none of them used yet, a path and a
port. -/
theorem mainConfig_spec {args : List Arg} {cfg : MgrConfig} (h : mainConfig args = some cfg) :
    cfg.ipv4Dst.ipv4 ≠ [] ∧ cfg.ipv4Dst.ipv4.length ≤ cfgIpv4ArrayMax ∧
      cfg.ipv4Dst.cur = 0 ∧ cfg.uri ≠ none ∧ cfg.port ≠ -1 := by
  rw [mainConfig] at h
  split at h
  · exact absurd h (by simp)
  · rename_i cfg₁ hparse
    obtain ⟨hminimum, hsame⟩ := Option.ite_none_left_eq_some.mp h
    obtain rfl := Option.some.inj hsame
    obtain ⟨hlen, hcur⟩ := parseOpts_ipv4Dst hparse (by decide)
    have hentries : cfg₁.ipv4Dst.ipv4 ≠ [] := fun hnil =>
      hminimum (Or.inl (by simp [cfgIpv4ArrayNentries, hnil]))
    exact ⟨hentries, hlen, hcur, fun huri => hminimum (Or.inr (Or.inl huri)),
      fun hport => hminimum (Or.inr (Or.inr hport))⟩

theorem parseOpt_hosts {ch : OptCode} {v : String} {cfg cfg' : MgrConfig}
    (hok : parseOpt ch v cfg = .ok cfg') :
    cfg'.hostHdr = (if ch = .hostHdr then some v else none).or cfg.hostHdr ∧
      cfg'.ipv4Dst.ipv4 = cfg.ipv4Dst.ipv4 ++ if ch = .hostIp then [v] else [] := by
  by_cases hip : ch = .hostIp
  · subst hip
    by_cases hroom : cfg.ipv4Dst.ipv4.length < cfgIpv4ArrayMax
    · rw [parseOpt_hostIp hroom] at hok
      obtain rfl := Except.ok.inj hok
      exact ⟨rfl, rfl⟩
    · simp [parseOpt, cfgIpv4ArrayAdd, not_lt.mp hroom] at hok
  · rw [if_neg hip, List.append_nil]
    cases ch <;> simp [parseOpt] at hip hok <;> subst hok <;> exact ⟨rfl, rfl⟩

theorem parseOpts_hosts {args : List Arg} {cfg cfg' : MgrConfig}
    (hok : parseOpts args cfg = .ok cfg') :
    cfg'.hostHdr = (lastValue .hostHdr (args.map getoptLong)).or cfg.hostHdr ∧
      cfg'.ipv4Dst.ipv4 = cfg.ipv4Dst.ipv4 ++ values .hostIp (args.map getoptLong) := by
  induction args generalizing cfg with
  | nil =>
      obtain rfl := Except.ok.inj hok
      exact ⟨rfl, (List.append_nil _).symm⟩
  | cons arg args ih =>
      rw [parseOpts] at hok
      split at hok
      · exact absurd hok (by simp)
      · rename_i cfg₁ hstep
        obtain ⟨hhdr, hips⟩ := parseOpt_hosts hstep
        obtain ⟨hhdr', hips'⟩ := ih hok
        rw [List.map_cons, ← Prod.mk.eta (p := getoptLong arg), lastValue_cons, values_cons]
        exact ⟨by rw [hhdr', hhdr, Option.or_assoc], by rw [hips', hips, List.append_assoc]⟩

theorem mainConfig_hosts {args : List Arg} {cfg : MgrConfig} (h : mainConfig args = some cfg) :
    cfg.hostHdr = lastValue .hostHdr (args.map getoptLong) ∧
      cfg.ipv4Dst.ipv4 = values .hostIp (args.map getoptLong) := by
  rw [mainConfig] at h
  split at h
  · exact absurd h (by simp)
  · rename_i cfg₁ hparse
    obtain ⟨-, hsame⟩ := Option.ite_none_left_eq_some.mp h
    obtain rfl := Option.some.inj hsame
    obtain ⟨hhdr, hips⟩ := parseOpts_hosts hparse
    exact ⟨by rw [hhdr]; exact Option.or_none, hips⟩

end EvhtpHttp.Client

import EvhtpHttp.Client.Options

/-!
# Which configurations a command line can ask for

`main` (`src/clt/main.c`) builds its configuration from the defaults and the
options.  Here a configuration is written as a command line again: every number
with `%d`, every address and both strings as they are.  `parse_opts` reads what
was written, so the configurations with which `main` starts its threads are exactly
the ones described below, whatever the arguments were.
-/

namespace EvhtpHttp.Client

open EvhtpHttp.Support

/-! ## Writing a configuration -/

/-- The options with a number, each with the field it sets. -/
def numberFields : List (String × (MgrConfig → ℤ)) :=
  [("port", fun cfg => cfg.port),
    ("target-nconn", fun cfg => cfg.targetNconn),
    ("burst-conn", fun cfg => cfg.burstConn),
    ("target-request-count", fun cfg => cfg.targetRequestCount),
    ("wait-time-request-msec", fun cfg => cfg.waitTimePreHttpReqMsec),
    ("target-total-nconn-count", fun cfg => cfg.targetTotalNconnCount),
    ("http-keepalive", fun cfg => cfg.httpKeepalive),
    ("running-period", fun cfg => cfg.runningPeriodSec),
    ("waiting-period", fun cfg => cfg.waitingPeriodSec),
    ("number-threads", fun cfg => cfg.numThreads),
    ("target-request-rate", fun cfg => cfg.targetRequestRate)]

/-- The options for the addresses, in order, and for the strings that are there. -/
def textOptions (cfg : MgrConfig) : List (String × String) :=
  cfg.ipv4Dst.ipv4.map (fun addr => ("host-ip", addr)) ++
    (cfg.hostHdr.toList.map (fun hdr => ("host-hdr", hdr)) ++
      cfg.uri.toList.map (fun uri => ("uri", uri)))

def numberOptions (cfg : MgrConfig) : List (String × String) :=
  numberFields.map fun field => (field.1, String.ofList (signedDecimal (field.2 cfg)))

/-- The options that ask for a configuration. -/
def optionsOf (cfg : MgrConfig) : List (String × String) :=
  textOptions cfg ++ numberOptions cfg

/-- The configurations that `parse_opts` can produce: the numbers are `int`s, the
addresses fit into their array and none of them has been used, and there is no
limit on all requests, since `parse_opts` has no case for its option. -/
structure MgrConfig.Writable (cfg : MgrConfig) : Prop where
  numbers : ∀ field ∈ numberFields, IsInt32 (field.2 cfg)
  room : cfg.ipv4Dst.ipv4.length ≤ cfgIpv4ArrayMax
  cursor : cfg.ipv4Dst.cur = 0
  unlimited : cfg.targetGlobalRequestCount = -1

/-- Those that pass the check for a minimum. -/
structure MgrConfig.Startable (cfg : MgrConfig) : Prop extends cfg.Writable where
  hosts : cfg.ipv4Dst.ipv4 ≠ []
  path : cfg.uri ≠ none
  port : cfg.port ≠ -1

/-! ## Reading what was written -/

theorem keys_numberOptions (cfg : MgrConfig) :
    (numberOptions cfg).map Prod.fst = numberFields.map Prod.fst := by
  rw [numberOptions, List.map_map]
  rfl

theorem numberOption_optionsOf {cfg : MgrConfig} (hcfg : cfg.Writable)
    {field : String × (MgrConfig → ℤ)} (hfield : field ∈ numberFields) (default : ℤ) :
    numberOption field.1 default (optionsOf cfg) = field.2 cfg := by
  have hnodup : ((numberOptions cfg).map Prod.fst).Nodup := by
    rw [keys_numberOptions]
    decide
  have hwritten : (field.1, String.ofList (signedDecimal (field.2 cfg))) ∈ numberOptions cfg :=
    List.mem_map_of_mem hfield
  rw [numberOption, optionsOf, lastValue_append, lastValue_of_mem hnodup hwritten,
    Option.some_or, Option.map_some, Option.getD_some,
    atoi_signedDecimal (hcfg.numbers field hfield)]

theorem values_optionsOf (cfg : MgrConfig) {name : String}
    (hname : name ∉ numberFields.map Prod.fst) :
    values name (optionsOf cfg) =
      (if "host-ip" = name then cfg.ipv4Dst.ipv4 else []) ++
        ((if "host-hdr" = name then cfg.hostHdr.toList else []) ++
          (if "uri" = name then cfg.uri.toList else [])) := by
  have hnone : values name (numberOptions cfg) = [] :=
    values_eq_nil (by rwa [keys_numberOptions])
  rw [optionsOf, textOptions, values_append, values_append, values_append, hnone,
    List.append_nil, values_map_const, values_map_const, values_map_const, List.map_id',
    List.map_id', List.map_id']

theorem getLast?_toList {α : Type*} (o : Option α) : o.toList.getLast? = o := by
  cases o <;> rfl

theorem requestedConfig_optionsOf {cfg : MgrConfig} (hcfg : cfg.Writable) :
    requestedConfig (optionsOf cfg) = cfg := by
  have hnumbers : ∀ field ∈ numberFields, ∀ default,
      numberOption field.1 default (optionsOf cfg) = field.2 cfg := fun _ hfield default =>
    numberOption_optionsOf hcfg hfield default
  have hglobal : numberOption "target-global-request-count" (-1) (optionsOf cfg) =
      cfg.targetGlobalRequestCount := by
    rw [numberOption, lastValue, values_optionsOf cfg (by decide), hcfg.unlimited]
    rfl
  have hhosts : (⟨values "host-ip" (optionsOf cfg), 0⟩ : CfgIpv4Array) = cfg.ipv4Dst := by
    rw [values_optionsOf cfg (by decide), if_pos rfl, if_neg (by decide), if_neg (by decide),
      List.append_nil, List.append_nil, ← hcfg.cursor]
  have hhdr : lastValue "host-hdr" (optionsOf cfg) = cfg.hostHdr := by
    rw [lastValue, values_optionsOf cfg (by decide), if_neg (by decide), if_pos rfl,
      if_neg (by decide), List.append_nil, List.nil_append, getLast?_toList]
  have huri : lastValue "uri" (optionsOf cfg) = cfg.uri := by
    rw [lastValue, values_optionsOf cfg (by decide), if_neg (by decide), if_neg (by decide),
      if_pos rfl, List.nil_append, List.nil_append, getLast?_toList]
  simp only [numberFields, List.forall_mem_cons] at hnumbers
  simp only [requestedConfig, hnumbers, hglobal, hhosts, hhdr, huri]

/-- The names of the options that are written. -/
def writtenNames : List String :=
  ["host-ip", "host-hdr", "uri"] ++ numberFields.map Prod.fst

theorem mem_writtenNames {cfg : MgrConfig} {o : String × String} (ho : o ∈ optionsOf cfg) :
    o.1 ∈ writtenNames := by
  rcases List.mem_append.mp ho with htext | hnumber
  · refine List.mem_append_left _ ?_
    simp only [textOptions, List.mem_append, List.mem_map] at htext
    rcases htext with ⟨_, -, rfl⟩ | ⟨_, -, rfl⟩ | ⟨_, -, rfl⟩ <;> simp
  · refine List.mem_append_right _ ?_
    rw [← keys_numberOptions cfg]
    exact List.mem_map_of_mem hnumber

/-- Every option that is written is one of the program's, and has a case. -/
theorem declared_writtenNames : ∀ name ∈ writtenNames,
    DeclaredOption name ∧ name ≠ "target-global-request-count" := by
  decide

/-- `parse_opts` reads a configuration that was written. -/
theorem parseOpts_optionsOf {cfg : MgrConfig} (hcfg : cfg.Writable) :
    parseOpts (withValues (optionsOf cfg)) (mgrConfigDefaults MgrConfig.zero) = .ok cfg := by
  have hroom : (values "host-ip" ([] ++ optionsOf cfg)).length ≤ cfgIpv4ArrayMax := by
    rw [List.nil_append, values_optionsOf cfg (by decide), if_pos rfl, if_neg (by decide),
      if_neg (by decide), List.append_nil, List.append_nil]
    exact hcfg.room
  rw [← requestedConfig_nil, parseOpts_requestedConfig
    (fun o ho => (declared_writtenNames o.1 (mem_writtenNames ho)).1)
    (fun o ho => (declared_writtenNames o.1 (mem_writtenNames ho)).2) [] hroom,
    List.nil_append, requestedConfig_optionsOf hcfg]

/-! ## What the loop can produce -/

theorem writable_defaults : (mgrConfigDefaults MgrConfig.zero).Writable where
  numbers := by
    simp only [numberFields, List.forall_mem_cons]
    decide
  room := by decide
  cursor := rfl
  unlimited := rfl

/-- What one argument does to the numbers: each is left as it is, or becomes the
value that `atoi` reads. -/
theorem parseOpt_numbers {ch : OptCode} {v : String} {cfg cfg' : MgrConfig}
    (hok : parseOpt ch v cfg = .ok cfg') :
    (∀ field ∈ numberFields, field.2 cfg' = field.2 cfg ∨ field.2 cfg' = atoi v) ∧
      cfg'.targetGlobalRequestCount = cfg.targetGlobalRequestCount := by
  by_cases hip : ch = .hostIp
  · subst hip
    by_cases hroom : cfg.ipv4Dst.ipv4.length < cfgIpv4ArrayMax
    · rw [parseOpt_hostIp hroom] at hok
      obtain rfl := Except.ok.inj hok
      simp [numberFields]
    · simp [parseOpt, cfgIpv4ArrayAdd, not_lt.mp hroom] at hok
  · cases ch <;> simp [parseOpt] at hip hok <;> subst hok <;> simp [numberFields]

theorem MgrConfig.Writable.parseOpt {ch : OptCode} {v : String} {cfg cfg' : MgrConfig}
    (hcfg : cfg.Writable) (hok : parseOpt ch v cfg = .ok cfg') : cfg'.Writable := by
  obtain ⟨hnumbers, hglobal⟩ := parseOpt_numbers hok
  obtain ⟨hroom, hcursor⟩ : cfg'.ipv4Dst.ipv4.length ≤ cfgIpv4ArrayMax ∧
      cfg'.ipv4Dst.cur = 0 := by
    rcases parseOpt_ipv4Dst hok with hsame | ⟨hless, hadd⟩
    · rw [hsame]
      exact ⟨hcfg.room, hcfg.cursor⟩
    · rw [hadd, List.length_append, List.length_singleton]
      exact ⟨hless, hcfg.cursor⟩
  refine ⟨fun field hfield => ?_, hroom, hcursor, hglobal.trans hcfg.unlimited⟩
  rcases hnumbers field hfield with hsame | hread
  · rw [hsame]
    exact hcfg.numbers field hfield
  · rw [hread]
    exact isInt32_int32 _

theorem MgrConfig.Writable.parseOpts {args : List Arg} {cfg cfg' : MgrConfig}
    (hcfg : cfg.Writable) (hok : parseOpts args cfg = .ok cfg') : cfg'.Writable := by
  induction args generalizing cfg with
  | nil =>
      obtain rfl := Except.ok.inj hok
      exact hcfg
  | cons arg args ih =>
      rw [Client.parseOpts] at hok
      split at hok
      · exact absurd hok (by simp)
      · rename_i cfg₁ hstep
        exact ih (hcfg.parseOpt hstep) hok

theorem mainConfig_of_parseOpts {args : List Arg} {cfg : MgrConfig}
    (hparse : parseOpts args (mgrConfigDefaults MgrConfig.zero) = .ok cfg) :
    mainConfig args = some cfg ↔
      cfg.ipv4Dst.ipv4 ≠ [] ∧ cfg.uri ≠ none ∧ cfg.port ≠ -1 := by
  rw [mainConfig, hparse]
  simp [cfgIpv4ArrayNentries, List.length_eq_zero_iff, not_or]

theorem startable_of_mainConfig {args : List Arg} {cfg : MgrConfig}
    (hmain : mainConfig args = some cfg) : cfg.Startable := by
  obtain ⟨hhosts, -, -, huri, hport⟩ := mainConfig_spec hmain
  rw [mainConfig] at hmain
  split at hmain
  · exact absurd hmain (by simp)
  · rename_i cfg₁ hparse
    obtain ⟨-, hsame⟩ := Option.ite_none_left_eq_some.mp hmain
    obtain rfl := Option.some.inj hsame
    exact ⟨writable_defaults.parseOpts hparse, hhosts, huri, hport⟩

theorem mainConfig_optionsOf {cfg : MgrConfig} (hcfg : cfg.Startable) :
    mainConfig (withValues (optionsOf cfg)) = some cfg :=
  (mainConfig_of_parseOpts (parseOpts_optionsOf hcfg.toWritable)).mpr
    ⟨hcfg.hosts, hcfg.path, hcfg.port⟩

/-! ## The threads -/

/-- The system has what `main` asks for with `n` workers. -/
structure Resources.Suffices (sys : Resources) (n : ℕ) : Prop where
  size : n * sys.cltThrSize < 2 ^ 64
  threads : sys.threads n = true
  managers : ∀ i < n, sys.manager i = true
  workerThreads : ∀ i < n, sys.workerThread i = true
  statsThread : sys.statsThread = true

/-- The array of the workers: a negative number of them is a `size_t` for which there
is no array. -/
theorem calloc_eq_true_iff (sys : Resources) {x : ℤ} (hx : IsInt32 x) :
    calloc (sys.threads (uint64OfInt x)) (uint64OfInt x) sys.cltThrSize = true ↔
      0 ≤ x ∧ x.toNat * sys.cltThrSize < 2 ^ 64 ∧ sys.threads x.toNat = true := by
  obtain ⟨hlo, hhi⟩ := isInt32_iff.mp hx
  by_cases hneg : x < 0
  · have hnumber : uint64OfInt x = 2 ^ 64 - x.natAbs := by
      unfold uint64OfInt
      omega
    have hsize : 2 * uint64OfInt x ≤ uint64OfInt x * sys.cltThrSize := by
      rw [Nat.mul_comm]
      exact Nat.mul_le_mul_left _ sys.one_lt_cltThrSize
    have hlarge : ¬ uint64OfInt x * sys.cltThrSize < 2 ^ 64 := by
      omega
    rw [calloc, decide_eq_false hlarge, Bool.false_and]
    exact iff_of_false Bool.false_ne_true fun h => not_le.mpr hneg h.1
  · have hnumber : uint64OfInt x = x.toNat := by
      unfold uint64OfInt
      omega
    simp [calloc, hnumber, not_lt.mp hneg]

theorem mainStart_eq_some_iff {sys : Resources} {args : List Arg} {cfg : MgrConfig} :
    mainStart sys args = some cfg ↔ mainConfig args = some cfg ∧
      0 ≤ cfg.numThreads ∧ sys.Suffices cfg.numThreads.toNat := by
  rw [mainStart]
  split
  · rename_i hnone
    simp [hnone]
  · rename_i cfg₁ hsome
    have hint : IsInt32 cfg₁.numThreads :=
      (startable_of_mainConfig hsome).numbers ("number-threads", fun cfg => cfg.numThreads)
        (by simp [numberFields])
    have harray := calloc_eq_true_iff sys hint
    simp only [Option.ite_none_left_eq_some, Bool.not_eq_false, harray, not_exists, not_and,
      hsome, Option.some.injEq]
    constructor
    · rintro ⟨⟨hnonneg, hsize, hthreads⟩, hmanagers, hworkers, hstats, rfl⟩
      exact ⟨rfl, hnonneg, hsize, hthreads, hmanagers, hworkers, hstats⟩
    · rintro ⟨rfl, hnonneg, hsuffices⟩
      exact ⟨⟨hnonneg, hsuffices.size, hsuffices.threads⟩, hsuffices.managers,
        hsuffices.workerThreads, hsuffices.statsThread, rfl⟩

/-! ## The configurations of the program -/

/-- The configurations with which `main` starts its threads, whatever its arguments
are, are exactly those with addresses, a path and a port whose numbers are `int`s, with
at most 16 addresses, none of them used yet, without a limit on all requests, and with
a number of workers that is not negative and for which the system has what they need;
and each of them is what the command line written for it asks for. -/
theorem startable_iff {sys : Resources} {cfg : MgrConfig} :
    ((∃ args, mainStart sys args = some cfg) ↔
      cfg.Startable ∧ 0 ≤ cfg.numThreads ∧ sys.Suffices cfg.numThreads.toNat) ∧
      (mainStart sys (withValues (optionsOf cfg)) = some cfg ↔
        cfg.Startable ∧ 0 ≤ cfg.numThreads ∧ sys.Suffices cfg.numThreads.toNat) := by
  have hstart : ∀ args, mainStart sys args = some cfg →
      cfg.Startable ∧ 0 ≤ cfg.numThreads ∧ sys.Suffices cfg.numThreads.toNat := by
    intro args hmain
    obtain ⟨hconfig, hthreads⟩ := mainStart_eq_some_iff.mp hmain
    exact ⟨startable_of_mainConfig hconfig, hthreads⟩
  have hwritten : cfg.Startable ∧ 0 ≤ cfg.numThreads ∧ sys.Suffices cfg.numThreads.toNat →
      mainStart sys (withValues (optionsOf cfg)) = some cfg := by
    rintro ⟨hcfg, hthreads⟩
    exact mainStart_eq_some_iff.mpr ⟨mainConfig_optionsOf hcfg, hthreads⟩
  refine ⟨⟨?_, fun hcfg => ⟨_, hwritten hcfg⟩⟩, hstart _, hwritten⟩
  rintro ⟨args, hmain⟩
  exact hstart args hmain

end EvhtpHttp.Client

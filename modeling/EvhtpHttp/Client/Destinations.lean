import EvhtpHttp.Client.Evolution
import EvhtpHttp.Support.RoundRobin

/-!
# The addresses that a manager connects to

The attempts of a run that get as far as `cfg_ipv4_array_get_next` read the array
of addresses as a ring.
-/

namespace EvhtpHttp.Client

open EvhtpHttp.Support

/-- The array that `cfg_ipv4_array_add` makes of these addresses, out of an empty
one. -/
def collected (addrs : List String) : CfgIpv4Array :=
  addrs.foldl (fun a addr => (cfgIpv4ArrayAdd a addr).1) CfgIpv4Array.zero

/-- The address that an attempt reads, with its place in the array; an attempt that
fails a check or finds no memory for the connection reads none. -/
def addressUse : AllocOk × CltMgr → List (ℕ × String)
  | (ok, m) =>
    if cltMgrCheckCreateConn m && m.pacerCheck && ok .mgrConn then
      ((cfgIpv4ArrayGetNext m.cfg.ipv4Dst).map fun next => (m.cfg.ipv4Dst.cur, next.1)).toList
    else []

/-- The addresses read in a run, in their order. -/
def addressUses (cfg : MgrConfig) (es : List LoopEvent) : List (ℕ × String) :=
  (cltMgrSystem cfg).emitted (fun e m => (attempts e m).flatMap addressUse) es

/-! ## The array -/

/-- The array with the entries and the cursor of a ring. -/
def CfgIpv4Array.ofRing (r : RoundRobin String) : CfgIpv4Array where
  ipv4 := r.entries
  cur := r.cur

theorem cfgIpv4ArrayGetNext_ofRing (r : RoundRobin String) :
    cfgIpv4ArrayGetNext (CfgIpv4Array.ofRing r) =
      some (r.head, CfgIpv4Array.ofRing r.next) := by
  have hcur : r.entries[r.cur]? = some r.head := List.getElem?_eq_getElem r.cur_lt
  exact cfgIpv4ArrayGetNext_eq_some.mpr ⟨hcur, rfl⟩

theorem collected_concat {addrs : List String} (addr : String)
    (hlist : (collected addrs).ipv4 = addrs) (hroom : addrs.length < cfgIpv4ArrayMax) :
    cfgIpv4ArrayAdd (collected addrs) addr =
      ({ collected addrs with ipv4 := addrs ++ [addr] }, 0) := by
  have hfull : ¬ (collected addrs).ipv4.length ≥ cfgIpv4ArrayMax := by
    rw [hlist]
    exact Nat.not_le.mpr hroom
  rw [cfgIpv4ArrayAdd, if_neg hfull, hlist]

theorem collected_eq {addrs : List String} (h : addrs.length ≤ cfgIpv4ArrayMax) :
    collected addrs = ⟨addrs, 0⟩ := by
  induction addrs using List.reverseRecOn with
  | nil => rfl
  | append_singleton addrs addr ih =>
      rw [List.length_append, List.length_singleton] at h
      have hlist := ih (Nat.le_of_succ_le h)
      have hadd := collected_concat addr (by rw [hlist]) h
      have hfold : collected (addrs ++ [addr]) = (cfgIpv4ArrayAdd (collected addrs) addr).1 :=
        List.foldl_concat ..
      rw [hfold, hadd, hlist]

/-! ## Runs -/

section Reads

variable {r : RoundRobin String} {m m' : CltMgr}

theorem TryCreate.reads {ok : AllocOk} {rc : ℤ} (h : TryCreate ok m m' rc)
    (hr : m.cfg.ipv4Dst = CfgIpv4Array.ofRing r) :
    ∃ k, addressUse (ok, m) = r.reads k ∧
      m'.cfg.ipv4Dst = CfgIpv4Array.ofRing (RoundRobin.next^[k] r) := by
  have hone : ∀ {addr : String} {dst : CfgIpv4Array}, cltMgrCheckCreateConn m = true →
      m.pacerCheck = true → ok .mgrConn = true →
      cfgIpv4ArrayGetNext m.cfg.ipv4Dst = some (addr, dst) →
      addressUse (ok, m) = r.reads 1 ∧ dst = CfgIpv4Array.ofRing (RoundRobin.next^[1] r) := by
    intro addr dst hcheck hpace hmgr hnext
    have hread := cfgIpv4ArrayGetNext_ofRing r
    rw [← hr, hnext] at hread
    obtain ⟨rfl, rfl⟩ := Prod.mk.inj (Option.some.inj hread)
    have huse : addressUse (ok, m) = [(m.cfg.ipv4Dst.cur, r.head)] := by
      simp [addressUse, hcheck, hpace, hmgr, hnext]
    rw [huse, hr]
    exact ⟨rfl, rfl⟩
  cases h with
  | refused hchecks =>
      refine ⟨0, ?_, hr⟩
      rw [addressUse, if_neg, RoundRobin.reads_zero]
      intro hall
      rw [Bool.and_eq_true, Bool.and_eq_true] at hall
      exact hchecks hall.1
  | noMemory _ _ hmgr => exact ⟨0, by simp [addressUse, hmgr, RoundRobin.reads_zero], hr⟩
  | failed hcheck hpace hmgr hnext => exact ⟨1, hone hcheck hpace hmgr hnext⟩
  | opened hcheck hpace hall _ hnext =>
      exact ⟨1, hone hcheck hpace (hall .mgrConn (by decide)) hnext⟩

theorem Evolves.reads {tries : List (AllocOk × CltMgr)} (h : Evolves m tries m')
    (hr : m.cfg.ipv4Dst = CfgIpv4Array.ofRing r) :
    ∃ k, tries.flatMap addressUse = r.reads k ∧
      m'.cfg.ipv4Dst = CfgIpv4Array.ofRing (RoundRobin.next^[k] r) := by
  induction h generalizing r with
  | quiet h => exact ⟨0, rfl, by rw [h.cfg]; exact hr⟩
  | attempt hbefore htry _ ih =>
      obtain ⟨k, huse, hdst⟩ := htry.reads (by rw [hbefore.cfg]; exact hr)
      obtain ⟨l, huses, hdst'⟩ := ih hdst
      refine ⟨k + l, ?_, ?_⟩
      · rw [List.flatMap_cons, huse, huses, RoundRobin.reads_add]
      · rw [hdst', Nat.add_comm, Function.iterate_add_apply]

/-- A run reads the array as a ring, wherever the cursor starts. -/
theorem addressUses_eq_reads {cfg : MgrConfig} {es : List LoopEvent}
    (hcfg : cfg.ipv4Dst = CfgIpv4Array.ofRing r) (hrun : (cltMgrSystem cfg).run es = some m) :
    ∃ k, addressUses cfg es = r.reads k ∧
      m.cfg.ipv4Dst = CfgIpv4Array.ofRing (RoundRobin.next^[k] r) := by
  refine (cltMgrSystem cfg).run_induction (P := fun es m => ∃ k, addressUses cfg es = r.reads k ∧
    m.cfg.ipv4Dst = CfgIpv4Array.ofRing (RoundRobin.next^[k] r)) ?_ ?_ es m hrun
  · exact ⟨0, rfl, by rw [(init_spec cfg).1]; exact hcfg⟩
  · rintro es e m m' hes ⟨k, huses, hdst⟩ he
    have hm := cltMgrOk_of_reachable ⟨es, hes⟩
    obtain ⟨l, hmore, hdst'⟩ := (cltMgrStep_evolves hm he).reads hdst
    refine ⟨k + l, ?_, ?_⟩
    · rw [addressUses, System.emitted_concat _ _ hes, hmore, RoundRobin.reads_add]
      exact congrArg (· ++ _) huses
    · rw [hdst', Nat.add_comm, Function.iterate_add_apply]

end Reads

/-- The connection that `clt_mgr_conn_try_create` opens for an attempt goes to the
address that the attempt reads. -/
def Connects (attempt : AllocOk × CltMgr) : Prop :=
  ∀ m, cltMgrConnTryCreate attempt.1 attempt.2 = some (m, 0) →
    ∃ c ∈ m.mgrConnList, c.id = attempt.2.nextId ∧
      ∃ con place, c.req.con = some con ∧ addressUse attempt = [(place, con.addr)]

theorem connects (ok : AllocOk) (m : CltMgr) : Connects (ok, m) := by
  intro m' h
  have huse : ∀ {addr : String} {dst : CfgIpv4Array}, cltMgrCheckCreateConn m = true →
      m.pacerCheck = true → (∀ b ∈ connBlocks, ok b = true) →
      cfgIpv4ArrayGetNext m.cfg.ipv4Dst = some (addr, dst) →
      addressUse (ok, m) = [(m.cfg.ipv4Dst.cur, addr)] := by
    intro addr dst hcheck hpace hall hnext
    simp [addressUse, hcheck, hpace, hall .mgrConn (by decide), hnext]
  rcases cltMgrConnTryCreate_eq_some h with htry | ⟨addr, dst, hcheck, hpace, hall, -, hnext, -, rfl⟩
  · generalize hrc : (0 : ℤ) = rc at htry
    cases htry with
    | refused => omega
    | noMemory => omega
    | failed => omega
    | @opened addr dst hcheck hpace hall hnew hnext =>
        exact ⟨startedConn ok addr m, by simp [CltMgr.opened], rfl, _, _, rfl,
          huse hcheck hpace hall hnext⟩
  · refine ⟨startedConn ok addr m, ?_, rfl, _, _, rfl, huse hcheck hpace hall hnext⟩
    exact List.mem_map.mpr ⟨newConn ok addr m, by simp [CltMgr.opened], if_pos rfl⟩

/-- In every run of a manager the attempts that read an address read the addresses
in turn, in the order they were given in, and no two places are read more than once
apart; the cursor stays inside the array, which is not empty.  A connection that an
attempt opens goes to the address it has read. -/
theorem balanced_destinations {addrs : List String} (hne : 1 ≤ addrs.length)
    (hmax : addrs.length ≤ cfgIpv4ArrayMax) {cfg : MgrConfig}
    (hdst : cfg.ipv4Dst = cfgIpv4ArrayDup CfgIpv4Array.zero (collected addrs))
    {es : List LoopEvent} {m : CltMgr} (hrun : (cltMgrSystem cfg).run es = some m) :
    (∀ j < (addressUses cfg es).length, (addressUses cfg es)[j]? =
        (addrs[j % addrs.length]?).map fun addr => (j % addrs.length, addr)) ∧
      m.cfg.ipv4Dst.cur < addrs.length ∧ m.cfg.ipv4Dst.ipv4 = addrs ∧
      cfgIpv4ArrayNentries m.cfg.ipv4Dst ≠ 0 ∧
      (∀ k i i', i < addrs.length → i' < addrs.length →
        (((addressUses cfg es).take k).map Prod.fst).count i ≤
          (((addressUses cfg es).take k).map Prod.fst).count i' + 1) ∧
      ∀ attempt ∈ (cltMgrSystem cfg).emitted attempts es, Connects attempt := by
  let r : RoundRobin String := ⟨addrs, 0, hne⟩
  have hring : cfg.ipv4Dst = CfgIpv4Array.ofRing r := by
    rw [hdst, collected_eq hmax]
    rfl
  obtain ⟨k, huses, hdst'⟩ := addressUses_eq_reads hring hrun
  have hipv4 : m.cfg.ipv4Dst.ipv4 = addrs := by
    rw [hdst']
    exact r.iterate_next_entries k
  have hcur : m.cfg.ipv4Dst.cur < addrs.length := by
    have hlt := (RoundRobin.next^[k] r).cur_lt
    rw [r.iterate_next_entries k] at hlt
    rw [hdst']
    exact hlt
  refine ⟨?_, hcur, hipv4, ?_, ?_, fun attempt _ => connects attempt.1 attempt.2⟩
  · intro j hj
    rw [huses, RoundRobin.length_reads] at hj
    rw [huses, r.getElem?_reads hj]
    simp [r]
  · rw [cfgIpv4ArrayNentries, hipv4]
    exact Nat.pos_iff_ne_zero.mp hne
  · intro l i i' hi hi'
    rw [huses, RoundRobin.take_reads]
    exact r.count_reads_balanced hi hi' _

/-- The configuration of the only worker of a program that was given two addresses. -/
def twoHosts : MgrConfig :=
  workerConfig { oneHostConfig with ipv4Dst := collected ["10.0.0.1", "10.0.0.2"] }

/-- A tick whose attempt finds no memory for the request, then one that opens two
connections. -/
def failThenOpen : List LoopEvent :=
  [.timer fun _ b => b ≠ .clientReq, .timer fun _ => allocAll]

/-- The first connections are opened to the second address and the first, since the
attempt that failed had read the first one before. -/
theorem balanced_destinations_two_hosts :
    ∃ m, (cltMgrSystem twoHosts).run failThenOpen = some m ∧
      addressUses twoHosts failThenOpen = [(0, "10.0.0.1"), (1, "10.0.0.2"), (0, "10.0.0.1")] ∧
      m.cfg.ipv4Dst.cur < 2 := by
  have hrun : ∃ m, (cltMgrSystem twoHosts).run failThenOpen = some m := ⟨_, rfl⟩
  obtain ⟨m, hm⟩ := hrun
  have hne : 1 ≤ ["10.0.0.1", "10.0.0.2"].length := by decide
  obtain ⟨-, hcur, -⟩ := balanced_destinations hne (by decide) rfl hm
  exact ⟨m, hm, rfl, hcur⟩

end EvhtpHttp.Client

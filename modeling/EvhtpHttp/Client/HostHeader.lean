import EvhtpHttp.Client.Evolution
import EvhtpHttp.Client.Options

/-!
# The `Host` header

Which `Host` header the requests of a run carry, from the command line to
`clt_req_create`.
-/

namespace EvhtpHttp.Client

open EvhtpHttp.Support

/-- The value of the first `Host` header of a request. -/
def hostHeader (x : EvhtpRequest) : Option String :=
  x.headersOut.lookup "Host"

/-! ## One request -/

/-- The connection goes to the address it was created with, and the requests made on
it name that address. -/
structure Paired (r : ClientReq) : Prop where
  hostHdr : r.hostHdr = r.hostIp
  addr : ∀ con, r.con = some con → con.addr = r.hostIp
  headersOut : ∀ headers ∈ r.requests.map EvhtpRequest.headersOut,
    ∃ keepalive, headers = reqHeaders r.hostIp keepalive

theorem FreshReq.paired {r : ClientReq} (h : FreshReq r) : Paired r := by
  obtain ⟨ok, addr, port, rfl⟩ := h.eq_new
  refine ⟨rfl, ?_, by simp [newClientReq]⟩
  intro con hcon
  obtain rfl := Option.some.inj hcon
  rfl

theorem ReqCall.addr {e : ReqEvent} {r r' : ClientReq} (h : ReqCall e r r') (hr : Linked r)
    (he : e.isCreate = false) {con' : EvhtpConnection} (hcon' : r'.con = some con') :
    ∃ con, r.con = some con ∧ con'.addr = con.addr := by
  have hclosed : r'.con = none → ∃ con, r.con = some con ∧ con'.addr = con.addr := by
    intro hnone
    rw [hnone] at hcon'
    exact absurd hcon'.symm (Option.some_ne_none con')
  cases h with
  | create => exact absurd he (by simp [ReqEvent.isCreate])
  | data hq h =>
      obtain ⟨hsame, -⟩ := cltUpstreamData_spec h
      exact ⟨con', hsame.symm.trans hcon', rfl⟩
  | error hq h =>
      obtain ⟨-, rfl⟩ := cltUpstreamError_spec h
      exact ⟨con', hcon', rfl⟩
  | complete hcon hq h =>
      obtain ⟨-, con, -, -, hcon, hdone, -⟩ := cltReqCb_spec h
      obtain rfl := Option.some.inj (hdone.symm.trans hcon')
      exact ⟨con, hcon, rfl⟩
  | timeout => exact ⟨con', hcon', rfl⟩
  | close hopen h =>
      obtain ⟨con, hcon⟩ := Option.ne_none_iff_exists'.mp hopen
      exact hclosed
        (evhtpConnectionFree_spec hcon (hr.finiHook con hcon) (hr.request con hcon) h).1
  | destroy h =>
      by_cases hcon : r.con = none
      · exact hclosed (cltConnDestroy_closed hr hcon h).2.1
      · obtain ⟨con, hcon⟩ := Option.ne_none_iff_exists'.mp hcon
        exact hclosed (cltConnDestroy_open hr hcon h).2.1

theorem Paired.call {e : ReqEvent} {r r' : ClientReq} (hr : Paired r) (hlinked : Linked r)
    (he : e.isCreate = false) (h : ReqCall e r r') : Paired r' := by
  have hframed := h.framed hlinked he
  refine ⟨?_, ?_, ?_⟩
  · rw [hframed.hostHdr, hframed.hostIp, hr.hostHdr]
  · intro con' hcon'
    obtain ⟨con, hcon, haddr⟩ := h.addr hlinked he hcon'
    rw [haddr, hframed.hostIp, hr.addr con hcon]
  · rw [hframed.headersOut, hframed.hostIp]
    exact hr.headersOut

theorem Paired.create {strdupOk newOk : Bool} {uri : Option String} {keepalive rc : ℤ}
    {r r' : ClientReq} (hr : Paired r) (hopen : r.con ≠ none) (hidle : r.req = none)
    (h : cltReqCreate strdupOk newOk uri keepalive r = some (r', rc)) : Paired r' := by
  obtain ⟨con, hcon⟩ := Option.ne_none_iff_exists'.mp hopen
  obtain huri | ⟨path, huri⟩ := Option.eq_none_or_eq_some uri
  · simp [cltReqCreate, hcon, hidle, huri] at h
  have haddr : ∀ con', some con = some con' → con'.addr = r.hostIp := by
    rw [← hcon]
    exact hr.addr
  simp only [cltReqCreate, hcon, hidle, huri] at h
  split at h
  · obtain ⟨rfl, -⟩ := Prod.mk.inj (Option.some.inj h)
    exact ⟨hr.hostHdr, haddr, hr.headersOut⟩
  split at h
  · obtain ⟨rfl, -⟩ := Prod.mk.inj (Option.some.inj h)
    exact ⟨hr.hostHdr, haddr, hr.headersOut⟩
  · obtain ⟨rfl, -⟩ := Prod.mk.inj (Option.some.inj h)
    refine ⟨hr.hostHdr, ?_, ?_⟩
    · intro con' hcon'
      obtain rfl := Option.some.inj hcon'
      exact haddr con rfl
    · intro headers hheaders
      rw [List.map_append, List.mem_append] at hheaders
      rcases hheaders with hold | hnew
      · exact hr.headersOut headers hold
      · obtain rfl := List.mem_singleton.mp hnew
        exact ⟨keepalive, by rw [hr.hostHdr]⟩

/-! ## Every manager -/

theorem paired_of_reachable {cfg : MgrConfig} {m : CltMgr}
    (h : (cltMgrSystem cfg).Reachable m) :
    ∀ c ∈ m.mgrConnList ++ m.freedConns, Paired c.req := by
  intro c hc
  refine (request_invariant (P := Paired) (fun r hr => hr.paired) ?_ ?_ h c hc).2
  · intro strdupOk newOk uri keepalive rc r r' hopen hidle hr hcreate
    exact hr.create hopen hidle hcreate
  · intro e r r' he hlinked hr hcall
    exact hr.call hlinked he hcall

theorem Paired.hostHeader {r : ClientReq} (hr : Paired r) {q : EvhtpRequest}
    (hq : q ∈ r.requests) : hostHeader q = some r.hostIp := by
  obtain ⟨keepalive, hheaders⟩ := hr.headersOut _ (List.mem_map_of_mem hq)
  simp [Client.hostHeader, hheaders, reqHeaders]

/-- Whatever the command line, every connection of every worker goes to one of the
addresses given, and the `Host` header of a request is the value of `--host-hdr`, or
that address without one, exactly when the two are the same. -/
theorem host_header_iff {args : List Arg} {cfg : MgrConfig} (hargs : mainConfig args = some cfg)
    {s : Fin cfg.numThreads.toNat → CltMgr} (hs : (workers cfg).Reachable s)
    (i : Fin cfg.numThreads.toNat) {c : CltMgrConn}
    (hc : c ∈ (s i).mgrConnList ++ (s i).freedConns) :
    c.req.hostIp ∈ values .hostIp (args.map getoptLong) ∧
      (∀ con, c.req.con = some con → con.addr = c.req.hostIp) ∧
      ∀ q ∈ c.req.requests,
        (hostHeader q =
            some ((lastValue .hostHdr (args.map getoptLong)).getD c.req.hostIp) ↔
          ∀ host, lastValue .hostHdr (args.map getoptLong) = some host →
            host = c.req.hostIp) := by
  have hreach := System.interleave_component_reachable hs i
  have hpaired := paired_of_reachable hreach c hc
  refine ⟨?_, hpaired.addr, fun q hq => ?_⟩
  · rw [← (mainConfig_hosts hargs).2]
    exact (sourced_of_reachable hreach).hostIp c hc
  · rw [hpaired.hostHeader hq, Option.some.injEq]
    obtain hnone | ⟨host, hsome⟩ :=
      Option.eq_none_or_eq_some (lastValue OptCode.hostHdr (args.map getoptLong))
    · simp [hnone]
    · simp [hsome, eq_comm]

/-- A command line with one address, a port and a path, and more options. -/
def commandLine (opts : List (String × String)) : List Arg :=
  withValues ([("host-ip", "10.0.0.1"), ("port", "8080"), ("uri", "/size")] ++ opts)

/-- The first request of a manager: a tick opens a connection, and its event is
delivered. -/
def firstRequest : List LoopEvent :=
  [.timer fun _ => allocAll, .newHttpReq 0 true true]

/-- Without `--host-hdr` the first request names the address. -/
theorem host_header_default :
    ∃ cfg, mainConfig (commandLine []) = some cfg ∧
      ∃ (i : Fin cfg.numThreads.toNat) (s : Fin cfg.numThreads.toNat → CltMgr),
        (workers cfg).run (firstRequest.map fun e => (i, e)) = some s ∧
        ∃ c ∈ (s i).mgrConnList, c.req.hostIp = "10.0.0.1" ∧
          ∃ q ∈ c.req.requests, hostHeader q = some "10.0.0.1" := by
  have hrun : ∃ cfg, mainConfig (commandLine []) = some cfg ∧
      ∃ (i : Fin cfg.numThreads.toNat) (s : Fin cfg.numThreads.toNat → CltMgr),
        (workers cfg).run (firstRequest.map fun e => (i, e)) = some s ∧
        ∃ c ∈ (s i).mgrConnList, c.req.hostIp = "10.0.0.1" ∧ ∃ q, q ∈ c.req.requests :=
    ⟨_, rfl, ⟨0, by decide⟩, _, rfl, _, List.mem_cons_self, rfl, _, List.mem_cons_self⟩
  obtain ⟨cfg, hcfg, i, s, hs, c, hc, hip, q, hq⟩ := hrun
  obtain ⟨-, -, hheader⟩ := host_header_iff hcfg ⟨_, hs⟩ i (List.mem_append_left _ hc)
  have hnone : lastValue OptCode.hostHdr ((commandLine []).map getoptLong) = none := by decide
  have hhost := (hheader q hq).mpr (by simp [hnone])
  rw [hnone, Option.getD_none, hip] at hhost
  exact ⟨cfg, hcfg, i, s, hs, c, hc, hip, q, hq, hhost⟩

/-- With `--host-hdr` the first request names the address all the same. -/
theorem host_header_ignored :
    ∃ cfg, mainConfig (commandLine [("host-hdr", "www.example")]) = some cfg ∧
      lastValue .hostHdr ((commandLine [("host-hdr", "www.example")]).map getoptLong) =
        some "www.example" ∧
      ∃ (i : Fin cfg.numThreads.toNat) (s : Fin cfg.numThreads.toNat → CltMgr),
        (workers cfg).run (firstRequest.map fun e => (i, e)) = some s ∧
        ∃ c ∈ (s i).mgrConnList, ∃ q ∈ c.req.requests,
          hostHeader q = some "10.0.0.1" ∧ hostHeader q ≠ some "www.example" :=
  ⟨_, rfl, by decide, ⟨0, by decide⟩, _, rfl, _, List.mem_cons_self, _, List.mem_cons_self, rfl,
    by decide⟩

end EvhtpHttp.Client

import EvhtpHttp.Client.Manager
import EvhtpHttp.Support.Keyed

/-!
# One attempt to open a connection

`clt_conn_create`, `clt_mgr_conn_create` and `clt_mgr_conn_try_create` with every
outcome of the allocations on the way: what each of them makes, which manager an
attempt leaves, and what was released where it fails.
-/

namespace EvhtpHttp.Client

open EvhtpHttp.Support

/-! ## Results by name -/

/-- The `struct client_req` that `clt_conn_create` returns. -/
def newClientReq (ok : AllocOk) (addr : String) (port : ℤ) : ClientReq where
  con := some ⟨addr, port, true, none⟩
  req := none
  evTimeout := eventNew (ok .evTimeout)
  hostIp := addr
  hostHdr := addr
  port := port
  uri := none
  isKeepalive := 0
  requests := []
  staleUses := 0
  messages := []

/-- The connection that `clt_mgr_conn_create` returns. -/
def newConn (ok : AllocOk) (addr : String) (m : CltMgr) : CltMgrConn where
  id := m.nextId
  isDead := false
  targetRequestCount := m.cfg.targetRequestCount
  waitTimePreHttpReqMsec := m.cfg.waitTimePreHttpReqMsec
  curReqCount := 0
  evNewHttpReq := eventNew (ok .evNewHttpReq)
  evConnDestroy := eventNew (ok .evConnDestroy)
  pendingHttpReq := false
  req := newClientReq ok addr m.cfg.port

/-- The new connection with its first request queued. -/
def startedConn (ok : AllocOk) (addr : String) (m : CltMgr) : CltMgrConn :=
  { newConn ok addr m with pendingHttpReq := true, evNewHttpReq := some ⟨true⟩ }

/-- The read cursor of the addresses has moved. -/
def CltMgr.withDst (dst : CfgIpv4Array) (m : CltMgr) : CltMgr :=
  { m with cfg := { m.cfg with ipv4Dst := dst } }

/-- A failed attempt was counted. -/
def CltMgr.createFailed (m : CltMgr) : CltMgr :=
  { m with stats := { m.stats with nconnCreateFailed := m.stats.nconnCreateFailed + 1 } }

/-- A connection was opened, counted and paced. -/
def CltMgr.opened (c : CltMgrConn) (m : CltMgr) : CltMgr :=
  { m with
    nextId := m.nextId + 1
    mgrConnList := m.mgrConnList ++ [c]
    stats := { m.stats with nconn := m.stats.nconn + 1, connCount := m.stats.connCount + 1 }
    pacer := cltMgrReqratePacerInc m.cfg.targetRequestRate m.pacer }

/-- Every block was released as often as it was allocated. -/
def Released (ops : List MemOp) : Prop :=
  ∀ b, ops.count (.alloc b) = ops.count (.free b)

/-- The allocations of `clt_conn_create` without which there is no connection. -/
def reqBlocks : List Block :=
  [.clientReq, .hostIp, .hostHdr, .evhtpConn]

/-- The blocks without which there is no connection. -/
def connBlocks : List Block :=
  [.mgrConn, .clientReq, .hostIp, .hostHdr, .evhtpConn]

/-! ## The constructors -/

section Constructors

variable {ok : AllocOk} {m : CltMgr} {addr : String} {dst : CfgIpv4Array}

theorem cltConnCreate_made (hall : ∀ b ∈ reqBlocks, ok b = true) (addr host : String)
    (port : ℤ) : (cltConnCreate ok addr host port).1 = some (newClientReq ok addr port) := by
  have hclient := hall .clientReq (by decide)
  have hip := hall .hostIp (by decide)
  have hhdr := hall .hostHdr (by decide)
  have hconn := hall .evhtpConn (by decide)
  simp [cltConnCreate, hclient, hip, hhdr, hconn, newClientReq]

theorem cltConnCreate_failed (hfail : ∃ b ∈ reqBlocks, ok b = false) (addr host : String)
    (port : ℤ) :
    (cltConnCreate ok addr host port).1 = none ∧
      Released (cltConnCreate ok addr host port).2 := by
  simp only [reqBlocks, List.mem_cons, List.not_mem_nil, or_false, exists_eq_or_imp,
    exists_eq_left] at hfail
  unfold cltConnCreate
  by_cases hclient : ok .clientReq = true
  · by_cases hip : ok .hostIp = true
    · by_cases hhdr : ok .hostHdr = true
      · by_cases hconn : ok .evhtpConn = true
        · simp [hclient, hip, hhdr, hconn] at hfail
        · simp only [hclient, hip, hhdr, hconn, Bool.not_true, Bool.not_false,
            Bool.false_eq_true, if_false, if_true, true_and]
          intro b
          cases b <;> rfl
      · simp only [hclient, hip, hhdr, Bool.not_true, Bool.not_false, Bool.false_eq_true,
          if_false, if_true, true_and]
        intro b
        cases b <;> rfl
    · simp only [hclient, hip, Bool.not_true, Bool.not_false, Bool.false_eq_true, if_false,
        if_true, true_and]
      intro b
      cases b <;> rfl
  · simp only [hclient, Bool.not_false, if_true, true_and]
    exact fun _ => rfl

theorem cltConnCreate_eq_some {host : String} {port : ℤ} {r : ClientReq} {ops : List MemOp}
    (h : cltConnCreate ok addr host port = (some r, ops)) : r = newClientReq ok addr port := by
  by_cases hall : ∀ b ∈ reqBlocks, ok b = true
  · have hmade := cltConnCreate_made hall addr host port
    rw [h] at hmade
    exact Option.some.inj hmade
  · push Not at hall
    have hnone := (cltConnCreate_failed (by simpa using hall) addr host port).1
    rw [h] at hnone
    exact absurd hnone (Option.some_ne_none r)

theorem cltMgrConnCreate_noMemory (hmgr : ok .mgrConn = false) :
    cltMgrConnCreate ok m = some (m, none, []) := by
  simp [cltMgrConnCreate, hmgr]

theorem count_allocOp (ok : AllocOk) (b b' : Block) :
    (allocOp ok b').count (.alloc b) + (if ok b' then [MemOp.free b'] else []).count (.alloc b) =
      (allocOp ok b').count (.free b) +
        (if ok b' then [MemOp.free b'] else []).count (.free b) := by
  by_cases hok : ok b' = true
  · simp [allocOp, hok, List.count_singleton]
  · simp [allocOp, hok]

/-- Without a `struct client_req` the cursor has moved, and everything else is as
before. -/
theorem cltMgrConnCreate_failed (hmgr : ok .mgrConn = true)
    (hnext : cfgIpv4ArrayGetNext m.cfg.ipv4Dst = some (addr, dst))
    (hfail : ∃ b ∈ reqBlocks, ok b = false) :
    ∃ ops, cltMgrConnCreate ok m = some (m.withDst dst, none, ops) ∧ Released ops := by
  obtain ⟨hnone, hops⟩ := cltConnCreate_failed hfail addr
    (m.cfg.hostHdr.getD addr) m.cfg.port
  simp only [cltMgrConnCreate, hmgr, hnext, hnone, Bool.not_true, Bool.false_eq_true, if_false]
  refine ⟨_, rfl, fun b => ?_⟩
  have hnew := count_allocOp ok b .evNewHttpReq
  have hdestroy := count_allocOp ok b .evConnDestroy
  have hmgrConn : [MemOp.alloc .mgrConn].count (.alloc b) + [MemOp.free .mgrConn].count (.alloc b) =
      [MemOp.alloc .mgrConn].count (.free b) + [MemOp.free .mgrConn].count (.free b) := by
    simp [List.count_singleton]
  simp only [List.count_append, hops b]
  omega

/-- With all it needs `clt_mgr_conn_create` puts a new connection at the end of the
list. -/
theorem cltMgrConnCreate_made (hall : ∀ b ∈ connBlocks, ok b = true)
    (hnext : cfgIpv4ArrayGetNext m.cfg.ipv4Dst = some (addr, dst)) :
    ∃ ops, cltMgrConnCreate ok m =
      some ({ m.withDst dst with
          nextId := m.nextId + 1
          mgrConnList := m.mgrConnList ++ [newConn ok addr m] },
        some (newConn ok addr m), ops) := by
  have hmgr := hall .mgrConn (by decide)
  have hreq := cltConnCreate_made (fun b hb => hall b (List.mem_cons_of_mem _ hb)) addr
    (m.cfg.hostHdr.getD addr) m.cfg.port
  simp only [cltMgrConnCreate, hmgr, hnext, hreq, Bool.not_true, Bool.false_eq_true, if_false]
  exact ⟨_, rfl⟩

end Constructors

/-! ## The first request -/

theorem cltMgrConnStartHttpReq_spec {msec : ℤ} {c c' : ConnCtl}
    (h : cltMgrConnStartHttpReq msec c = some c') :
    c' = { c with pendingHttpReq := true, evNewHttpReq := some ⟨true⟩ } := by
  simp only [cltMgrConnStartHttpReq, Option.bind_eq_bind] at h
  split at h
  · simp only [Option.bind_eq_some_iff, eventAdd_eq_some, eventActive_eq_some] at h
    obtain ⟨ev, -, ev', ⟨-, rfl⟩, h⟩ := h
    cases h
    rfl
  · simp only [Option.bind_eq_some_iff, eventAdd_eq_some] at h
    obtain ⟨ev, ⟨-, rfl⟩, h⟩ := h
    cases h
    rfl

theorem cltMgrConnStartHttpReq_total (msec : ℤ) {c : ConnCtl} {ev : Event}
    (h : c.evNewHttpReq = some ev) : ∃ c', cltMgrConnStartHttpReq msec c = some c' := by
  simp only [cltMgrConnStartHttpReq, h, eventAdd, eventActive, Option.bind_eq_bind,
    Option.bind_some]
  split
  · exact ⟨_, rfl⟩
  · exact ⟨_, rfl⟩

/-! ## Attempts past the checks -/

section Attempt

variable {ok : AllocOk} {m : CltMgr} {addr : String} {dst : CfgIpv4Array}

theorem cltMgrConnTryCreate_failed {m₁ : CltMgr} {ops : List MemOp}
    (hcheck : cltMgrCheckCreateConn m = true) (hpace : m.pacerCheck = true)
    (hcreate : cltMgrConnCreate ok m = some (m₁, none, ops)) :
    cltMgrConnTryCreate ok m = some (m₁.createFailed, -1) := by
  simp only [cltMgrConnTryCreate, hcheck, hpace, hcreate, Bool.not_true, Bool.false_eq_true,
    if_false]
  rfl

/-- With all it needs, the event for the first request included, the attempt opens
a connection, and writes it back once its first request is queued. -/
theorem cltMgrConnTryCreate_made (hcheck : cltMgrCheckCreateConn m = true)
    (hpace : m.pacerCheck = true) (hall : ∀ b ∈ connBlocks, ok b = true)
    (hnew : ok .evNewHttpReq = true)
    (hnext : cfgIpv4ArrayGetNext m.cfg.ipv4Dst = some (addr, dst)) :
    cltMgrConnTryCreate ok m =
      some (((m.withDst dst).opened (newConn ok addr m)).putConn (startedConn ok addr m), 0) := by
  obtain ⟨ops, hcreate⟩ := cltMgrConnCreate_made hall hnext
  have hev : (newConn ok addr m).evNewHttpReq = some ⟨false⟩ := by
    simp [newConn, eventNew, hnew]
  obtain ⟨ctl, hctl⟩ := cltMgrConnStartHttpReq_total (newConn ok addr m).waitTimePreHttpReqMsec
    (c := (newConn ok addr m).toConnCtl) hev
  obtain rfl := cltMgrConnStartHttpReq_spec hctl
  simp only [cltMgrConnTryCreate, hcheck, hpace, hcreate, hctl, Bool.not_true,
    Bool.false_eq_true, if_false, Option.bind_eq_bind, Option.bind_some]
  rfl

theorem opened_putConn (ok : AllocOk) (addr : String) (dst : CfgIpv4Array)
    (hids : ∀ c ∈ m.mgrConnList, c.id ≠ m.nextId) :
    ((m.withDst dst).opened (newConn ok addr m)).putConn (startedConn ok addr m) =
      (m.withDst dst).opened (startedConn ok addr m) := by
  have hlist : (m.mgrConnList ++ [newConn ok addr m]).map
      (fun x => if x.id = (startedConn ok addr m).id then startedConn ok addr m else x) =
      m.mgrConnList ++ [startedConn ok addr m] :=
    map_replace_split (fun x : CltMgrConn => x.id) rfl hids (by simp)
  exact congrArg (fun conns => { (m.withDst dst).opened (startedConn ok addr m) with
    mgrConnList := conns }) hlist

/-- Without the event for the first request the process dies. -/
theorem cltMgrConnTryCreate_noEvent (hcheck : cltMgrCheckCreateConn m = true)
    (hpace : m.pacerCheck = true) (hall : ∀ b ∈ connBlocks, ok b = true)
    (hnew : ok .evNewHttpReq = false)
    (hnext : cfgIpv4ArrayGetNext m.cfg.ipv4Dst = some (addr, dst)) :
    cltMgrConnTryCreate ok m = none := by
  obtain ⟨ops, hcreate⟩ := cltMgrConnCreate_made hall hnext
  have hdead : cltMgrConnStartHttpReq (newConn ok addr m).waitTimePreHttpReqMsec
      (newConn ok addr m).toConnCtl = none := by
    have hev : (newConn ok addr m).evNewHttpReq = none := by
      simp [newConn, eventNew, hnew]
    simp [cltMgrConnStartHttpReq, hev, eventAdd]
  simp [cltMgrConnTryCreate, hcheck, hpace, hcreate, hdead]

/-- Without an address under the cursor the process dies. -/
theorem cltMgrConnTryCreate_noAddress (hcheck : cltMgrCheckCreateConn m = true)
    (hpace : m.pacerCheck = true) (hmgr : ok .mgrConn = true)
    (hnext : cfgIpv4ArrayGetNext m.cfg.ipv4Dst = none) :
    cltMgrConnTryCreate ok m = none := by
  simp [cltMgrConnTryCreate, cltMgrConnCreate, hcheck, hpace, hmgr, hnext]

end Attempt

/-- What an attempt to open a connection comes to: one of the checks fails, there
is no memory for the connection, there is none for its request after the cursor
has moved, or a connection is opened. -/
inductive TryCreate (ok : AllocOk) (m : CltMgr) : CltMgr → ℤ → Prop
  | refused (hchecks : ¬ (cltMgrCheckCreateConn m = true ∧ m.pacerCheck = true)) :
      TryCreate ok m m (-1)
  | noMemory (hcheck : cltMgrCheckCreateConn m = true) (hpace : m.pacerCheck = true)
      (hmgr : ok .mgrConn = false) : TryCreate ok m m.createFailed (-1)
  | failed {addr : String} {dst : CfgIpv4Array} (hcheck : cltMgrCheckCreateConn m = true)
      (hpace : m.pacerCheck = true) (hmgr : ok .mgrConn = true)
      (hnext : cfgIpv4ArrayGetNext m.cfg.ipv4Dst = some (addr, dst))
      (hfail : ∃ b ∈ reqBlocks, ok b = false) :
      TryCreate ok m (m.withDst dst).createFailed (-1)
  | opened {addr : String} {dst : CfgIpv4Array} (hcheck : cltMgrCheckCreateConn m = true)
      (hpace : m.pacerCheck = true) (hall : ∀ b ∈ connBlocks, ok b = true)
      (hnew : ok .evNewHttpReq = true)
      (hnext : cfgIpv4ArrayGetNext m.cfg.ipv4Dst = some (addr, dst)) :
      TryCreate ok m ((m.withDst dst).opened (startedConn ok addr m)) 0

section Outcome

variable {ok : AllocOk} {m m' : CltMgr} {rc : ℤ}

theorem connBlocks_or_fail (hmgr : ok .mgrConn = true) :
    (∀ b ∈ connBlocks, ok b = true) ∨ ∃ b ∈ reqBlocks, ok b = false := by
  by_cases hall : ∀ b ∈ reqBlocks, ok b = true
  · exact Or.inl (List.forall_mem_cons.mpr ⟨hmgr, hall⟩)
  · push Not at hall
    exact Or.inr (by simpa using hall)

/-- An attempt that comes to its end has one of these outcomes; a connection that
was opened is written back under its number. -/
theorem cltMgrConnTryCreate_eq_some (h : cltMgrConnTryCreate ok m = some (m', rc)) :
    TryCreate ok m m' rc ∨
      ∃ addr dst, cltMgrCheckCreateConn m = true ∧ m.pacerCheck = true ∧
        (∀ b ∈ connBlocks, ok b = true) ∧ ok .evNewHttpReq = true ∧
        cfgIpv4ArrayGetNext m.cfg.ipv4Dst = some (addr, dst) ∧ rc = 0 ∧
        m' = ((m.withDst dst).opened (newConn ok addr m)).putConn (startedConn ok addr m) := by
  by_cases hcheck : cltMgrCheckCreateConn m = true
  swap
  · simp only [cltMgrConnTryCreate, hcheck, Bool.not_false, if_true] at h
    obtain ⟨rfl, rfl⟩ := Prod.mk.inj (Option.some.inj h)
    exact Or.inl (.refused fun hchecks => hcheck hchecks.1)
  by_cases hpace : m.pacerCheck = true
  swap
  · simp only [cltMgrConnTryCreate, hcheck, hpace, Bool.not_true, Bool.not_false,
      Bool.false_eq_true, if_false, if_true] at h
    obtain ⟨rfl, rfl⟩ := Prod.mk.inj (Option.some.inj h)
    exact Or.inl (.refused fun hchecks => hpace hchecks.2)
  by_cases hmgr : ok .mgrConn = true
  swap
  · have hmgr : ok .mgrConn = false := by simpa using hmgr
    rw [cltMgrConnTryCreate_failed hcheck hpace (cltMgrConnCreate_noMemory hmgr)] at h
    obtain ⟨rfl, rfl⟩ := Prod.mk.inj (Option.some.inj h)
    exact Or.inl (.noMemory hcheck hpace hmgr)
  obtain hnext | ⟨⟨addr, dst⟩, hnext⟩ :=
    Option.eq_none_or_eq_some (cfgIpv4ArrayGetNext m.cfg.ipv4Dst)
  · rw [cltMgrConnTryCreate_noAddress hcheck hpace hmgr hnext] at h
    exact absurd h (by simp)
  rcases connBlocks_or_fail hmgr with hall | hfail
  · by_cases hnew : ok .evNewHttpReq = true
    · rw [cltMgrConnTryCreate_made hcheck hpace hall hnew hnext] at h
      obtain ⟨rfl, rfl⟩ := Prod.mk.inj (Option.some.inj h)
      exact Or.inr ⟨addr, dst, hcheck, hpace, hall, hnew, hnext, rfl, rfl⟩
    · rw [cltMgrConnTryCreate_noEvent hcheck hpace hall (by simpa using hnew) hnext] at h
      exact absurd h (by simp)
  · obtain ⟨ops, hcreate, -⟩ := cltMgrConnCreate_failed hmgr hnext hfail
    rw [cltMgrConnTryCreate_failed hcheck hpace hcreate] at h
    obtain ⟨rfl, rfl⟩ := Prod.mk.inj (Option.some.inj h)
    exact Or.inl (.failed hcheck hpace hmgr hnext hfail)

theorem TryCreate.eq_some (hids : ∀ c ∈ m.mgrConnList, c.id ≠ m.nextId)
    (h : TryCreate ok m m' rc) : cltMgrConnTryCreate ok m = some (m', rc) := by
  cases h with
  | refused hchecks =>
      by_cases hcheck : cltMgrCheckCreateConn m = true
      · have hpace : ¬ m.pacerCheck = true := fun hpace => hchecks ⟨hcheck, hpace⟩
        simp [cltMgrConnTryCreate, hcheck, hpace]
      · simp [cltMgrConnTryCreate, hcheck]
  | noMemory hcheck hpace hmgr =>
      exact cltMgrConnTryCreate_failed hcheck hpace (cltMgrConnCreate_noMemory hmgr)
  | failed hcheck hpace hmgr hnext hfail =>
      obtain ⟨ops, hcreate, -⟩ := cltMgrConnCreate_failed hmgr hnext hfail
      exact cltMgrConnTryCreate_failed hcheck hpace hcreate
  | @opened addr dst hcheck hpace hall hnew hnext =>
      rw [← opened_putConn ok addr dst hids]
      exact cltMgrConnTryCreate_made hcheck hpace hall hnew hnext

/-- The outcomes above are those of `clt_mgr_conn_try_create`, as long as the memory of
a new connection is not that of one on the list. -/
theorem cltMgrConnTryCreate_iff (hids : ∀ c ∈ m.mgrConnList, c.id ≠ m.nextId) :
    cltMgrConnTryCreate ok m = some (m', rc) ↔ TryCreate ok m m' rc := by
  constructor
  · intro h
    obtain htry | ⟨addr, dst, hcheck, hpace, hall, hnew, hnext, rfl, rfl⟩ :=
      cltMgrConnTryCreate_eq_some h
    · exact htry
    · rw [opened_putConn ok addr dst hids]
      exact .opened hcheck hpace hall hnew hnext
  · exact fun h => h.eq_some hids

end Outcome

end EvhtpHttp.Client

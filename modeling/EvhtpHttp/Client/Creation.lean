import EvhtpHttp.Client.ConnectionCap

/-!
# Creating a connection

An attempt to open a connection, past its checks, should leave a whole connection or
nothing.  It does when all its events are allocated, or when the attempt fails at an
allocation whose result is tested.
-/

namespace EvhtpHttp.Client

open EvhtpHttp.Support

/-- A new connection is on the list, and it and its request have their libevhtp
connection and all their events. -/
def Whole (m m' : CltMgr) : Prop :=
  ∃ c, m'.mgrConnList = m.mgrConnList ++ [c] ∧ c.req.con ≠ none ∧ c.req.evTimeout ≠ none ∧
    c.evNewHttpReq ≠ none ∧ c.evConnDestroy ≠ none

/-- No connection was made: the failure is counted, nothing else is, and all that
was allocated on the way was released. -/
structure Nothing (ok : AllocOk) (m m' : CltMgr) : Prop where
  conns : m'.mgrConnList = m.mgrConnList
  nconn : m'.stats.nconn = m.stats.nconn
  connCount : m'.stats.connCount = m.stats.connCount
  pacer : m'.pacer = m.pacer
  createFailed : m'.stats.nconnCreateFailed = m.stats.nconnCreateFailed + 1
  released : ∃ m₁ ops, cltMgrConnCreate ok m = some (m₁, none, ops) ∧ Released ops

/-- The attempt returns, with a whole connection or with nothing. -/
def AllOrNothing (ok : AllocOk) (m : CltMgr) : Prop :=
  ∃ m' rc, cltMgrConnTryCreate ok m = some (m', rc) ∧
    (rc = 0 ∧ Whole m m' ∨ rc = -1 ∧ Nothing ok m m')

theorem eventNew_ne_none (ok : Bool) : eventNew ok ≠ none ↔ ok = true := by
  simp [eventNew]

theorem addressOk_of_getNext {m : CltMgr} {addr : String} {dst : CfgIpv4Array}
    (hnext : cfgIpv4ArrayGetNext m.cfg.ipv4Dst = some (addr, dst)) : m.AddressOk :=
  (List.getElem?_eq_some_iff.mp (cfgIpv4ArrayGetNext_eq_some.mp hnext).1).1

/-- The one connection that a successful attempt adds is the one it was made of. -/
theorem whole_opened_iff {ok : AllocOk} {m : CltMgr} {addr : String} {dst : CfgIpv4Array} :
    Whole m ((m.withDst dst).opened (startedConn ok addr m)) ↔
      ok .evTimeout = true ∧ ok .evConnDestroy = true := by
  rw [← eventNew_ne_none (ok .evTimeout), ← eventNew_ne_none (ok .evConnDestroy)]
  constructor
  · rintro ⟨c, hlist, -, htimeout, -, hdestroy⟩
    have hc : [startedConn ok addr m] = [c] := List.append_cancel_left hlist
    obtain rfl := List.singleton_inj.mp hc
    exact ⟨htimeout, hdestroy⟩
  · rintro ⟨htimeout, hdestroy⟩
    exact ⟨startedConn ok addr m, rfl, Option.some_ne_none _, htimeout, Option.some_ne_none _,
      hdestroy⟩

/-- An attempt past its checks is all or nothing exactly when it fails at an
allocation whose result is tested, or has the three events whose results are not;
past the first allocation it needs an address under the cursor. -/
theorem allOrNothing_iff {ok : AllocOk} {m : CltMgr}
    (hids : ∀ c ∈ m.mgrConnList, c.id ≠ m.nextId)
    (hcheck : cltMgrCheckCreateConn m = true) (hpace : m.pacerCheck = true) :
    AllOrNothing ok m ↔ ok .mgrConn = false ∨ m.AddressOk ∧
      ((∃ b ∈ reqBlocks, ok b = false) ∨
        ok .evTimeout = true ∧ ok .evNewHttpReq = true ∧ ok .evConnDestroy = true) := by
  constructor
  · rintro ⟨m', rc, htry, hout⟩
    cases (cltMgrConnTryCreate_iff hids).mp htry with
    | refused hchecks => exact absurd ⟨hcheck, hpace⟩ hchecks
    | noMemory _ _ hmgr => exact Or.inl hmgr
    | failed _ _ _ hnext hfail =>
        exact Or.inr ⟨addressOk_of_getNext hnext, Or.inl hfail⟩
    | opened _ _ _ hnew hnext =>
        rcases hout with ⟨-, hwhole⟩ | ⟨hrc, -⟩
        · obtain ⟨htimeout, hdestroy⟩ := whole_opened_iff.mp hwhole
          exact Or.inr ⟨addressOk_of_getNext hnext, Or.inr ⟨htimeout, hnew, hdestroy⟩⟩
        · exact absurd hrc (by decide)
  · intro hcond
    by_cases hmgr : ok .mgrConn = true
    swap
    · have hmgr : ok .mgrConn = false := by simpa using hmgr
      have hcreate := cltMgrConnCreate_noMemory (m := m) hmgr
      exact ⟨_, -1, cltMgrConnTryCreate_failed hcheck hpace hcreate,
        Or.inr ⟨rfl, rfl, rfl, rfl, rfl, rfl, _, _, hcreate, fun _ => rfl⟩⟩
    · obtain ⟨haddr, hblocks⟩ := hcond.resolve_left (by simp [hmgr])
      obtain ⟨addr, dst, hnext, -⟩ := cfgIpv4ArrayGetNext_of_lt haddr
      rcases connBlocks_or_fail hmgr with hall | hfail
      · have hevents := hblocks.resolve_left fun ⟨b, hb, hfail⟩ => by
          simp [hall b (List.mem_cons_of_mem _ hb)] at hfail
        have hopened := TryCreate.opened hcheck hpace hall hevents.2.1 hnext
        exact ⟨_, 0, hopened.eq_some hids,
          Or.inl ⟨rfl, whole_opened_iff.mpr ⟨hevents.1, hevents.2.2⟩⟩⟩
      · obtain ⟨ops, hcreate, hreleased⟩ := cltMgrConnCreate_failed hmgr hnext hfail
        exact ⟨_, -1, cltMgrConnTryCreate_failed hcheck hpace hcreate,
          Or.inr ⟨rfl, rfl, rfl, rfl, rfl, rfl, _, _, hcreate, hreleased⟩⟩

/-- A manager that has just started opens a whole connection. -/
theorem allOrNothing_start :
    AllOrNothing allocAll (cltMgrStart (cltMgrSetup oneHostConfig)) :=
  (allOrNothing_iff (by decide) (by decide) (by decide)).mpr
    (Or.inr ⟨(by decide : 0 < 1), Or.inr ⟨rfl, rfl, rfl⟩⟩)

/-- Every allocation succeeds but that of `ev_timeout`. -/
def noTimeoutEvent : AllocOk := fun b => b ≠ .evTimeout

/-- Without `ev_timeout` a manager that has just started counts a connection that
lacks it. -/
theorem half_built_connection :
    ∃ m' c, cltMgrConnTryCreate noTimeoutEvent (cltMgrStart (cltMgrSetup oneHostConfig)) =
        some (m', 0) ∧
      m'.mgrConnList = [c] ∧ c.req.evTimeout = none ∧ m'.stats.nconn = 1 :=
  ⟨_, _, rfl, rfl, rfl, rfl⟩

end EvhtpHttp.Client

import EvhtpHttp.Client.Budgets
import EvhtpHttp.Client.Outcomes
import EvhtpHttp.Client.Shutdown
import Mathlib.Algebra.Order.BigOperators.Group.List

/-!
# The volume of a run

How many requests a manager makes in all.  The requests counted are those issued on
its connections, each of which has its budget, so that they are bounded by the
connections opened; and once `RUNNING` is over, by what is left on the connections
that are there.
-/

namespace EvhtpHttp.Client

open EvhtpHttp.Support

/-! ## What is left on a connection -/

/-- The requests that can still be issued on a connection after `RUNNING`: the queued
one, or what is left of a limit of its own. -/
def Entry.room (c : Entry) : ℤ :=
  if c.target ≤ 0 then c.pend else c.target - c.cur

/-- The requests that can still be issued after `RUNNING`. -/
def Ledger.room (s : Ledger) : ℤ :=
  (s.conns.map Entry.room).sum

theorem Entry.room_of_unlimited {c : Entry} (h : c.target ≤ 0) : c.room = c.pend :=
  if_pos h

theorem Entry.room_of_limited {c : Entry} (h : ¬ c.target ≤ 0) : c.room = c.target - c.cur :=
  if_neg h

theorem Entry.room_nonneg {c : Entry} (h : 0 < c.target → c.cur ≤ c.target) : 0 ≤ c.room := by
  by_cases hlimit : c.target ≤ 0
  · rw [room_of_unlimited hlimit]
    exact c.pend_nonneg
  · have hcur := h (not_le.mp hlimit)
    rw [room_of_limited hlimit]
    omega

theorem Entry.room_le {c c' : Entry} (htarget : c'.target = c.target) (hcur : c'.cur = c.cur)
    (hpend : c'.pend ≤ c.pend) : c'.room ≤ c.room := by
  by_cases hlimit : c.target ≤ 0
  · rw [room_of_unlimited hlimit, room_of_unlimited (htarget ▸ hlimit)]
    exact hpend
  · rw [room_of_limited hlimit, room_of_limited (htarget ▸ hlimit), htarget, hcur]

theorem Entry.room_issue {c : Entry} (hqueued : c.queued = true) : c.issue.room + 1 = c.room := by
  by_cases hlimit : c.target ≤ 0
  · rw [room_of_unlimited hlimit, room_of_unlimited (c := c.issue) hlimit,
      pend_of_queued hqueued]
    rfl
  · rw [room_of_limited hlimit, room_of_limited (c := c.issue) hlimit]
    simp only [Entry.issue]
    omega

section Split

variable {s s' : Ledger} {pre post : List Entry} {c c' : Entry}

theorem room_split (h : s.conns = pre ++ c :: post) :
    s.room = (pre.map Entry.room).sum + (c.room + (post.map Entry.room).sum) := by
  rw [Ledger.room, h, List.map_append, List.map_cons, List.sum_append, List.sum_cons]

theorem room_replace (h : s.conns = pre ++ c :: post) (h' : s'.conns = pre ++ c' :: post) :
    s'.room - c'.room = s.room - c.room := by
  rw [room_split h, room_split h']
  omega

theorem room_freeConn (h : s.conns = pre ++ c :: post) :
    (s.freeConn pre c post).room + c.room = s.room := by
  rw [room_split h]
  simp only [Ledger.room, Ledger.freeConn, List.map_append, List.sum_append]
  omega

end Split

/-! ## After `RUNNING` -/

/-- After `RUNNING` the requests made and the room that is left do not grow. -/
theorem LedgerStep.volume_le {e : LoopEvent} {s s' : Ledger} (h : LedgerStep e s s')
    (hs : s.LeftRunning) (hbudget : ∀ c ∈ s.conns, 0 < c.target → c.cur ≤ c.target) :
    s'.stats.reqCount + s'.room ≤ s.stats.reqCount + s.room := by
  obtain ⟨hphase, hstate⟩ := hs
  have hreplace : ∀ {s' : Ledger} {pre post : List Entry} {c c' : Entry},
      s.conns = pre ++ c :: post → s'.conns = pre ++ c' :: post →
      (s'.stats.reqCount : ℤ) + c'.room ≤ s.stats.reqCount + c.room →
      (s'.stats.reqCount : ℤ) + s'.room ≤ s.stats.reqCount + s.room := by
    intro s' pre post c c' hsplit hsplit' hle
    have hchange := room_replace hsplit hsplit'
    omega
  have hkeep : ∀ {s' : Ledger} {pre post : List Entry} {c c' : Entry},
      s.conns = pre ++ c :: post → s'.conns = pre ++ c' :: post →
      s'.stats.reqCount = s.stats.reqCount → c'.room ≤ c.room →
      (s'.stats.reqCount : ℤ) + s'.room ≤ s.stats.reqCount + s.room := by
    intro s' pre post c c' hsplit hsplit' hcount hle
    exact hreplace hsplit hsplit' (by omega)
  have hclose : ∀ {pre post : List Entry} {c : Entry} {o : Outcome} {p : Pacer},
      s.conns = pre ++ c :: post →
      ((s.closeConn pre c post o p).stats.reqCount : ℤ) + (s.closeConn pre c post o p).room ≤
        s.stats.reqCount + s.room := by
    intro pre post c o p hsplit
    refine hkeep hsplit rfl ?_ (Entry.room_le rfl rfl c.pend_nonneg)
    simp only [Ledger.closeConn, countClosing]
    rw [o.count_eq]
  have hmem : ∀ {pre post : List Entry} {c : Entry}, s.conns = pre ++ c :: post → c ∈ s.conns := by
    intro pre post c hsplit
    rw [hsplit]
    exact List.mem_append_right _ List.mem_cons_self
  cases h with
  | issue hsplit hqueued =>
      refine hreplace hsplit rfl ?_
      have hone := Entry.room_issue hqueued
      push_cast
      omega
  | @issueFailed _ _ _ c _ _ hsplit =>
      exact hkeep hsplit rfl rfl (Entry.room_le rfl rfl c.pend_nonneg)
  | data hsplit => exact hkeep hsplit rfl rfl (Entry.room_le rfl rfl (le_refl _))
  | @connTimeout _ _ _ c hsplit =>
      exact hkeep hsplit rfl rfl (Entry.room_le rfl rfl c.pend_nonneg)
  | @completeNext _ _ _ c _ hsplit _ hrequest =>
      refine hkeep hsplit rfl (by rw [countOk_eq]) ?_
      -- Without a limit of its own the connection gets no request after `RUNNING`.
      have hlimited : ¬ c.target ≤ 0 := fun hnone => hstate (hrequest.2.1 hnone)
      rw [Entry.room_of_limited hlimited, Entry.room_of_limited (c := c.next) hlimited]
      exact le_refl _
  | completeLast hsplit =>
      exact hkeep hsplit rfl (by rw [countOk_eq]) (Entry.room_le rfl rfl (le_refl _))
  | close hsplit _ _ _ htry =>
      rw [htry.eq_of_not_mayOpen (not_mayOpen hphase hstate)]
      exact hclose hsplit
  | @destroyClosed _ _ _ c _ _ hsplit =>
      have hless := room_freeConn hsplit
      have hnonneg := Entry.room_nonneg (hbudget c (hmem hsplit))
      simp only [Ledger.freeConn] at hless ⊢
      omega
  | @destroyOpen _ _ pre post post' c _ _ hsplit _ _ htry hsplit₁ =>
      obtain rfl := htry.eq_of_not_mayOpen (not_mayOpen hphase hstate)
      have hless := room_freeConn hsplit₁
      have hclosed := hclose (o := .none) (p := s.pacer) hsplit
      have hnonneg := Entry.room_nonneg (c := c.close) (hbudget c (hmem hsplit))
      simp only [Ledger.freeConn] at hless ⊢
      omega
  | cleanupTimer =>
      have hsame : (s.conns.map Entry.kill).map Entry.room = s.conns.map Entry.room := by
        rw [List.map_map]
        rfl
      simp only [Ledger.room, hsame, le_refl]
  | tickRunning _ hrunning => exact absurd hrunning hstate
  | _ => exact le_refl _

/-! ## Whole runs -/

section Run

variable {cfg : MgrConfig} {m₀ m : CltMgr}

theorem issuedSum_of_reachable (h : (cltMgrSystem cfg).Reachable m) :
    m.ledger.issuedSum = m.stats.reqCount := by
  refine ledger_invariant (P := fun s => s.issuedSum = s.stats.reqCount) ?_ ?_ h
  · intro running
    rfl
  · intro e s s' _ _ hs hstep
    have hsame := hstep.issuedSum
    omega

/-- A bound for every connection is one for all the connections opened. -/
theorem reqCount_le_mul (h : (cltMgrSystem cfg).Reachable m) {k : ℤ}
    (hk : ∀ c ∈ m.ledger.conns ++ m.ledger.gone, c.cur ≤ k) :
    (m.stats.reqCount : ℤ) ≤ m.stats.connCount * k := by
  have haccounts : Accounts _ _ _ _ _ := accountsOk_of_reachable h
  have hopened : m.stats.connCount = m.ledger.conns.length + m.ledger.gone.length :=
    haccounts.opened
  have hsum : ((m.ledger.conns ++ m.ledger.gone).map Entry.cur).sum ≤
      ((m.ledger.conns ++ m.ledger.gone).map Entry.cur).length • k := by
    apply List.sum_le_card_nsmul
    intro x hx
    obtain ⟨c, hc, rfl⟩ := List.mem_map.mp hx
    exact hk c hc
  rw [List.length_map, List.length_append, ← hopened, nsmul_eq_mul] at hsum
  rw [← issuedSum_of_reachable h]
  exact hsum

theorem cur_le_target (h : (cltMgrSystem cfg).Reachable m) :
    ∀ c ∈ m.ledger.conns ++ m.ledger.gone, 0 < c.target → c.cur ≤ c.target := by
  intro c hc hpos
  have hbudget := withinBudget_of_reachable h c hc
  have hlimit := hbudget.limit (hbudget.target_eq ▸ hpos)
  have hpend := c.pend_nonneg
  rw [hbudget.target_eq]
  omega

theorem reqCount_le_room (h₀ : (cltMgrSystem cfg).Reachable m₀) (hstate : m₀.mgrState ≠ .running)
    {es : List LoopEvent} (h : (cltMgrSystem cfg).runFrom es m₀ = some m) :
    (m.stats.reqCount : ℤ) ≤ m₀.stats.reqCount + m₀.ledger.room := by
  have hle := ((cltMgrSystem cfg).runFrom_rel
    (P := fun m => (cltMgrSystem cfg).Reachable m ∧ m.ledger.LeftRunning)
    (R := fun a b => (b.stats.reqCount : ℤ) + b.ledger.room ≤ a.stats.reqCount + a.ledger.room)
    (fun _ => le_refl _) (fun _ _ _ hab hbc => hbc.trans hab) ?_ es m₀ m
    ⟨h₀, phaseOk_of_reachable h₀, hstate⟩ h).2
  · have hroom : 0 ≤ m.ledger.room := by
      apply List.sum_nonneg
      intro x hx
      obtain ⟨c, hc, rfl⟩ := List.mem_map.mp hx
      exact Entry.room_nonneg (cur_le_target (h₀.runFrom h) c (List.mem_append_left _ hc))
    omega
  · rintro a e b ⟨ha, hleft⟩ he
    obtain ⟨-, hstep⟩ := cltMgrStep_refines (cltMgrOk_of_reachable ha) he
    exact ⟨⟨ha.step he, hstep.leftRunning hleft⟩, hstep.volume_le hleft fun c hc =>
      cur_le_target ha c (List.mem_append_left _ hc)⟩

/-- What can still be issued on a connection after `RUNNING`. -/
def CltMgrConn.room (c : CltMgrConn) : ℤ :=
  if c.targetRequestCount ≤ 0 then (if isPending c.evNewHttpReq then 1 else 0)
  else c.targetRequestCount - c.curReqCount

/-- The requests of a manager are bounded by its connections: one each without
keep-alive, `target_request_count` each if that is positive.  Once it has left
`RUNNING` it makes no more than the request queued on each of the connections that are
there, or what is left of their limits. -/
theorem volume_bounded {es fs : List LoopEvent} (h₀ : (cltMgrSystem cfg).run es = some m₀)
    (h : (cltMgrSystem cfg).runFrom fs m₀ = some m) :
    (cfg.httpKeepalive = 0 → m.stats.reqCount ≤ m.stats.connCount) ∧
      (0 < cfg.targetRequestCount →
        (m.stats.reqCount : ℤ) ≤ m.stats.connCount * cfg.targetRequestCount) ∧
      (m₀.mgrState ≠ .running →
        (m.stats.reqCount : ℤ) ≤
          m₀.stats.reqCount + (m₀.mgrConnList.map CltMgrConn.room).sum) := by
  have hreach₀ : (cltMgrSystem cfg).Reachable m₀ := ⟨es, h₀⟩
  have hreach := hreach₀.runFrom h
  have hbudget := withinBudget_of_reachable hreach
  refine ⟨?_, ?_, ?_⟩
  · intro hsingle
    have hmany := reqCount_le_mul hreach (k := 1) fun c hc => by
      have hone := (hbudget c hc).single hsingle
      have hpend := c.pend_nonneg
      omega
    omega
  · intro hpos
    refine reqCount_le_mul hreach fun c hc => ?_
    have htarget := (hbudget c hc).target_eq
    rw [← htarget] at hpos ⊢
    exact cur_le_target hreach c hc hpos
  · intro hstate
    have hroom : m₀.ledger.room = (m₀.mgrConnList.map CltMgrConn.room).sum := by
      rw [Ledger.room, CltMgr.ledger, List.map_map]
      rfl
    rw [← hroom]
    exact reqCount_le_room hreach₀ hstate h

/-- Two connections with their first requests queued make two requests at most when
the running period is over. -/
theorem volume_bounded_drained :
    ∃ m₀ m, (cltMgrSystem oneHostConfig).run
        [.timer fun _ => allocAll, .runningTimer] = some m₀ ∧
      (cltMgrSystem oneHostConfig).runFrom
        [.newHttpReq 0 true true, .complete 0 200] m₀ = some m ∧
      (m.stats.reqCount : ℤ) ≤ 2 := by
  have hrun : ∃ m₀ m, (cltMgrSystem oneHostConfig).run
        [.timer fun _ => allocAll, .runningTimer] = some m₀ ∧ m₀.mgrState = .waiting ∧
      (m₀.mgrConnList.map CltMgrConn.room).sum = 2 ∧ m₀.stats.reqCount = 0 ∧
      (cltMgrSystem oneHostConfig).runFrom
        [.newHttpReq 0 true true, .complete 0 200] m₀ = some m :=
    ⟨_, _, rfl, rfl, rfl, rfl, rfl⟩
  obtain ⟨m₀, m, h₀, hstate, hroom, hcount, h⟩ := hrun
  obtain ⟨-, -, hdrain⟩ := volume_bounded h₀ h
  have hle := hdrain (by simp [hstate])
  exact ⟨m₀, m, h₀, h, by omega⟩

end Run

end EvhtpHttp.Client

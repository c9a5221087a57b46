import EvhtpHttp.Client.Connections
import EvhtpHttp.Client.Moves

/-!
# Dead connections

`clt_mgr_conn_destroy` marks a connection as dead and schedules its
destruction.  The handlers of a timeout and of a close cancel the queued request
first, `clt_mgr_cleanup_timer` does not.
-/

namespace EvhtpHttp.Client

open EvhtpHttp.Support

/-- No dead connection has a queued request. -/
def Ledger.DeadIdle (s : Ledger) : Prop :=
  ∀ c ∈ s.conns ++ s.gone, c.dead = true → c.queued = false

/-- A dead connection without a queued request. -/
structure DeadAt (id : ℕ) (cur : ℤ) (c : Entry) : Prop where
  id : c.id = id
  cur : c.cur = cur
  dead : c.dead = true
  unqueued : c.queued = false

/-- No move brings a dead connection without a queued request back, and none
issues a request on it. -/
theorem DeadAt.move {e : LoopEvent} {s : Ledger} {id : ℕ} {cur : ℤ} {c c' : Entry}
    (hc : DeadAt id cur c) (h : Move e s c c') : DeadAt id cur c' := by
  have hid : c'.id = id := h.same.1.trans hc.id
  cases h with
  | issue _ hqueued =>
      rw [hc.unqueued] at hqueued
      cases hqueued
  | next _ _ hrequest =>
      have halive : c.dead = false := hrequest.1
      rw [hc.dead] at halive
      cases halive
  | expire => exact ⟨hid, hc.cur, rfl, rfl⟩
  | close => exact ⟨hid, hc.cur, rfl, rfl⟩
  | free => exact ⟨hid, hc.cur, rfl, rfl⟩
  | giveUp => exact ⟨hid, hc.cur, hc.dead, rfl⟩
  | finish => exact ⟨hid, hc.cur, rfl, hc.unqueued⟩
  | kill => exact ⟨hid, hc.cur, rfl, hc.unqueued⟩
  | _ => exact ⟨hid, hc.cur, hc.dead, hc.unqueued⟩

/-- Only the cleanup marks a connection as dead and leaves its request queued. -/
theorem LedgerStep.deadIdle {e : LoopEvent} {s s' : Ledger} (h : LedgerStep e s s')
    (hroster : s.RosterOk) (hs : s.DeadIdle)
    (hcleanup : e = .cleanupTimer → ∀ c ∈ s.conns ++ s.gone, c.queued = false) :
    s'.DeadIdle := by
  intro x hx hdead
  rcases h.origin hx with ⟨-, id, -, rfl⟩ | ⟨c, hc, hmove⟩
  · simp [Entry.fresh] at hdead
  · have hold := hs c hc
    cases hmove with
    | issue => rfl
    | giveUp => rfl
    | expire => rfl
    | close => rfl
    | free => rfl
    | next _ _ hrequest =>
        have halive : c.dead = false := hrequest.1
        simp [Entry.next, halive] at hdead
    | finish _ hflight => exact (hroster.entries c hc).inFlight_unqueued hflight
    | kill he => exact hcleanup he c hc
    | stay => exact hold hdead
    | hear => exact hold hdead

theorem TryOpen.nextId_le {s s' : Ledger} (h : TryOpen s s') : s.nextId ≤ s'.nextId := by
  cases h with
  | opened => exact Nat.le_succ _
  | _ => exact le_refl _

theorem Burst.nextId_le {s s' : Ledger} {k : ℕ} (h : Burst s k s') :
    s.nextId ≤ s'.nextId := by
  induction h with
  | opened _ _ _ ih => exact (Nat.le_succ _).trans ih
  | _ => exact le_refl _

theorem LedgerStep.nextId_le {e : LoopEvent} {s s' : Ledger} (h : LedgerStep e s s') :
    s.nextId ≤ s'.nextId := by
  cases h with
  | close _ _ _ _ htry =>
      have hle := htry.nextId_le
      exact hle
  | destroyOpen _ _ _ htry =>
      have hle := htry.nextId_le
      exact hle
  | tickRunning _ _ _ hburst =>
      have hle := hburst.nextId_le
      obtain ⟨p, hp⟩ := s.paced_eq
      rw [hp] at hle
      obtain ⟨state, timers, hend⟩ := Ledger.tickEnd_rearm_eq _
      rw [hend]
      exact hle
  | _ => exact le_refl _

/-- The connection `id` is dead, has no queued request and issued `cur` ones. -/
def Ledger.StaysDead (id : ℕ) (cur : ℤ) (s : Ledger) : Prop :=
  id < s.nextId ∧ ∀ c ∈ s.conns ++ s.gone, c.id = id → DeadAt id cur c

theorem LedgerStep.staysDead {e : LoopEvent} {s s' : Ledger} {id : ℕ} {cur : ℤ}
    (h : LedgerStep e s s') (hs : s.StaysDead id cur) :
    s'.StaysDead id cur ∧ ∀ strdupOk newOk, e ≠ .newHttpReq id strdupOk newOk := by
  obtain ⟨hid, hdead⟩ := hs
  refine ⟨⟨lt_of_lt_of_le hid h.nextId_le, ?_⟩, ?_⟩
  · intro x hx hxid
    rcases h.origin hx with ⟨-, i, hi, rfl⟩ | ⟨c, hc, hmove⟩
    · have hnew : i = id := hxid
      omega
    · exact (hdead c hc (hmove.same.1.symm.trans hxid)).move hmove
  · rintro strdupOk newOk rfl
    have hqueued : ∃ c ∈ s.conns, c.id = id ∧ c.queued = true := by
      generalize he : LoopEvent.newHttpReq id strdupOk newOk = e at h
      cases h with
      | issue hsplit hqueued =>
          cases he
          exact ⟨_, by rw [hsplit]; simp, rfl, hqueued⟩
      | issueFailed hsplit hqueued =>
          cases he
          exact ⟨_, by rw [hsplit]; simp, rfl, hqueued⟩
      | _ => cases he
    obtain ⟨c, hc, hcid, hqueued⟩ := hqueued
    have hunqueued := (hdead c (List.mem_append_left _ hc) hcid).unqueued
    rw [hqueued] at hunqueued
    cases hunqueued

/-! ## Runs -/

/-- The cleanup timer is delivered only when no connection has a queued request. -/
def NoneQueuedAtCleanup (_ : List LoopEvent) (e : LoopEvent) (m : CltMgr) : Prop :=
  e = .cleanupTimer → ∀ c ∈ m.mgrConnList, isPending c.evNewHttpReq = false

theorem deadIdle_of_guarded {cfg : MgrConfig} {es : List LoopEvent} {m : CltMgr}
    (hguard : (cltMgrSystem cfg).Guarded NoneQueuedAtCleanup es)
    (h : (cltMgrSystem cfg).run es = some m) : m.ledger.DeadIdle := by
  refine ledger_guarded_induction (P := fun _ s => s.DeadIdle) ?_ ?_ es m hguard h
  · simp [Ledger.DeadIdle, Ledger.start]
  · intro es e m s' hrun hG hs hstep
    have hreach : (cltMgrSystem cfg).Reachable m := ⟨es, hrun⟩
    refine hstep.deadIdle (cltMgrOk_of_reachable hreach).roster hs ?_
    intro he c hc
    rcases List.mem_append.mp hc with hc | hc
    · obtain ⟨x, hx, rfl⟩ := List.mem_map.mp hc
      exact hG he x hx
    · exact ((accountsOk_of_reachable hreach).freed c hc).1

theorem staysDead_of_runFrom {cfg : MgrConfig} {id : ℕ} {cur : ℤ} :
    ∀ {fs : List LoopEvent} {m₀ m : CltMgr}, CltMgrOk m₀ → m₀.ledger.StaysDead id cur →
      (cltMgrSystem cfg).runFrom fs m₀ = some m →
        m.ledger.StaysDead id cur ∧
          ∀ strdupOk newOk, .newHttpReq id strdupOk newOk ∉ fs := by
  intro fs
  induction fs with
  | nil =>
      intro m₀ m _ hdead h
      cases h
      exact ⟨hdead, by simp⟩
  | cons e fs ih =>
      intro m₀ m hm₀ hdead h
      obtain ⟨m₁, he, hrest⟩ := Option.bind_eq_some_iff.mp h
      obtain ⟨hm₁, hstep⟩ := cltMgrStep_refines hm₀ he
      obtain ⟨hdead₁, hnone⟩ := hstep.staysDead hdead
      obtain ⟨hend, hnone'⟩ := ih hm₁ hdead₁ hrest
      refine ⟨hend, fun strdupOk newOk hmem => ?_⟩
      rcases List.mem_cons.mp hmem with heq | hmem
      · exact hnone strdupOk newOk heq.symm
      · exact hnone' strdupOk newOk hmem

/-- In a run in which the cleanup timer finds no queued request, no event after
the death of a connection starts a request on it, and it issues none. -/
theorem dead_connection_issues_nothing {cfg : MgrConfig} {es fs : List LoopEvent}
    {m₀ m : CltMgr} (hguard : (cltMgrSystem cfg).Guarded NoneQueuedAtCleanup es)
    (h₀ : (cltMgrSystem cfg).run es = some m₀)
    (h : (cltMgrSystem cfg).runFrom fs m₀ = some m) :
    ∀ c₀ ∈ m₀.mgrConnList ++ m₀.freedConns, c₀.isDead = true →
      (∀ strdupOk newOk, .newHttpReq c₀.id strdupOk newOk ∉ fs) ∧
        ∀ c ∈ m.mgrConnList ++ m.freedConns, c.id = c₀.id →
          c.isDead = true ∧ c.curReqCount = c₀.curReqCount := by
  intro c₀ hc₀ hdead
  have hm₀ := cltMgrOk_of_reachable ⟨es, h₀⟩
  have hidle := deadIdle_of_guarded hguard h₀
  have hmem : ∀ (m : CltMgr), ∀ c ∈ m.mgrConnList ++ m.freedConns,
      c.entry ∈ m.ledger.conns ++ m.ledger.gone := by
    intro m c hc
    rw [CltMgr.ledger, ← List.map_append]
    exact List.mem_map_of_mem hc
  have hstart : m₀.ledger.StaysDead c₀.id c₀.curReqCount := by
    refine ⟨hm₀.roster.below _ (hmem m₀ c₀ hc₀), ?_⟩
    intro c hc hid
    have hsame : c = c₀.entry := hm₀.roster.eq_of_id_eq hc (hmem m₀ c₀ hc₀) hid
    subst hsame
    exact ⟨rfl, rfl, hdead, hidle _ hc hdead⟩
  obtain ⟨⟨-, hend⟩, hnone⟩ := staysDead_of_runFrom hm₀ hstart h
  refine ⟨hnone, fun c hc hid => ?_⟩
  have hdeadAt := hend c.entry (hmem m c hc) hid
  exact ⟨hdeadAt.dead, hdeadAt.cur⟩

/-- A connection that the cleanup has marked as dead issues its queued request. -/
theorem dead_connection_issues_queued_request :
    ∃ m₀ m, (cltMgrSystem oneHostConfig).run
        [.timer fun _ => allocAll, .runningTimer, .waitTimer, .cleanupTimer] = some m₀ ∧
      (cltMgrSystem oneHostConfig).runFrom [.newHttpReq 0 true true] m₀ = some m ∧
      ∃ c₀ ∈ m₀.mgrConnList, ∃ c ∈ m.mgrConnList, c₀.isDead = true ∧ c.id = c₀.id ∧
        c.req.requests.length = c₀.req.requests.length + 1 ∧
        c.curReqCount = c₀.curReqCount + 1 ∧
        m.stats.reqCount = m₀.stats.reqCount + 1 :=
  ⟨_, _, rfl, rfl, _, List.mem_cons_self, _, List.mem_cons_self, rfl, rfl, rfl, rfl, rfl⟩

/-- A connection that timed out is dead and issues nothing more. -/
theorem dead_connection_issues_nothing_after_timeout :
    ∃ m₀ m, (cltMgrSystem oneHostConfig).run
        [.timer fun _ => allocAll, .newHttpReq 0 true true, .data 0 .headersStart,
          .connTimeout 0] = some m₀ ∧
      (cltMgrSystem oneHostConfig).runFrom [.complete 0 200, .newHttpReq 1 true true] m₀ =
        some m ∧
      ∀ c₀ ∈ m₀.mgrConnList ++ m₀.freedConns, c₀.isDead = true →
        ∀ c ∈ m.mgrConnList ++ m.freedConns, c.id = c₀.id →
          c.isDead = true ∧ c.curReqCount = c₀.curReqCount := by
  have hguard : (cltMgrSystem oneHostConfig).Guarded NoneQueuedAtCleanup
      [.timer fun _ => allocAll, .newHttpReq 0 true true, .data 0 .headersStart,
        .connTimeout 0] := by
    intro pre e post s hsplit _ he
    have hmem : e ∈ pre ++ e :: post := by simp
    rw [← hsplit, he] at hmem
    simp at hmem
  have hrun : ∃ m₀ m, (cltMgrSystem oneHostConfig).run
        [.timer fun _ => allocAll, .newHttpReq 0 true true, .data 0 .headersStart,
          .connTimeout 0] = some m₀ ∧
      (cltMgrSystem oneHostConfig).runFrom [.complete 0 200, .newHttpReq 1 true true] m₀ =
        some m :=
    ⟨_, _, rfl, rfl⟩
  obtain ⟨m₀, m, h₀, h⟩ := hrun
  refine ⟨m₀, m, h₀, h, fun c₀ hc₀ hdead => ?_⟩
  exact (dead_connection_issues_nothing hguard h₀ h c₀ hc₀ hdead).2

end EvhtpHttp.Client

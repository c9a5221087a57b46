import EvhtpHttp.Client.Attempts
import EvhtpHttp.Client.Connections

/-!
# The global request limit

The limit is checked when a request is queued on an existing connection, against
the number of requests issued; opening a connection queues its first request
without a check.  The limit holds as long as the requests issued, the requests
queued and those that an event queues are within it.
-/

namespace EvhtpHttp.Client

open EvhtpHttp.Support

def Ledger.queued (s : Ledger) : ℕ :=
  s.conns.countP Entry.queued

/-- The requests issued and queued. -/
def Ledger.committed (s : Ledger) : ℤ :=
  s.stats.reqCount + s.queued

/-! ## Steps -/

theorem TryOpen.committed {s s' : Ledger} (h : TryOpen s s') :
    s'.committed = s.committed ∨
      s.MayOpen ∧ s.MayPace ∧ s'.nextId = s.nextId + 1 ∧ s'.committed = s.committed + 1 := by
  cases h with
  | refused => exact Or.inl rfl
  | failed => exact Or.inl rfl
  | opened hopen hpace =>
      refine Or.inr ⟨hopen, hpace, rfl, ?_⟩
      simp [Ledger.committed, Ledger.queued, Ledger.openOne, Entry.fresh]
      omega

theorem Burst.committed {s s' : Ledger} {k : ℕ} (h : Burst s k s') :
    s'.nextId = s.nextId + k ∧ s'.committed = s.committed + k := by
  induction h with
  | done => simp
  | failed => simp [Ledger.committed, Ledger.queued, Ledger.openFailed]
  | opened _ _ _ ih =>
      rw [ih.1, ih.2]
      simp [Ledger.committed, Ledger.queued, Ledger.openOne, Entry.fresh]
      omega

/-- Next to what is committed the requests that the event queues are within `G`, when it
opens this many connections. -/
def Ledger.RoomFor (G : ℤ) (opened : ℕ) (e : LoopEvent) (s : Ledger) : Prop :=
  match e with
  | .timer _ => 0 < opened → s.state = .running → s.committed + opened ≤ G
  | .complete id _ => ∀ c ∈ s.conns, c.id = id → s.MayRequest c → s.MayIssue →
      s.MayPace → s.committed + 1 ≤ G
  | .close id _ _ _ => 0 < opened → ∀ c ∈ s.conns, c.id = id → s.MayOpen → s.MayPace →
      s.committed - c.pend + 1 ≤ G
  | .connDestroy id _ _ => 0 < opened → ∀ c ∈ s.conns, c.id = id → c.closed = false →
      s.MayOpen → s.MayPace → s.committed - c.pend + 1 ≤ G
  | _ => True

theorem committed_replace {s s' : Ledger} {pre post : List Entry} {c c' : Entry}
    (hs : s.conns = pre ++ c :: post) (hs' : s'.conns = pre ++ c' :: post) :
    s'.committed - s'.stats.reqCount - c'.pend =
      s.committed - s.stats.reqCount - c.pend := by
  simp only [Ledger.committed, Ledger.queued, hs, hs', List.countP_append,
    List.countP_cons, Entry.pend]
  push_cast
  split <;> split <;> omega

theorem committed_le_of_replace {s s' : Ledger} {pre post : List Entry} {c c' : Entry}
    (hs : s.conns = pre ++ c :: post) (hs' : s'.conns = pre ++ c' :: post)
    (hle : (s'.stats.reqCount : ℤ) + c'.pend ≤ s.stats.reqCount + c.pend) :
    s'.committed ≤ s.committed := by
  have hreplace := committed_replace hs hs'
  omega

theorem committed_closeConn {s : Ledger} {pre post : List Entry} {c : Entry}
    (hs : s.conns = pre ++ c :: post) (o : Outcome) (p : Pacer) :
    (s.closeConn pre c post o p).committed = s.committed - c.pend := by
  have hreplace := committed_replace hs
    (rfl : (s.closeConn pre c post o p).conns = pre ++ c.close :: post)
  have hpend : c.close.pend = 0 := rfl
  have hcount : (s.closeConn pre c post o p).stats.reqCount = s.stats.reqCount := by
    rw [Ledger.closeConn, Outcome.count_eq]
    rfl
  rw [hcount] at hreplace
  omega

theorem committed_freeConn {s : Ledger} {pre post : List Entry} {c : Entry}
    (hs : s.conns = pre ++ c :: post) :
    (s.freeConn pre c post).committed = s.committed - c.pend := by
  simp only [Ledger.committed, Ledger.queued, Ledger.freeConn, hs, List.countP_append,
    List.countP_cons, Entry.pend]
  push_cast
  split <;> omega

/-- A request that has ended makes room for the next one of its connection. -/
theorem committed_next {s : Ledger} {pre post : List Entry} {c : Entry}
    (hs : s.conns = pre ++ c :: post) (hunqueued : c.queued = false) (status : ℤ) :
    ({ s with
        conns := pre ++ c.next :: post
        pacer := s.paceInc
        stats := countOk status s.stats } : Ledger).committed = s.committed + 1 := by
  have hreplace := committed_replace hs (rfl : ({ s with
      conns := pre ++ c.next :: post
      pacer := s.paceInc
      stats := countOk status s.stats } : Ledger).conns = pre ++ c.next :: post)
  have hpend := Entry.pend_of_not_queued hunqueued
  have hnext : c.next.pend = 1 := rfl
  rw [countOk_eq] at hreplace ⊢
  simp only at hreplace
  omega

theorem TryOpen.committed_le {s s' : Ledger} {pre post : List Entry} {c : Entry} {o : Outcome}
    {p : Pacer} {G : ℤ} (hsplit : s.conns = pre ++ c :: post)
    (htry : TryOpen (s.closeConn pre c post o p) s')
    (hroom : 0 < s'.nextId - s.nextId → s.MayOpen → (s.closeConn pre c post o p).MayPace →
      s.committed - c.pend + 1 ≤ G)
    (hs : s.committed ≤ G) : s'.committed ≤ G := by
  have hclosed := committed_closeConn hsplit o p
  have hpend := c.pend_nonneg
  rcases htry.committed with hsame | ⟨hopen, hpace, hnew, hmore⟩
  · omega
  · rw [Ledger.MayOpen, Ledger.closeConn, Outcome.count_eq] at hopen
    have hid : (s.closeConn pre c post o p).nextId = s.nextId := rfl
    have hle := hroom (by omega) hopen hpace
    omega

theorem Burst.committed_tick {s s' : Ledger} {k : ℕ} (hburst : Burst s.paced k s') :
    s'.tickEnd.rearm.nextId = s.nextId + k ∧
      s'.tickEnd.rearm.committed = s.committed + k := by
  obtain ⟨hnew, hcommitted⟩ := hburst.committed
  obtain ⟨p, hp⟩ := s.paced_eq
  obtain ⟨state, timers, hend⟩ := s'.tickEnd_rearm_eq
  rw [hp] at hnew hcommitted
  rw [hend]
  exact ⟨hnew, hcommitted⟩

/-- An event for which there is room keeps the committed requests within `G`. -/
theorem LedgerStep.committed_le {e : LoopEvent} {s s' : Ledger} {G : ℤ}
    (h : LedgerStep e s s') (hroster : s.RosterOk)
    (hroom : s.RoomFor G (s'.nextId - s.nextId) e) (hs : s.committed ≤ G) :
    s'.committed ≤ G := by
  cases h with
  | issue hsplit hqueued =>
      refine le_trans (committed_le_of_replace hsplit rfl ?_) hs
      rw [Entry.pend_of_queued hqueued]
      simp [Entry.issue, Entry.pend]
  | issueFailed hsplit hqueued =>
      refine le_trans (committed_le_of_replace hsplit rfl ?_) hs
      rw [Entry.pend_of_queued hqueued]
      simp [Entry.giveUp, Entry.pend]
  | data hsplit => exact le_trans (committed_le_of_replace hsplit rfl (le_refl _)) hs
  | @connTimeout _ pre post c hsplit =>
      refine le_trans (committed_le_of_replace hsplit rfl ?_) hs
      have hpend := c.pend_nonneg
      simpa [Entry.expire, Entry.pend, Outcome.count] using hpend
  | @completeNext _ pre post c status hsplit hflight hrequest hissue hpace =>
      have hentry := hroster.entries c (List.mem_append_left _ (mem_conns_of_split hsplit))
      rw [committed_next hsplit (hentry.inFlight_unqueued hflight)]
      exact hroom c (mem_conns_of_split hsplit) rfl hrequest hissue hpace
  | completeLast hsplit =>
      rw [countOk_eq]
      exact le_trans (committed_le_of_replace hsplit rfl (le_refl _)) hs
  | @close _ _ pre post c _ _ _ o p hsplit _ _ hp htry =>
      refine htry.committed_le hsplit ?_ hs
      intro hnew hopen hpace
      refine hroom hnew c (mem_conns_of_split hsplit) rfl hopen ?_
      rcases hp with rfl | ⟨hpace', -⟩
      · exact hpace
      · exact hpace'
  | @destroyClosed _ pre post c _ _ hsplit =>
      have hfreed := committed_freeConn hsplit
      have hpend := c.pend_nonneg
      omega
  | @destroyOpen _ s₁ pre post post' c _ _ hsplit _ hopenConn htry hsplit₁ =>
      have hopened := htry.committed_le hsplit
        (fun hnew => hroom hnew c (mem_conns_of_split hsplit) rfl hopenConn) hs
      have hfreed := committed_freeConn hsplit₁
      have hgone : c.close.pend = 0 := rfl
      omega
  | cleanupTimer =>
      have hkill : (s.conns.map Entry.kill).countP Entry.queued =
          s.conns.countP Entry.queued := by
        rw [List.countP_map]
        rfl
      simpa [Ledger.committed, Ledger.queued, hkill] using hs
  | @tickRunning _ s₁ ok k _ hstate _ hburst =>
      obtain ⟨hnew, hcommitted⟩ := hburst.committed_tick
      rcases Nat.eq_zero_or_pos k with rfl | hk
      · omega
      · have hle := hroom (by omega) hstate
        omega
  | _ => exact hs

/-! ## Runs -/

/-- The number of queued requests of a manager. -/
def CltMgr.queuedRequests (m : CltMgr) : ℕ :=
  m.mgrConnList.countP fun c => isPending c.evNewHttpReq

/-- The requests that the event queues are within the global request limit, next to the
requests issued and queued. -/
def RoomToQueue (_ : List LoopEvent) (e : LoopEvent) (m : CltMgr) : Prop :=
  match e with
  | .timer ok => m.mgrState = .running → ∀ n : ℕ, (n : ℤ) ≤ m.cfg.burstConn + 1 →
      (∀ k < n, AttemptSucceeds (ok k) m.ticked k) →
      m.stats.reqCount + m.queuedRequests + n ≤ m.cfg.targetGlobalRequestCount
  | .complete id _ => ∀ c ∈ m.mgrConnList, c.id = id →
      cltMgrConnCheckCreateHttpRequest m c.toConnCtl = true →
      cltMgrCheckCreateHttpRequest m = true → m.pacerCheck = true →
      m.stats.reqCount + m.queuedRequests + 1 ≤ m.cfg.targetGlobalRequestCount
  | .close id _ _ ok => ∀ c ∈ m.mgrConnList, c.id = id → (∀ b ∈ connBlocks, ok b = true) →
      cltMgrCheckCreateConn m = true → m.pacerCheck = true →
      m.stats.reqCount + m.queuedRequests - (if isPending c.evNewHttpReq then 1 else 0) + 1 ≤
        m.cfg.targetGlobalRequestCount
  | .connDestroy id _ ok => ∀ c ∈ m.mgrConnList, c.id = id → c.req.con ≠ none →
      (∀ b ∈ connBlocks, ok b = true) → cltMgrCheckCreateConn m = true → m.pacerCheck = true →
      m.stats.reqCount + m.queuedRequests - (if isPending c.evNewHttpReq then 1 else 0) + 1 ≤
        m.cfg.targetGlobalRequestCount
  | _ => True

theorem committed_eq (m : CltMgr) :
    m.ledger.committed = m.stats.reqCount + m.queuedRequests := by
  simp only [Ledger.committed, Ledger.queued, CltMgr.ledger, CltMgr.queuedRequests,
    List.countP_map]
  rfl

theorem connBlocks_of_tryCreate {ok : AllocOk} {m m' : CltMgr} {rc : ℤ}
    (h : cltMgrConnTryCreate ok m = some (m', rc)) (hnew : m'.nextId ≠ m.nextId) :
    ∀ b ∈ connBlocks, ok b = true := by
  obtain htry | ⟨-, -, -, -, hall, -⟩ := cltMgrConnTryCreate_eq_some h
  · cases htry with
    | opened _ _ hall => exact hall
    | _ => exact absurd rfl hnew
  · exact hall

theorem timer_opens {ok : ℕ → AllocOk} {m m' : CltMgr} (hstate : m.mgrState = .running)
    (h : cltMgrStep (.timer ok) m = some m') :
    ∃ n : ℕ, n ≤ (m.cfg.burstConn + 1).toNat ∧ m'.nextId = m.nextId + n ∧
      ∀ k < n, AttemptSucceeds (ok k) m.ticked k := by
  obtain ⟨-, h⟩ := Option.ite_none_right_eq_some.mp h
  obtain ⟨m₁, hbody, rfl⟩ := cltMgrTimer_eq_some h
  have hrearm : (if m₁.mgrState = .completed then m₁
      else { m₁ with tTimerev := ⟨true⟩ }).nextId = m₁.nextId := by
    split
    · rfl
    · rfl
  rw [hrearm]
  cases hbody with
  | running _ hrun =>
      obtain ⟨n, hle, -, hnew, hopened, -⟩ :=
        cltMgrTimerStateRunning_attempts (m := { m with tTimerev := ⟨false⟩ }) hstate hrun
      refine ⟨n, hle, hnew, fun k hk => ?_⟩
      have hone := hopened k hk
      unfold CltMgr.ticked at hone ⊢
      split at hone
      · rename_i hrate
        rw [if_pos hrate]
        exact ⟨hone.room, hone.total, hone.pace, hone.alloc⟩
      · rename_i hrate
        rw [if_neg hrate]
        exact ⟨hone.room, hone.total, hone.pace, hone.alloc⟩
  | waiting hother => exact absurd (hother.symm.trans hstate) (by simp)
  | cleanupWaiting hother => exact absurd (hother.symm.trans hstate) (by simp)
  | _ => simp_all

theorem RoomToQueue.roomFor {es : List LoopEvent} {e : LoopEvent} {m m' : CltMgr}
    (hm : CltMgrOk m) (h : RoomToQueue es e m) (hstep : cltMgrStep e m = some m') :
    m.ledger.RoomFor m.cfg.targetGlobalRequestCount (m'.nextId - m.nextId) e := by
  have hconn : ∀ {P : Entry → Prop}, (∀ c ∈ m.mgrConnList, P c.entry) →
      ∀ x ∈ m.ledger.conns, P x := by
    intro P hP x hx
    obtain ⟨c, hc, rfl⟩ := List.mem_map.mp hx
    exact hP c hc
  cases e with
  | timer ok =>
      intro hnew hstate
      obtain ⟨n, hle, hopened, hall⟩ := timer_opens hstate hstep
      have hcount : m'.nextId - m.nextId = n := by omega
      rw [committed_eq, hcount]
      exact h hstate n (by omega) hall
  | complete id status =>
      refine hconn fun c hc hid hrequest hissue hpace => ?_
      rw [committed_eq]
      exact h c hc hid (cltMgrConnCheckCreateHttpRequest_eq_true.mpr hrequest)
        (cltMgrCheckCreateHttpRequest_eq_true.mpr hissue) hpace
  | close id cause order ok =>
      intro hnew
      obtain ⟨c₀, hfind, hrest⟩ := Option.bind_eq_some_iff.mp hstep
      obtain ⟨⟨m₁, c'⟩, hclose, hput⟩ := Option.bind_eq_some_iff.mp hrest
      obtain rfl := Option.some.inj hput
      obtain ⟨m₀, rc, -, hkept, htry⟩ :=
        deliverClose_attempt (hm.conns c₀ (List.mem_of_find?_eq_some hfind)) hclose
      have hall := connBlocks_of_tryCreate htry fun hsame => by
        have hput : (m₁.putConn c').nextId = m₁.nextId := rfl
        rw [hput, hsame, hkept.nextId] at hnew
        omega
      refine hconn fun c hc hid hopen hpace => ?_
      rw [committed_eq]
      exact h c hc hid hall (cltMgrCheckCreateConn_eq_true.mpr hopen) hpace
  | connDestroy id order ok =>
      intro hnew
      obtain ⟨c₀, hfind, hdestroy⟩ := Option.bind_eq_some_iff.mp hstep
      obtain ⟨-, r, m₂, ctl, hdestroyed, rfl⟩ := deliverConnDestroy_eq_some hdestroy
      have hlinked := (hm.conns c₀ (List.mem_of_find?_eq_some hfind)).linked
      have hnew : 0 < m₂.nextId - m.nextId := hnew
      have hall : ∀ b ∈ connBlocks, ok b = true := by
        rcases cltConnDestroy_attempt hlinked hdestroyed with ⟨-, -, rfl⟩ | ⟨-, rc, -, htry⟩
        · omega
        · exact connBlocks_of_tryCreate htry fun hsame => by
            have hclosing : m.closing.nextId = m.nextId := rfl
            omega
      refine hconn fun c hc hid hclosed hopen hpace => ?_
      rw [committed_eq]
      have hcon : c.req.con ≠ none :=
        Option.isSome_iff_ne_none.mp (by simpa [CltMgrConn.entry] using hclosed)
      exact h c hc hid hcon hall (cltMgrCheckCreateConn_eq_true.mpr hopen) hpace
  | _ => trivial

/-- In a run in which every event has room for the requests it queues, the requests
issued and queued never exceed the global limit. -/
theorem global_request_cap {cfg : MgrConfig} {es : List LoopEvent} {m : CltMgr}
    (hlimit : 0 < cfg.targetGlobalRequestCount)
    (hguard : (cltMgrSystem cfg).Guarded RoomToQueue es)
    (h : (cltMgrSystem cfg).run es = some m) :
    (m.stats.reqCount : ℤ) ≤ cfg.targetGlobalRequestCount := by
  have hcap : m.ledger.committed ≤ cfg.targetGlobalRequestCount := by
    refine (cltMgrSystem cfg).guarded_induction
      (P := fun _ m => m.ledger.committed ≤ cfg.targetGlobalRequestCount) ?_ ?_ es m hguard h
    · obtain ⟨running, hledger⟩ := ledger_init cfg
      rw [hledger]
      exact hlimit.le
    · intro es e m m' hrun hG hs hstep
      have hreach : (cltMgrSystem cfg).Reachable m := ⟨es, hrun⟩
      have hm := cltMgrOk_of_reachable hreach
      have hsame : m.cfg.targetGlobalRequestCount = cfg.targetGlobalRequestCount :=
        congrArg Limits.targetGlobalRequestCount (limits_of_reachable hreach)
      have hroom := hG.roomFor hm hstep
      rw [hsame] at hroom
      exact (cltMgrStep_refines hm hstep).2.committed_le hm.roster hroom hs
  have hcommitted := committed_eq m
  omega

/-- Two connections opened in one tick both issue their first request, against a
global limit of one. -/
theorem global_request_cap_exceeded :
    ∃ m, (cltMgrSystem { oneHostConfig with targetGlobalRequestCount := 1 }).run
        [.timer fun _ => allocAll, .newHttpReq 0 true true, .newHttpReq 1 true true] =
          some m ∧
      m.cfg.targetGlobalRequestCount = 1 ∧ m.stats.reqCount = 2 :=
  ⟨_, rfl, rfl, rfl⟩

/-- With a limit of two the same run stays within it. -/
theorem global_request_cap_two_connections :
    ∃ m, (cltMgrSystem { oneHostConfig with targetGlobalRequestCount := 2 }).run
        [.timer fun _ => allocAll, .newHttpReq 0 true true, .newHttpReq 1 true true] =
          some m ∧
      (m.stats.reqCount : ℤ) ≤ 2 := by
  have hrun : ∃ m, (cltMgrSystem { oneHostConfig with targetGlobalRequestCount := 2 }).run
        [.timer fun _ => allocAll, .newHttpReq 0 true true, .newHttpReq 1 true true] =
          some m := ⟨_, rfl⟩
  have hguard : (cltMgrSystem { oneHostConfig with targetGlobalRequestCount := 2 }).Guarded
      RoomToQueue
      ((([] ++ [LoopEvent.timer fun _ => allocAll]) ++
        [LoopEvent.newHttpReq 0 true true]) ++ [LoopEvent.newHttpReq 1 true true]) := by
    refine System.Guarded.concat _ (System.Guarded.concat _ (System.Guarded.concat _
      (System.guarded_nil _ _) ?_) ?_) ?_
    · rintro m ⟨⟩ - n hn -
      have hburst : (n : ℤ) ≤ 1 + 1 := hn
      change ((0 : ℕ) : ℤ) + ((0 : ℕ) : ℤ) + (n : ℤ) ≤ 2
      omega
    · intro m _
      trivial
    · intro m _
      trivial
  obtain ⟨m, hm⟩ := hrun
  exact ⟨m, hm, global_request_cap (by decide) hguard hm⟩

end EvhtpHttp.Client

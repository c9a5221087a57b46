import EvhtpHttp.Client.Refinement

/-!
# What moves a connection on

A connection on the list waits for its next request to be issued, for the one
in flight to end, or for its own destruction.  The only event after which it
may wait for nothing is a request that could not be issued: the handler counts
the failure and returns.
-/

namespace EvhtpHttp.Client

open EvhtpHttp.Support

/-- Something will move every connection on: a queued request, a request in
flight or the scheduled destruction. -/
def CltMgr.NoneStranded (m : CltMgr) : Prop :=
  ∀ c ∈ m.mgrConnList,
    isPending c.evNewHttpReq = true ∨ c.req.req ≠ none ∨ isPending c.evConnDestroy = true

/-- The entry of a connection that something will move on. -/
def Entry.Busy (c : Entry) : Prop :=
  c.queued = true ∨ c.inFlight = true ∨ c.dead = true

theorem noneStranded_iff {m : CltMgr} (hm : CltMgrOk m) :
    m.NoneStranded ↔ ∀ c ∈ m.ledger.conns, c.Busy := by
  have hentry : ∀ c ∈ m.mgrConnList,
      (isPending c.evNewHttpReq = true ∨ c.req.req ≠ none ∨
        isPending c.evConnDestroy = true) ↔ c.entry.Busy := by
    intro c hc
    rw [(hm.conns c hc).dead, ← Option.isSome_iff_ne_none]
    exact Iff.rfl
  constructor
  · intro h x hx
    obtain ⟨c, hc, rfl⟩ := List.mem_map.mp hx
    exact (hentry c hc).mp (h c hc)
  · intro h c hc
    exact (hentry c hc).mpr (h c.entry (List.mem_map_of_mem hc))

/-! ## One event -/

theorem busy_append_fresh {conns : List Entry} (h : ∀ c ∈ conns, c.Busy) (id : ℕ) (target : ℤ) :
    ∀ c ∈ conns ++ [Entry.fresh id target], c.Busy := by
  intro c hc
  rcases List.mem_append.mp hc with hc | hc
  · exact h c hc
  · cases List.mem_singleton.mp hc
    exact Or.inl rfl

theorem TryOpen.busy {s s' : Ledger} (h : TryOpen s s') (hs : ∀ c ∈ s.conns, c.Busy) :
    ∀ c ∈ s'.conns, c.Busy := by
  cases h with
  | refused => exact hs
  | failed => exact hs
  | opened => exact busy_append_fresh hs _ _

theorem Burst.busy {s s' : Ledger} {k : ℕ} (h : Burst s k s') (hs : ∀ c ∈ s.conns, c.Busy) :
    ∀ c ∈ s'.conns, c.Busy := by
  induction h with
  | done => exact hs
  | failed => exact hs
  | opened _ _ _ ih => exact ih (busy_append_fresh hs _ _)

theorem busy_replace {pre post : List Entry} {c c' : Entry}
    (h : ∀ x ∈ pre ++ c :: post, x.Busy) (hc' : c'.Busy) :
    ∀ x ∈ pre ++ c' :: post, x.Busy := by
  intro x hx
  rcases List.mem_append.mp hx with hx | hx
  · exact h x (List.mem_append_left _ hx)
  · rcases List.mem_cons.mp hx with rfl | hx
    · exact hc'
    · exact h x (List.mem_append_right _ (List.mem_cons_of_mem _ hx))

theorem busy_remove {pre post : List Entry} {c : Entry}
    (h : ∀ x ∈ pre ++ c :: post, x.Busy) : ∀ x ∈ pre ++ post, x.Busy := by
  intro x hx
  rcases List.mem_append.mp hx with hx | hx
  · exact h x (List.mem_append_left _ hx)
  · exact h x (List.mem_append_right _ (List.mem_cons_of_mem _ hx))

/-- A request that cannot be issued is queued on a dead connection only. -/
def Ledger.FailsOnDead (s : Ledger) (e : LoopEvent) : Prop :=
  ∀ id strdupOk newOk, e = .newHttpReq id strdupOk newOk → strdupOk = false ∨ newOk = false →
    ∀ c ∈ s.conns, c.id = id → c.dead = true

theorem LedgerStep.busy {e : LoopEvent} {s s' : Ledger} (h : LedgerStep e s s')
    (hs : ∀ c ∈ s.conns, c.Busy) (hfails : s.FailsOnDead e) : ∀ c ∈ s'.conns, c.Busy := by
  have hreplace : ∀ {pre post : List Entry} {c c' : Entry}, s.conns = pre ++ c :: post →
      c'.Busy → ∀ x ∈ pre ++ c' :: post, x.Busy := by
    intro pre post c c' hsplit
    rw [hsplit] at hs
    exact busy_replace hs
  cases h with
  | issue hsplit => exact hreplace hsplit (Or.inr (Or.inl rfl))
  | issueFailed hsplit _ hfail =>
      have hdead := hfails _ _ _ rfl hfail _ (mem_conns_of_split hsplit) rfl
      exact hreplace hsplit (Or.inr (Or.inr hdead))
  | @data _ _ _ c _ hsplit =>
      have hbusy : c.Busy := hs c (mem_conns_of_split hsplit)
      exact hreplace hsplit hbusy
  | connTimeout hsplit => exact hreplace hsplit (Or.inr (Or.inr rfl))
  | completeNext hsplit => exact hreplace hsplit (Or.inl rfl)
  | completeLast hsplit => exact hreplace hsplit (Or.inr (Or.inr rfl))
  | close hsplit _ _ _ htry => exact htry.busy (hreplace hsplit (Or.inr (Or.inr rfl)))
  | destroyClosed hsplit =>
      rw [hsplit] at hs
      exact busy_remove hs
  | destroyOpen hsplit _ _ htry hsplit₁ =>
      have hopened := htry.busy (hreplace hsplit (Or.inr (Or.inr rfl)))
      rw [hsplit₁] at hopened
      exact busy_remove hopened
  | cleanupTimer =>
      intro x hx
      obtain ⟨c, -, rfl⟩ := List.mem_map.mp hx
      exact Or.inr (Or.inr rfl)
  | tickRunning _ _ _ hburst =>
      obtain ⟨state, timers, hend⟩ := Ledger.tickEnd_rearm_eq _
      obtain ⟨p, hp⟩ := s.paced_eq
      rw [hend]
      rw [hp] at hburst
      exact hburst.busy hs
  | _ => exact hs

/-- A request that is not issued leaves its connection as it was, but for the
request that was queued. -/
theorem newHttpReq_failed {strdupOk newOk : Bool} {m m₁ : CltMgr} {c c' : CltMgrConn}
    (hc : EntryOk c.entry) (hfail : strdupOk = false ∨ newOk = false)
    (h : deliverNewHttpReq strdupOk newOk m c = some (m₁, c')) :
    m₁.mgrConnList = m.mgrConnList ∧ c'.entry = c.entry.giveUp ∧
      c'.evConnDestroy = c.evConnDestroy := by
  obtain ⟨hqueued, r', rc, hcreate, hout⟩ := deliverNewHttpReq_eq_some hc h
  obtain ⟨hidle, hopen⟩ := queued_idle hc hqueued
  obtain ⟨con, hcon⟩ := Option.ne_none_iff_exists'.mp hopen
  have hfailed : rc < 0 ∧ r'.con = c.req.con ∧ r'.req = none ∧
      r'.evTimeout = c.req.evTimeout := by
    cases huri : m.cfg.uri with
    | none => simp [cltReqCreate, hidle, hcon, huri] at hcreate
    | some uri =>
        by_cases hstrdup : strdupOk = true
        · have hnew : newOk = false := by
            rcases hfail with hfail | hfail
            · rw [hstrdup] at hfail
              cases hfail
            · exact hfail
          simp only [cltReqCreate, hidle, hcon, huri, hstrdup, hnew, Bool.not_true,
            Bool.not_false, Bool.false_eq_true, if_false, if_true] at hcreate
          cases hcreate
          exact ⟨by decide, hcon.symm, rfl, rfl⟩
        · simp only [cltReqCreate, hidle, hcon, huri, hstrdup, Bool.not_false,
            if_true] at hcreate
          cases hcreate
          exact ⟨by decide, hcon.symm, rfl, rfl⟩
  obtain ⟨hrc, hcon', hreq', htimer'⟩ := hfailed
  obtain ⟨-, rfl, rfl⟩ := hout.resolve_right fun hmade => hmade.1 hrc
  exact ⟨rfl, by simp [CltMgrConn.entry, Entry.giveUp, hcon', hreq', htimer', hidle], rfl⟩

/-! ## Runs -/

/-- `clt_req_create` runs out of memory only on a connection that is to be
destroyed. -/
def CreateFailsOnDead (_ : List LoopEvent) (e : LoopEvent) (m : CltMgr) : Prop :=
  ∀ id strdupOk newOk, e = .newHttpReq id strdupOk newOk → strdupOk = false ∨ newOk = false →
    ∀ c ∈ m.mgrConnList, c.id = id → c.isDead = true

/-- In every state that a run goes through something will move each connection
on, exactly when no request of the run fails to be issued on a connection that
is not to be destroyed. -/
theorem none_stranded_iff {cfg : MgrConfig} {es : List LoopEvent} {m : CltMgr}
    (h : (cltMgrSystem cfg).run es = some m) :
    (cltMgrSystem cfg).Throughout CltMgr.NoneStranded es ↔
      (cltMgrSystem cfg).Guarded CreateFailsOnDead es := by
  constructor
  · intro hall
    refine System.guarded_of_throughout _ ?_ h hall
    rintro es e m m' hrun - hstep hafter id strdupOk newOk rfl hfail c hc hid
    have hm := cltMgrOk_of_reachable ⟨es, hrun⟩
    obtain ⟨pre, x, post, m₁, x', hlist, hxid, hdeliver, rfl⟩ := onConn_eq_some hstep
    have hx : x ∈ m.mgrConnList := by simp [hlist]
    obtain rfl : c = x := List.inj_on_of_nodup_map (RosterOk.ids_nodup hm.roster) hc hx
      (hid.trans hxid.symm)
    obtain ⟨hsame, hgiveUp, hdestroy⟩ := newHttpReq_failed (hm.entryOk hlist) hfail hdeliver
    have hid' : x'.id = c.id := congrArg Entry.id hgiveUp
    have hput : (m₁.putConn x').mgrConnList = pre ++ x' :: post := by
      rw [putConn_split (by rw [hsame]; exact RosterOk.ids_nodup hm.roster)
        (hsame.trans hlist) hid']
    have hbusy := hafter x' (by simp [hput])
    have hidle : c.entry.inFlight = false := by
      by_contra hflight
      have hunqueued := (hm.entryOk hlist).inFlight_unqueued (by simpa using hflight)
      simp only [deliverNewHttpReq] at hdeliver
      rw [if_neg (by simpa [CltMgrConn.entry] using hunqueued)] at hdeliver
      cases hdeliver
    have hunqueued : isPending x'.evNewHttpReq = false := congrArg Entry.queued hgiveUp
    have hreq : x'.req.req.isSome = c.entry.inFlight := congrArg Entry.inFlight hgiveUp
    rw [hidle, Option.isSome_eq_false_iff, Option.isNone_iff_eq_none] at hreq
    rw [hunqueued, hreq, hdestroy, (hm.conns c hc).dead] at hbusy
    simpa using hbusy
  · intro hguard
    refine System.throughout_of_guarded _ ?_ ?_ hguard
    · obtain ⟨running, hledger⟩ := ledger_init cfg
      rw [noneStranded_iff (cltMgrOk_init cfg), hledger]
      simp [Ledger.start]
    · intro es e m m' hrun hG hnone hstep
      have hm := cltMgrOk_of_reachable ⟨es, hrun⟩
      obtain ⟨hm', hledger⟩ := cltMgrStep_refines hm hstep
      rw [noneStranded_iff hm] at hnone
      rw [noneStranded_iff hm']
      refine hledger.busy hnone ?_
      rintro id strdupOk newOk he hfail x hx hid
      obtain ⟨c, hc, rfl⟩ := List.mem_map.mp hx
      exact hG id strdupOk newOk he hfail c hc hid

/-- When `strdup` fails in `clt_req_create`, the connection stays on the list
with no request and nothing scheduled. -/
theorem stranded_after_strdup_failed :
    ∃ m, (cltMgrSystem oneHostConfig).run
        [.timer fun _ => allocAll, .newHttpReq 0 false true] = some m ∧
      ¬ m.NoneStranded :=
  ⟨_, rfl, fun h => absurd (h _ List.mem_cons_self) (by decide)⟩

/-- A request issued and completed leaves no connection stranded. -/
theorem none_stranded_after_complete :
    ∃ m, (cltMgrSystem oneHostConfig).run
        [.timer fun _ => allocAll, .newHttpReq 0 true true, .complete 0 200] = some m ∧
      (cltMgrSystem oneHostConfig).Throughout CltMgr.NoneStranded
        [.timer fun _ => allocAll, .newHttpReq 0 true true, .complete 0 200] := by
  have hrun : ∃ m, (cltMgrSystem oneHostConfig).run
      [.timer fun _ => allocAll, .newHttpReq 0 true true, .complete 0 200] = some m := ⟨_, rfl⟩
  obtain ⟨m, hm⟩ := hrun
  refine ⟨m, hm, (none_stranded_iff hm).mpr ?_⟩
  rintro pre e post s hsplit - id strdupOk newOk rfl hfail
  have hmem : LoopEvent.newHttpReq id strdupOk newOk ∈
      [.timer fun _ => allocAll, .newHttpReq 0 true true, .complete 0 200] := by
    rw [hsplit]
    simp
  simp only [List.mem_cons, reduceCtorEq, LoopEvent.newHttpReq.injEq, List.not_mem_nil,
    or_false, false_or] at hmem
  obtain ⟨-, rfl, rfl⟩ := hmem
  rcases hfail with hfail | hfail
  · cases hfail
  · cases hfail

end EvhtpHttp.Client

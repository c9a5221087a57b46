import EvhtpHttp.Client.ManagerCalls
import EvhtpHttp.Client.Moves
import EvhtpHttp.Client.Phases

/-!
# Request budgets

A connection never has two requests queued or in flight at once, so the checks
made when a request is queued bound the number of requests issued on it, and
after the manager has left `RUNNING` little is left to issue.
-/

namespace EvhtpHttp.Client

open EvhtpHttp.Support

/-- A move leaves the number of issued and queued requests of a connection at
most as it was, unless the response is complete and another request is queued. -/
theorem Move.issued_le {e : LoopEvent} {s : Ledger} {c c' : Entry} (h : Move e s c c') :
    c'.cur + c'.pend ≤ c.cur + c.pend ∨
      s.MayRequest c ∧ c'.cur = c.cur ∧ c'.pend = 1 := by
  have hpend := c.pend_nonneg
  cases h with
  | stay => exact Or.inl (le_refl _)
  | issue _ hqueued =>
      refine Or.inl ?_
      rw [Entry.pend_of_queued hqueued]
      simp [Entry.issue, Entry.pend]
  | next _ _ hrequest => exact Or.inr ⟨hrequest, rfl, rfl⟩
  | giveUp => exact Or.inl (by simpa [Entry.giveUp, Entry.pend] using hpend)
  | hear => exact Or.inl (le_refl _)
  | expire => exact Or.inl (by simpa [Entry.expire, Entry.pend] using hpend)
  | finish => exact Or.inl (le_refl _)
  | close => exact Or.inl (by simpa [Entry.close, Entry.pend] using hpend)
  | free => exact Or.inl (by simpa [Entry.free, Entry.pend] using hpend)
  | kill => exact Or.inl (le_refl _)

/-- The issued and queued requests of a connection are within its limits. -/
structure WithinBudget (keepalive target : ℤ) (c : Entry) : Prop where
  target_eq : c.target = target
  limit : 0 < target → c.cur + c.pend ≤ target
  single : keepalive = 0 → c.cur + c.pend ≤ 1

theorem WithinBudget.move {cfg : MgrConfig} {e : LoopEvent} {s : Ledger} {c c' : Entry}
    (hlimits : s.limits = cfg.limits)
    (hc : WithinBudget cfg.httpKeepalive cfg.targetRequestCount c) (h : Move e s c c') :
    WithinBudget cfg.httpKeepalive cfg.targetRequestCount c' := by
  have htarget : c'.target = cfg.targetRequestCount := h.same.2.trans hc.target_eq
  rcases h.issued_le with hle | ⟨⟨-, -, hkeepalive, hroom⟩, hcur, hpend⟩
  · exact ⟨htarget, fun hlimit => hle.trans (hc.limit hlimit),
      fun hsingle => hle.trans (hc.single hsingle)⟩
  · refine ⟨htarget, ?_, ?_⟩
    · intro hlimit
      have hlt := hroom (hc.target_eq ▸ hlimit)
      rw [hc.target_eq] at hlt
      omega
    · intro hsingle
      have hkeep : cfg.httpKeepalive ≠ 0 := by
        rw [hlimits] at hkeepalive
        exact hkeepalive
      exact absurd hsingle hkeep

theorem withinBudget_of_reachable {cfg : MgrConfig} {m : CltMgr}
    (h : (cltMgrSystem cfg).Reachable m) :
    ∀ c ∈ m.ledger.conns ++ m.ledger.gone,
      WithinBudget cfg.httpKeepalive cfg.targetRequestCount c := by
  refine entry_invariant ?_ (fun _ _ _ _ _ hlimits hc hmove => hc.move hlimits hmove) h
  intro id
  exact ⟨rfl, fun hlimit => by simp [Entry.fresh, Entry.pend]; omega, fun _ => le_refl _⟩

/-! ## After `RUNNING` -/

/-- What the later ledger `s'` may have beyond the earlier one: no connection is
new, and without a limit of its own a connection issues the queued request only. -/
def Drains (s s' : Ledger) : Prop :=
  ∀ c' ∈ s'.conns ++ s'.gone, ∃ c ∈ s.conns ++ s.gone,
    c.id = c'.id ∧ c.target = c'.target ∧
      (c.target ≤ 0 → c'.cur + c'.pend ≤ c.cur + c.pend)

theorem Drains.refl (s : Ledger) : Drains s s := fun c hc =>
  ⟨c, hc, rfl, rfl, fun _ => le_refl _⟩

theorem Drains.trans {s s₁ s₂ : Ledger} (h : Drains s s₁) (h' : Drains s₁ s₂) :
    Drains s s₂ := by
  intro c₂ hc₂
  obtain ⟨c₁, hc₁, hid₁, htarget₁, hle₁⟩ := h' c₂ hc₂
  obtain ⟨c, hc, hid, htarget, hle⟩ := h c₁ hc₁
  refine ⟨c, hc, hid.trans hid₁, htarget.trans htarget₁, fun hnone => ?_⟩
  exact (hle₁ (htarget ▸ hnone)).trans (hle hnone)

/-- The manager has started and left `RUNNING`. -/
def Ledger.LeftRunning (s : Ledger) : Prop :=
  s.PhaseOk ∧ s.state ≠ .running

theorem LedgerStep.leftRunning {e : LoopEvent} {s s' : Ledger} (h : LedgerStep e s s')
    (hs : s.LeftRunning) : s'.LeftRunning := by
  obtain ⟨hphase, hstate⟩ := hs
  obtain ⟨hphase', hmove⟩ := h.phaseOk hphase
  refine ⟨hphase', ?_⟩
  rcases hmove with heq | ⟨i, hi, hi'⟩
  · rw [heq]
    exact hstate
  · intro hrunning
    rw [hrunning] at hi'
    have hfirst : ∀ j : ℕ, phases[j + 1]? ≠ some .running := by
      intro j
      match j with
      | 0 => decide
      | 1 => decide
      | 2 => decide
      | 3 => decide
      | j + 4 => simp [phases]
    exact hfirst i hi'

theorem LedgerStep.drains {e : LoopEvent} {s s' : Ledger} (h : LedgerStep e s s')
    (hs : s.LeftRunning) : Drains s s' := by
  obtain ⟨hphase, hstate⟩ := hs
  intro c' hc'
  rcases h.origin hc' with ⟨hopen, -⟩ | ⟨c, hc, hmove⟩
  · have hentered := hphase.entered
    rcases hopen with hrunning | hinit
    · exact absurd hrunning hstate
    · rw [hinit] at hentered
      simp [phases] at hentered
  · obtain ⟨hid, htarget⟩ := hmove.same
    refine ⟨c, hc, hid.symm, htarget.symm, fun hnone => ?_⟩
    rcases hmove.issued_le with hle | ⟨⟨-, hrunning, -⟩, -⟩
    · exact hle
    · exact absurd (hrunning hnone) hstate

theorem drains_of_runFrom {cfg : MgrConfig} {es : List LoopEvent} {m₀ m : CltMgr}
    (h₀ : (cltMgrSystem cfg).Reachable m₀) (hstate : m₀.mgrState ≠ .running)
    (h : (cltMgrSystem cfg).runFrom es m₀ = some m) : Drains m₀.ledger m.ledger := by
  have hrel := (cltMgrSystem cfg).runFrom_rel
    (P := fun m => CltMgrOk m ∧ m.ledger.LeftRunning)
    (R := fun a b => Drains a.ledger b.ledger)
    (fun a => Drains.refl a.ledger) (fun _ _ _ => Drains.trans)
    (by
      rintro a e b ⟨ha, hleft⟩ he
      obtain ⟨hb, hstep⟩ := cltMgrStep_refines ha he
      exact ⟨⟨hb, hstep.leftRunning hleft⟩, hstep.drains hleft⟩)
    es m₀ m ⟨cltMgrOk_of_reachable h₀, phaseOk_of_reachable h₀, hstate⟩ h
  exact hrel.2

/-! ## Budgets of connections -/

/-- Every connection keeps to its budget, in every state of every run, and from
a state in which the manager has left `RUNNING` on it issues at most the
request already queued, or what is left of its budget.  What the budget counts are
the requests made on the connection. -/
theorem connection_request_budget {cfg : MgrConfig} {es fs : List LoopEvent}
    {m₀ m : CltMgr} (h₀ : (cltMgrSystem cfg).run es = some m₀)
    (h : (cltMgrSystem cfg).runFrom fs m₀ = some m) :
    ∀ c ∈ m.mgrConnList ++ m.freedConns,
      (c.req.requests.length : ℤ) = c.curReqCount ∧
        (c.targetRequestCount > 0 → c.curReqCount ≤ c.targetRequestCount) ∧
        (cfg.httpKeepalive = 0 → c.curReqCount ≤ 1) ∧
        (m₀.mgrState ≠ .running →
          ∃ c₀ ∈ m₀.mgrConnList ++ m₀.freedConns, c₀.id = c.id ∧
            (c.targetRequestCount ≤ 0 →
              c.curReqCount - c₀.curReqCount ≤
                if isPending c₀.evNewHttpReq then 1 else 0) ∧
            (c.targetRequestCount > 0 →
              c.curReqCount - c₀.curReqCount ≤
                c.targetRequestCount - c₀.curReqCount)) := by
  have hreach₀ : (cltMgrSystem cfg).Reachable m₀ := ⟨es, h₀⟩
  have hreach := hreach₀.runFrom h
  intro c hc
  have hmem : c.entry ∈ m.ledger.conns ++ m.ledger.gone := by
    rw [CltMgr.ledger, ← List.map_append]
    exact List.mem_map_of_mem hc
  have hbudget := withinBudget_of_reachable hreach c.entry hmem
  have hpend := c.entry.pend_nonneg
  have hlimit : c.targetRequestCount > 0 → c.curReqCount ≤ c.targetRequestCount := by
    intro hpos
    have htarget : c.targetRequestCount = cfg.targetRequestCount := hbudget.target_eq
    have hle := hbudget.limit (htarget ▸ hpos)
    have hcur : c.entry.cur = c.curReqCount := rfl
    omega
  refine ⟨curReqCount_of_reachable hreach c hc, hlimit, ?_, ?_⟩
  · intro hsingle
    have hle := hbudget.single hsingle
    have hcur : c.entry.cur = c.curReqCount := rfl
    omega
  · intro hstate
    obtain ⟨x, hx, hid, htarget, hle⟩ :=
      drains_of_runFrom hreach₀ hstate h c.entry hmem
    rw [CltMgr.ledger, ← List.map_append] at hx
    obtain ⟨c₀, hc₀, rfl⟩ := List.mem_map.mp hx
    refine ⟨c₀, hc₀, hid, ?_, ?_⟩
    · intro hnone
      have hbound : c.curReqCount + c.entry.pend ≤ c₀.curReqCount + c₀.entry.pend :=
        hle (htarget.trans_le hnone)
      have hpend₀ : c₀.entry.pend = if isPending c₀.evNewHttpReq then 1 else 0 := rfl
      omega
    · intro hpos
      have hcur := hlimit hpos
      omega

/-- The request queued when the running period ends is still issued, and no other. -/
theorem connection_request_budget_drained :
    ∃ m₀ m, (cltMgrSystem oneHostConfig).run
        [.timer fun _ => allocAll, .runningTimer] = some m₀ ∧
      (cltMgrSystem oneHostConfig).runFrom
        [.newHttpReq 0 true true, .complete 0 200] m₀ = some m ∧
      (∃ c₀ ∈ m₀.mgrConnList, ∃ c ∈ m.mgrConnList, c.id = c₀.id ∧
        c₀.req.requests.length = 0 ∧ c.req.requests.length = 1) ∧
      ∀ c ∈ m.mgrConnList ++ m.freedConns, c.targetRequestCount ≤ 0 →
        ∃ c₀ ∈ m₀.mgrConnList ++ m₀.freedConns, c₀.id = c.id ∧
          c.curReqCount - c₀.curReqCount ≤ if isPending c₀.evNewHttpReq then 1 else 0 := by
  have hrun : ∃ m₀ m, (cltMgrSystem oneHostConfig).run
        [.timer fun _ => allocAll, .runningTimer] = some m₀ ∧ m₀.mgrState = .waiting ∧
      (cltMgrSystem oneHostConfig).runFrom
        [.newHttpReq 0 true true, .complete 0 200] m₀ = some m ∧
      ∃ c₀ ∈ m₀.mgrConnList, ∃ c ∈ m.mgrConnList, c.id = c₀.id ∧
        c₀.req.requests.length = 0 ∧ c.req.requests.length = 1 :=
    ⟨_, _, rfl, rfl, rfl, _, List.mem_cons_self, _, List.mem_cons_self, rfl, rfl, rfl⟩
  obtain ⟨m₀, m, h₀, hstate, h, hissued⟩ := hrun
  refine ⟨m₀, m, h₀, h, hissued, fun c hc hnone => ?_⟩
  obtain ⟨-, -, -, hdrain⟩ := connection_request_budget h₀ h c hc
  obtain ⟨c₀, hc₀, hid, hle, -⟩ := hdrain (by simp [hstate])
  exact ⟨c₀, hc₀, hid, hle hnone⟩

end EvhtpHttp.Client

import EvhtpHttp.Client.Refinement

/-!
# Connections opened in one tick

The connection loop of `clt_mgr_timer_state_running` runs while its counter `j`
is at most `burst_conn`, so a tick in which no attempt fails opens one
connection more than the configured number.
-/

namespace EvhtpHttp.Client

open EvhtpHttp.Support

/-- The attempt to open a connection succeeds in the manager that `m` is after
`k` successful attempts. -/
structure AttemptSucceeds (ok : AllocOk) (m : CltMgr) (k : ℕ) : Prop where
  room : m.stats.nconn + k < m.cfg.targetNconn
  total : 0 < m.cfg.targetTotalNconnCount →
    (m.stats.connCount : ℤ) + k < m.cfg.targetTotalNconnCount
  pace : cltMgrReqratePacerCheck m.cfg.targetRequestRate
    ((cltMgrReqratePacerInc m.cfg.targetRequestRate)^[k] m.pacer) = true
  alloc : ∀ b ∈ connBlocks, ok b = true

/-- The manager after one more successful attempt, as far as the next one
depends on it. -/
structure OpenedOne (m m' : CltMgr) : Prop where
  length : m'.mgrConnList.length = m.mgrConnList.length + 1
  nextId : m'.nextId = m.nextId + 1
  state : m'.mgrState = m.mgrState
  limits : m'.cfg.limits = m.cfg.limits
  nconn : m'.stats.nconn = m.stats.nconn + 1
  connCount : m'.stats.connCount = m.stats.connCount + 1
  pacer : m'.pacer = cltMgrReqratePacerInc m.cfg.targetRequestRate m.pacer

/-- After a successful attempt the later ones are one place nearer. -/
theorem OpenedOne.attempt_iff {ok : AllocOk} {m m' : CltMgr} (h : OpenedOne m m') (k : ℕ) :
    AttemptSucceeds ok m' k ↔ AttemptSucceeds ok m (k + 1) := by
  have hnconn : m'.cfg.targetNconn = m.cfg.targetNconn := congrArg Limits.targetNconn h.limits
  have htotal : m'.cfg.targetTotalNconnCount = m.cfg.targetTotalNconnCount :=
    congrArg Limits.targetTotalNconnCount h.limits
  have hrate : m'.cfg.targetRequestRate = m.cfg.targetRequestRate :=
    congrArg Limits.targetRequestRate h.limits
  have hroom : m'.stats.nconn + k = m.stats.nconn + (k + 1 : ℕ) := by
    rw [h.nconn]
    push_cast
    omega
  have hcount : (m'.stats.connCount : ℤ) + k = m.stats.connCount + (k + 1 : ℕ) := by
    rw [h.connCount]
    push_cast
    omega
  constructor
  · rintro ⟨h₁, h₂, h₃, h₄⟩
    rw [hroom, hnconn] at h₁
    rw [hcount, htotal] at h₂
    rw [hrate, h.pacer, ← Function.iterate_succ_apply] at h₃
    exact ⟨h₁, h₂, h₃, h₄⟩
  · rintro ⟨h₁, h₂, h₃, h₄⟩
    rw [← hroom, ← hnconn] at h₁
    rw [← hcount, ← htotal] at h₂
    rw [Function.iterate_succ_apply, ← h.pacer, ← hrate] at h₃
    exact ⟨h₁, h₂, h₃, h₄⟩

theorem attemptSucceeds_zero {ok : AllocOk} {m : CltMgr} (hstate : m.mgrState = .running) :
    AttemptSucceeds ok m 0 ↔
      m.ledger.MayOpen ∧ m.pacerCheck = true ∧ ∀ b ∈ connBlocks, ok b = true := by
  constructor
  · rintro ⟨hroom, htotal, hpace, halloc⟩
    have hroom' : m.stats.nconn < m.cfg.targetNconn := by simpa using hroom
    have htotal' : 0 < m.cfg.targetTotalNconnCount →
        (m.stats.connCount : ℤ) < m.cfg.targetTotalNconnCount := by simpa using htotal
    exact ⟨⟨Or.inl hstate, htotal', hroom'⟩, hpace, halloc⟩
  · rintro ⟨⟨-, htotal, hroom⟩, hpace, halloc⟩
    have hroom' : m.stats.nconn < m.cfg.targetNconn := hroom
    have htotal' : 0 < m.cfg.targetTotalNconnCount →
        (m.stats.connCount : ℤ) < m.cfg.targetTotalNconnCount := htotal
    exact ⟨by simpa using hroom', by simpa using htotal', hpace, halloc⟩

/-- In `RUNNING` an attempt succeeds under the conditions above, and fails
without opening a connection otherwise. -/
theorem cltMgrConnTryCreate_cases {ok : AllocOk} {m m' : CltMgr} {rc : ℤ}
    (hstate : m.mgrState = .running) (h : cltMgrConnTryCreate ok m = some (m', rc)) :
    AttemptSucceeds ok m 0 ∧ rc = 0 ∧ OpenedOne m m' ∨
      ¬ AttemptSucceeds ok m 0 ∧ rc < 0 ∧ m'.mgrConnList.length = m.mgrConnList.length ∧
        m'.nextId = m.nextId := by
  rw [attemptSucceeds_zero hstate, ← cltMgrCheckCreateConn_eq_true]
  obtain htry | ⟨addr, dst, hcheck, hpace, hall, -, -, rfl, rfl⟩ := cltMgrConnTryCreate_eq_some h
  · cases htry with
    | refused hchecks =>
        exact Or.inr ⟨fun hall => hchecks ⟨hall.1, hall.2.1⟩, by decide, rfl, rfl⟩
    | noMemory _ _ hmgr =>
        refine Or.inr ⟨fun hall => ?_, by decide, rfl, rfl⟩
        simp [hall.2.2 .mgrConn (by decide)] at hmgr
    | failed _ _ _ _ hfail =>
        refine Or.inr ⟨fun hall => ?_, by decide, rfl, rfl⟩
        obtain ⟨b, hb, hfail⟩ := hfail
        simp [hall.2.2 b (List.mem_cons_of_mem _ hb)] at hfail
    | opened hcheck hpace hall =>
        exact Or.inl ⟨⟨hcheck, hpace, hall⟩, rfl, List.length_append, rfl, rfl, rfl, rfl, rfl, rfl⟩
  · refine Or.inl ⟨⟨hcheck, hpace, hall⟩, rfl, ?_, rfl, rfl, rfl, rfl, rfl, rfl⟩
    simp [CltMgr.putConn, CltMgr.opened, CltMgr.withDst]

/-- The loop opens one connection for each iteration as long as the attempts
succeed, and none after the first one that fails. -/
theorem cltMgrBurst_attempts {ok : ℕ → AllocOk} {fuel : ℕ} :
    ∀ {j : ℕ} {m m' : CltMgr}, m.mgrState = .running → (j : ℤ) + fuel = m.cfg.burstConn + 1 →
      cltMgrBurst ok fuel m.stats.nconn j m = some m' →
        ∃ n ≤ fuel, m'.mgrConnList.length = m.mgrConnList.length + n ∧
          m'.nextId = m.nextId + n ∧ (∀ k < n, AttemptSucceeds (ok (j + k)) m k) ∧
          (n < fuel → ¬ AttemptSucceeds (ok (j + n)) m n) := by
  induction fuel with
  | zero =>
      intro j m m' _ _ h
      obtain rfl := Option.some.inj h
      exact ⟨0, le_rfl, rfl, rfl, by simp, by simp⟩
  | succ fuel ih =>
      intro j m m' hstate hj h
      have hmore : (j : ℤ) ≤ m.cfg.burstConn := by
        push_cast at hj
        omega
      obtain ⟨hend, rfl⟩ | ⟨-, m₁, rc, htry, hrest⟩ := cltMgrBurst_succ_eq_some h
      · refine ⟨0, Nat.zero_le _, rfl, rfl, by simp, fun _ hfirst => hend ⟨?_, hmore⟩⟩
        simpa using hfirst.room
      rcases cltMgrConnTryCreate_cases hstate htry with
        ⟨hfirst, rfl, hopened⟩ | ⟨hfailed, hrc, hlength, hnextId⟩
      · obtain ⟨-, h⟩ := hrest.resolve_left fun hstop => absurd hstop.1 (by decide)
        rw [← hopened.nconn] at h
        have hburst : m₁.cfg.burstConn = m.cfg.burstConn :=
          congrArg Limits.burstConn hopened.limits
        obtain ⟨n, hle, hlength, hnextId, hall, hlast⟩ := ih (hopened.state.trans hstate)
          (by rw [hburst]; push_cast at hj ⊢; omega) h
        refine ⟨n + 1, Nat.succ_le_succ hle, ?_, ?_, ?_, ?_⟩
        · rw [hlength, hopened.length]
          omega
        · rw [hnextId, hopened.nextId]
          omega
        · intro k hk
          cases k with
          | zero => exact hfirst
          | succ k =>
              rw [← hopened.attempt_iff, ← Nat.add_assoc, Nat.add_right_comm]
              exact hall k (by omega)
        · intro hlt
          rw [← hopened.attempt_iff, ← Nat.add_assoc, Nat.add_right_comm]
          exact hlast (by omega)
      · obtain ⟨-, rfl⟩ := hrest.resolve_right fun hmore => hmore.1 hrc
        exact ⟨0, Nat.zero_le _, hlength, hnextId, by simp, fun _ => hfailed⟩

/-- The manager when the loop of a tick begins. -/
def CltMgr.ticked (m : CltMgr) : CltMgr :=
  if m.cfg.targetRequestRate > 0 then
    { m with pacer := cltMgrReqratePacerUpdate m.cfg.targetRequestRate m.pacer }
  else m

theorem ticked_of_paced {m : CltMgr} {p : Pacer}
    (hpaced : { m.ledger with pacer := p } = m.ledger.paced) :
    { m with pacer := p } = m.ticked := by
  have hp := congrArg Ledger.pacer hpaced
  by_cases hrate : 0 < m.cfg.targetRequestRate
  · rw [Ledger.paced_of_pos m.ledger hrate] at hp
    rw [CltMgr.ticked, if_pos hrate]
    exact congrArg (fun p => { m with pacer := p }) hp
  · rw [Ledger.paced_of_not_pos m.ledger hrate] at hp
    rw [CltMgr.ticked, if_neg hrate]
    exact congrArg (fun p => { m with pacer := p }) hp

theorem cltMgrTimerStateRunning_attempts {ok : ℕ → AllocOk} {m m' : CltMgr}
    (hstate : m.mgrState = .running) (h : cltMgrTimerStateRunning ok m = some m') :
    ∃ n ≤ (m.cfg.burstConn + 1).toNat, m'.mgrConnList.length = m.mgrConnList.length + n ∧
      m'.nextId = m.nextId + n ∧ (∀ k < n, AttemptSucceeds (ok k) m.ticked k) ∧
      (n < (m.cfg.burstConn + 1).toNat → ¬ AttemptSucceeds (ok n) m.ticked n) := by
  obtain ⟨p, m₂, hpaced, hburst, rfl⟩ := cltMgrTimerStateRunning_eq_some h
  have hsame : ∀ {α : Type} (f : CltMgr → α), f (cltMgrStateSetWaiting m₂) = f m₂ →
      f (if cltMgrCheckFinished m₂ then cltMgrStateSetWaiting m₂ else m₂) = f m₂ := by
    intro α f hf
    split
    · exact hf
    · rfl
  rw [hsame (fun m => m.mgrConnList.length) rfl, hsame CltMgr.nextId rfl]
  by_cases hneg : m.cfg.burstConn + 1 < 0
  · have hnone : (m.cfg.burstConn + 1).toNat = 0 := by omega
    rw [hnone] at hburst ⊢
    obtain rfl := Option.some.inj hburst
    exact ⟨0, le_rfl, rfl, rfl, by simp, by simp⟩
  · have hloop : ((0 : ℕ) : ℤ) + (m.cfg.burstConn + 1).toNat = m.cfg.burstConn + 1 := by
      omega
    obtain ⟨n, hle, hlength, hnextId, hall, hlast⟩ :=
      cltMgrBurst_attempts (m := { m with pacer := p }) hstate hloop hburst
    rw [ticked_of_paced hpaced] at hall hlast
    simp only [Nat.zero_add] at hall hlast
    exact ⟨n, hle, hlength, hnextId, hall, hlast⟩

/-- One tick in `RUNNING`, out of any state of the manager, opens at most
`burst_conn` connections unless the limits, the pacer and the memory let
`burst_conn + 1` attempts succeed. -/
theorem burst_limit_iff {ok : ℕ → AllocOk} {m m' : CltMgr} (hstate : m.mgrState = .running)
    (h : cltMgrTimerStateRunning ok m = some m') :
    (m'.mgrConnList.length : ℤ) - m.mgrConnList.length ≤ max m.cfg.burstConn 0 ↔
      ¬ (0 ≤ m.cfg.burstConn ∧
        ∀ k : ℕ, (k : ℤ) ≤ m.cfg.burstConn → AttemptSucceeds (ok k) m.ticked k) := by
  obtain ⟨n, hle, hlength, -, hopened, hlast⟩ := cltMgrTimerStateRunning_attempts hstate h
  by_cases hneg : m.cfg.burstConn < 0
  · refine iff_of_true (by omega) fun hall => by omega
  · have hall : (0 ≤ m.cfg.burstConn ∧
        ∀ k : ℕ, (k : ℤ) ≤ m.cfg.burstConn → AttemptSucceeds (ok k) m.ticked k) ↔
        n = (m.cfg.burstConn + 1).toNat := by
      constructor
      · rintro ⟨-, hall⟩
        by_contra hne
        exact hlast (by omega) (hall n (by omega))
      · rintro rfl
        exact ⟨by omega, fun k hk => hopened k (by omega)⟩
    rw [hall]
    omega

/-- With the defaults, where `burst_conn` is 1, the first tick opens two. -/
theorem burst_limit_exceeded :
    ∃ m', (cltMgrSystem oneHostConfig).init.mgrState = .running ∧
      cltMgrTimerStateRunning (fun _ => allocAll) (cltMgrSystem oneHostConfig).init = some m' ∧
      ¬ (m'.mgrConnList.length : ℤ) - (cltMgrSystem oneHostConfig).init.mgrConnList.length ≤
        max (cltMgrSystem oneHostConfig).init.cfg.burstConn 0 :=
  ⟨_, rfl, rfl, by decide⟩

/-- When the second attempt finds no memory the tick stays within the limit. -/
theorem burst_limit_second_attempt_fails :
    ∃ m', cltMgrTimerStateRunning (fun j _ => j = 0) (cltMgrSystem oneHostConfig).init =
        some m' ∧
      m'.mgrConnList.length = 1 ∧
      (m'.mgrConnList.length : ℤ) - (cltMgrSystem oneHostConfig).init.mgrConnList.length ≤
        max (cltMgrSystem oneHostConfig).init.cfg.burstConn 0 := by
  have hrun : ∃ m', cltMgrTimerStateRunning (fun j _ => j = 0)
      (cltMgrSystem oneHostConfig).init = some m' ∧ m'.mgrConnList.length = 1 :=
    ⟨_, rfl, rfl⟩
  obtain ⟨m', hm', hlength⟩ := hrun
  refine ⟨m', hm', hlength, (burst_limit_iff rfl hm').mpr ?_⟩
  rintro ⟨-, hall⟩
  have hsecond := (hall 1 (by decide)).alloc .mgrConn (by decide)
  simp at hsecond

end EvhtpHttp.Client

import EvhtpHttp.Client.ConnectionCap
import EvhtpHttp.Client.RequestCap
import Mathlib.Algebra.BigOperators.Ring.Finset

/-!
# The request rate of a manager and of the program

The bound on what the pacer admits, carried over to what the managers do: every
connection opened and every request attempted after its first one has asked the
pacer.  A request may be attempted later than it was admitted, while its event is
pending, so the pending requests are counted in.
-/

namespace EvhtpHttp.Client

open EvhtpHttp.Support

/-- The requests attempted or about to be: issued, failed, and queued. -/
def Ledger.attempted (s : Ledger) : ℤ :=
  s.committed + s.stats.reqCountCreateErr

/-- The requests of a manager attempted or about to be. -/
def CltMgr.attempted (m : CltMgr) : ℕ :=
  m.stats.reqCount + m.stats.reqCountCreateErr + m.queuedRequests

/-- An event that begins an interval of the pacer. -/
def begins (e : LoopEvent) (m : CltMgr) : ℤ :=
  match e with
  | .timer _ => if m.mgrState = .running then 1 else 0
  | _ => 0

/-! ## What the pacer admits to the ledger -/

/-- From `s` to `s'` the pacer has admitted `n` times. -/
structure Admits (rate : ℤ) (n : ℕ) (s s' : Ledger) : Prop where
  ok : PacerOk rate s'.pacer
  level : s'.pacer.level + 1000 * n ≤ s.pacer.level
  attempted : s'.attempted ≤ s.attempted + n
  connCount : s'.stats.connCount ≤ s.stats.connCount + n

section Steps

variable {rate : ℤ} {s s' : Ledger}

theorem PacerOk.rate_pos {p : Pacer} (h : PacerOk rate p) (hrate : 0 ≤ rate)
    (hcheck : cltMgrReqratePacerCheck rate p = true) : 0 < rate := by
  have hcur := h.cur_nonneg
  have htarget := h.target_le
  have herror := h.error_le
  rw [cltMgrReqratePacerCheck, if_neg (not_lt.mpr hrate), decide_eq_true_eq] at hcheck
  omega

theorem paceInc_level (hfits : IsInt32 (rate * 1000)) (hrate : 0 ≤ rate)
    (hlimits : s.limits.targetRequestRate = rate) (hok : PacerOk rate s.pacer)
    (hpace : s.MayPace) :
    PacerOk rate s.paceInc ∧ s.paceInc.level + 1000 = s.pacer.level := by
  subst hlimits
  have hpos := hok.rate_pos hrate hpace
  refine ⟨hok.inc hfits hpos hpace, ?_⟩
  rw [Ledger.paceInc, pacerInc_eq hfits hpos hok hpace]
  simp only [Pacer.level]
  omega

theorem Admits.refl (hok : PacerOk rate s.pacer) : Admits rate 0 s s :=
  ⟨hok, by simp, by simp, le_rfl⟩

theorem TryOpen.admits (h : TryOpen s s') (hfits : IsInt32 (rate * 1000)) (hrate : 0 ≤ rate)
    (hlimits : s.limits.targetRequestRate = rate) (hok : PacerOk rate s.pacer) :
    ∃ n, Admits rate n s s' := by
  cases h with
  | refused => exact ⟨0, Admits.refl hok⟩
  | failed => exact ⟨0, hok, by simp [Ledger.openFailed], le_of_eq (by simp; rfl), le_rfl⟩
  | opened hopen hpace =>
      obtain ⟨hok', hlevel⟩ := paceInc_level hfits hrate hlimits hok hpace
      refine ⟨1, hok', ?_, ?_, le_rfl⟩
      · simp only [Ledger.openOne, Nat.cast_one, mul_one]
        exact hlevel.le
      · simp [Ledger.attempted, Ledger.committed, Ledger.queued, Ledger.openOne, Entry.fresh]
        omega

theorem Burst.admits {k : ℕ} (h : Burst s k s') (hfits : IsInt32 (rate * 1000))
    (hrate : 0 ≤ rate) (hlimits : s.limits.targetRequestRate = rate)
    (hok : PacerOk rate s.pacer) : Admits rate k s s' := by
  induction h with
  | done => exact Admits.refl hok
  | failed => exact ⟨hok, by simp [Ledger.openFailed], le_of_eq (by simp; rfl), le_rfl⟩
  | @opened s s' k _ hpace _ ih =>
      obtain ⟨hok', hlevel⟩ := paceInc_level hfits hrate hlimits hok hpace
      obtain ⟨hend, hlevel', hattempted, hcount⟩ := ih hlimits hok'
      have hopened : s.openOne.attempted = s.attempted + 1 := by
        simp [Ledger.attempted, Ledger.committed, Ledger.queued, Ledger.openOne, Entry.fresh]
        omega
      have hpacer : s.openOne.pacer = s.paceInc := rfl
      have hconn : s.openOne.stats.connCount = s.stats.connCount + 1 := rfl
      rw [hpacer] at hlevel'
      refine ⟨hend, ?_, ?_, ?_⟩
      · push_cast
        omega
      · push_cast
        omega
      · omega

theorem Admits.of_le (hok : PacerOk rate s.pacer) (hpacer : s'.pacer = s.pacer)
    (hattempted : s'.attempted ≤ s.attempted) (hcount : s'.stats.connCount = s.stats.connCount) :
    Admits rate 0 s s' where
  ok := hpacer ▸ hok
  level := by simp [hpacer]
  attempted := by simpa using hattempted
  connCount := hcount.le

theorem Admits.trans {s₁ : Ledger} {n k : ℕ} (h : Admits rate n s s₁) (h' : Admits rate k s₁ s') :
    Admits rate (n + k) s s' where
  ok := h'.ok
  level := by
    have hfirst := h.level
    have hrest := h'.level
    push_cast
    omega
  attempted := by
    have hfirst := h.attempted
    have hrest := h'.attempted
    push_cast
    omega
  connCount := by
    have hfirst := h.connCount
    have hrest := h'.connCount
    omega

theorem attempted_le_of_replace {pre post : List Entry} {c c' : Entry}
    (hs : s.conns = pre ++ c :: post) (hs' : s'.conns = pre ++ c' :: post)
    (hle : (s'.stats.reqCount : ℤ) + c'.pend ≤ s.stats.reqCount + c.pend)
    (herr : s'.stats.reqCountCreateErr = s.stats.reqCountCreateErr) :
    s'.attempted ≤ s.attempted := by
  rw [Ledger.attempted, Ledger.attempted, herr]
  exact Int.add_le_add_right (committed_le_of_replace hs hs' hle) _

/-- Closing a connection may use up an admission, and gives up its queued request. -/
theorem closeConn_admits {pre post : List Entry} {c : Entry} {o : Outcome} {p : Pacer}
    (hfits : IsInt32 (rate * 1000)) (hrate : 0 ≤ rate)
    (hlimits : s.limits.targetRequestRate = rate) (hok : PacerOk rate s.pacer)
    (hsplit : s.conns = pre ++ c :: post) (hp : p = s.pacer ∨ s.MayPace ∧ p = s.paceInc) :
    ∃ n, Admits rate n s (s.closeConn pre c post o p) := by
  have hclosed := committed_closeConn hsplit o p
  have hpend := c.pend_nonneg
  have herr : (s.closeConn pre c post o p).stats.reqCountCreateErr =
      s.stats.reqCountCreateErr := by
    rw [Ledger.closeConn, Outcome.count_eq]
    rfl
  have hcount : (s.closeConn pre c post o p).stats.connCount = s.stats.connCount := by
    rw [Ledger.closeConn, Outcome.count_eq]
    rfl
  have hattempted : (s.closeConn pre c post o p).attempted ≤ s.attempted := by
    rw [Ledger.attempted, Ledger.attempted, herr]
    omega
  rcases hp with rfl | ⟨hpace, rfl⟩
  · exact ⟨0, Admits.of_le hok rfl hattempted hcount⟩
  · obtain ⟨hok', hlevel⟩ := paceInc_level hfits hrate hlimits hok hpace
    have hpacer : (s.closeConn pre c post o s.paceInc).pacer = s.paceInc := rfl
    refine ⟨1, hok', ?_, ?_, ?_⟩
    · rw [hpacer, Nat.cast_one, mul_one]
      exact hlevel.le
    · push_cast
      omega
    · omega

theorem freeConn_admits {pre post : List Entry} {c : Entry} (hok : PacerOk rate s.pacer)
    (hsplit : s.conns = pre ++ c :: post) : Admits rate 0 s (s.freeConn pre c post) := by
  have hfreed := committed_freeConn hsplit
  have hpend := c.pend_nonneg
  refine Admits.of_le hok rfl ?_ rfl
  have herr : (s.freeConn pre c post).stats.reqCountCreateErr = s.stats.reqCountCreateErr := rfl
  rw [Ledger.attempted, Ledger.attempted, herr]
  omega

/-- What one event admits; a tick in `RUNNING` begins an interval before it does. -/
theorem LedgerStep.admits {e : LoopEvent} (h : LedgerStep e s s') (hroster : s.RosterOk)
    (hfits : IsInt32 (rate * 1000)) (hrate : 0 ≤ rate)
    (hlimits : s.limits.targetRequestRate = rate) (hok : PacerOk rate s.pacer) :
    (∃ n, Admits rate n s s') ∨
      ∃ ok n, e = .timer ok ∧ s.state = .running ∧ Admits rate n s.paced s' := by
  cases h with
  | issue hsplit hqueued =>
      refine Or.inl ⟨0, Admits.of_le hok rfl (attempted_le_of_replace hsplit rfl ?_ rfl) rfl⟩
      rw [Entry.pend_of_queued hqueued]
      simp [Entry.issue, Entry.pend]
  | @issueFailed _ pre post c _ _ hsplit hqueued =>
      refine Or.inl ⟨0, Admits.of_le hok rfl ?_ rfl⟩
      have hreplace := committed_replace hsplit
        (rfl : ({ s with
          conns := pre ++ c.giveUp :: post
          stats := { s.stats with
            reqCountCreateErr := s.stats.reqCountCreateErr + 1 } } : Ledger).conns =
          pre ++ c.giveUp :: post)
      have hgiven : c.giveUp.pend = 0 := rfl
      rw [Entry.pend_of_queued hqueued, hgiven] at hreplace
      simp only [Ledger.attempted] at hreplace ⊢
      push_cast
      omega
  | data hsplit =>
      exact Or.inl
        ⟨0, Admits.of_le hok rfl (attempted_le_of_replace hsplit rfl le_rfl rfl) rfl⟩
  | @connTimeout _ pre post c hsplit =>
      refine Or.inl ⟨0, Admits.of_le hok rfl (attempted_le_of_replace hsplit rfl ?_ rfl) rfl⟩
      have hpend := c.pend_nonneg
      simpa [Entry.expire, Entry.pend, Outcome.count] using hpend
  | @completeNext _ pre post c status hsplit hflight _ _ hpace =>
      obtain ⟨hok', hlevel⟩ := paceInc_level hfits hrate hlimits hok hpace
      have hentry := hroster.entries c (List.mem_append_left _ (mem_conns_of_split hsplit))
      have hnext := committed_next hsplit (hentry.inFlight_unqueued hflight) status
      refine Or.inl ⟨1, hok', by simpa using hlevel.le, ?_, ?_⟩
      · rw [Ledger.attempted, hnext, countOk_eq, Ledger.attempted]
        simp only [Nat.cast_one]
        omega
      · rw [countOk_eq]
        exact Nat.le_add_right _ _
  | completeLast hsplit =>
      rw [countOk_eq]
      exact Or.inl
        ⟨0, Admits.of_le hok rfl (attempted_le_of_replace hsplit rfl le_rfl rfl) rfl⟩
  | close hsplit _ _ hp htry =>
      obtain ⟨n, hclosed⟩ := closeConn_admits hfits hrate hlimits hok hsplit hp
      obtain ⟨k, hopened⟩ := htry.admits hfits hrate hlimits hclosed.ok
      exact Or.inl ⟨n + k, hclosed.trans hopened⟩
  | destroyClosed hsplit => exact Or.inl ⟨0, freeConn_admits hok hsplit⟩
  | destroyOpen hsplit _ _ htry hsplit₁ =>
      obtain ⟨n, hclosed⟩ := closeConn_admits hfits hrate hlimits hok hsplit (Or.inl rfl)
      obtain ⟨k, hopened⟩ := htry.admits hfits hrate hlimits hclosed.ok
      have hfreed := freeConn_admits hopened.ok hsplit₁
      exact Or.inl ⟨n + k + 0, (hclosed.trans hopened).trans hfreed⟩
  | cleanupTimer =>
      refine Or.inl ⟨0, Admits.of_le hok rfl (le_of_eq ?_) rfl⟩
      have hkill : (s.conns.map Entry.kill).countP Entry.queued =
          s.conns.countP Entry.queued := by
        rw [List.countP_map]
        rfl
      simp [Ledger.attempted, Ledger.committed, Ledger.queued, hkill]
  | @tickRunning _ s₁ ok k _ hstate _ hburst =>
      have hpaced : PacerOk rate s.paced.pacer := by
        by_cases hpos : 0 < s.limits.targetRequestRate
        · rw [s.paced_of_pos hpos]
          subst hlimits
          exact hok.update hfits hpos
        · rw [s.paced_of_not_pos hpos]
          exact hok
      have hburst' := hburst.admits hfits hrate (by rw [s.paced_limits, hlimits]) hpaced
      obtain ⟨state, timers, hend⟩ := Ledger.tickEnd_rearm_eq s₁
      rw [hend]
      exact Or.inr ⟨ok, k, rfl, hstate, hburst'.ok, hburst'.level, hburst'.attempted,
        hburst'.connCount⟩
  | _ => exact Or.inl ⟨0, Admits.of_le hok rfl le_rfl rfl⟩

theorem paced_level (hfits : IsInt32 (rate * 1000)) (hrate : 0 ≤ rate)
    (hlimits : s.limits.targetRequestRate = rate) (hok : PacerOk rate s.pacer) :
    s.paced.pacer.level ≤ s.pacer.level + 10 * rate := by
  by_cases hpos : 0 < s.limits.targetRequestRate
  · rw [s.paced_of_pos hpos]
    subst hlimits
    have hlevel := level_update hfits hpos hok
    rw [hlevel]
    exact min_le_left _ _
  · rw [s.paced_of_not_pos hpos]
    omega

theorem paced_attempted (s : Ledger) : s.paced.attempted = s.attempted ∧
    s.paced.stats.connCount = s.stats.connCount := by
  obtain ⟨p, hp⟩ := s.paced_eq
  rw [hp]
  exact ⟨rfl, rfl⟩

end Steps

/-! ## Managers -/

section Manager

variable {rate : ℤ} {cfg : MgrConfig} {m m' : CltMgr} {e : LoopEvent}

theorem attempted_eq (m : CltMgr) : m.ledger.attempted = m.attempted := by
  have herr : m.ledger.stats = m.stats := rfl
  rw [Ledger.attempted, committed_eq, herr, CltMgr.attempted]
  push_cast
  omega

/-- A manager whose pacer is in order for the rate. -/
structure Paced (rate : ℤ) (m : CltMgr) : Prop where
  ok : CltMgrOk m
  rate_eq : m.cfg.targetRequestRate = rate
  pacer : PacerOk rate m.pacer

/-- One event of a manager adds to its attempts, and to its connections, at most what
it takes from the level of the pacer and a share of the rate for an interval. -/
theorem Paced.step (hfits : IsInt32 (rate * 1000)) (hrate : 0 ≤ rate) (hm : Paced rate m)
    (h : cltMgrStep e m = some m') : Paced rate m' ∧
      m'.pacer.level + 1000 * m'.attempted ≤
        m.pacer.level + 1000 * m.attempted + 10 * rate * begins e m ∧
      m'.pacer.level + 1000 * m'.stats.connCount ≤
        m.pacer.level + 1000 * m.stats.connCount + 10 * rate * begins e m := by
  obtain ⟨hok', hstep⟩ := cltMgrStep_refines hm.ok h
  have hbegins : 0 ≤ 10 * rate * begins e m := by
    refine Int.mul_nonneg (by omega) ?_
    unfold begins
    split
    · split <;> decide
    · exact le_rfl
  have hrate' : m'.cfg.targetRequestRate = rate :=
    (congrArg Limits.targetRequestRate hstep.limits_eq).trans hm.rate_eq
  have hsame := attempted_eq m
  have hsame' := attempted_eq m'
  rcases hstep.admits hm.ok.roster hfits hrate hm.rate_eq hm.pacer with
    ⟨n, hpacer, hlevel, hattempted, hcount⟩ | ⟨ok, n, rfl, hstate, hpacer, hlevel, hattempted, hcount⟩
  · rw [hsame, hsame'] at hattempted
    have hcount' : m'.stats.connCount ≤ m.stats.connCount + n := hcount
    have hlevel' : m'.pacer.level + 1000 * n ≤ m.pacer.level := hlevel
    exact ⟨⟨hok', hrate', hpacer⟩, by omega, by omega⟩
  · have hpaced := paced_level (s := m.ledger) hfits hrate hm.rate_eq hm.pacer
    obtain ⟨hattempted₀, hcount₀⟩ := paced_attempted m.ledger
    rw [hattempted₀, hsame, hsame'] at hattempted
    rw [hcount₀] at hcount
    have hcount' : m'.stats.connCount ≤ m.stats.connCount + n := hcount
    have hlevel' : m'.pacer.level + 1000 * n ≤ m.pacer.level + 10 * rate := hlevel.trans hpaced
    have hstate' : m.mgrState = .running := hstate
    have hone : begins (.timer ok) m = 1 := if_pos hstate'
    rw [hone]
    exact ⟨⟨hok', hrate', hpacer⟩, by omega, by omega⟩

theorem paced_init (hrate : 0 ≤ cfg.targetRequestRate) :
    Paced cfg.targetRequestRate (cltMgrSystem cfg).init := by
  obtain ⟨running, hledger⟩ := ledger_init cfg
  have hpacer : (cltMgrSystem cfg).init.pacer = Pacer.zero := congrArg Ledger.pacer hledger
  refine ⟨cltMgrOk_init cfg, congrArg (Limits.targetRequestRate ∘ Ledger.limits) hledger, ?_⟩
  rw [hpacer]
  exact ⟨le_rfl, by simp only [Pacer.zero]; omega, le_rfl, le_rfl, by simp only [Pacer.zero]; omega⟩

theorem paced_of_reachable (hrate : 0 ≤ cfg.targetRequestRate)
    (hfits : IsInt32 (cfg.targetRequestRate * 1000)) (h : (cltMgrSystem cfg).Reachable m) :
    Paced cfg.targetRequestRate m :=
  (cltMgrSystem cfg).invariant (paced_init hrate)
    (fun _ _ _ hm he => (hm.step hfits hrate he).1) m h

theorem Paced.level_bounds (hm : Paced rate m) :
    -(10 * rate) ≤ m.pacer.level ∧ m.pacer.level ≤ 10 * rate := by
  have hlow := hm.pacer.level_ge
  have hcur := hm.pacer.cur_nonneg
  have herror := hm.pacer.error_le
  have hrate : 0 ≤ 10 * rate := hm.pacer.error_nonneg.trans herror
  have hlevel : m.pacer.level = m.pacer.requestRateError - 1000 * m.pacer.requestCountCur := rfl
  constructor <;> omega

/-- The intervals that begin in a run of a manager out of `m`. -/
def intervalsFrom (cfg : MgrConfig) (es : List LoopEvent) (m : CltMgr) : ℤ :=
  (cltMgrSystem cfg).sumFrom begins es m

/-- In any part of any run of a manager, the requests attempted beyond those that were
pending before, and the connections opened, are at most the share of the rate of as
many intervals as begin in it, and two more. -/
theorem manager_rate_limit (hrate : 0 ≤ cfg.targetRequestRate)
    (hfits : IsInt32 (cfg.targetRequestRate * 1000)) (hm : (cltMgrSystem cfg).Reachable m)
    {es : List LoopEvent} (h : (cltMgrSystem cfg).runFrom es m = some m') :
    100 * ((m'.attempted : ℤ) - m.attempted) ≤
        (intervalsFrom cfg es m + 2) * cfg.targetRequestRate ∧
      100 * ((m'.stats.connCount : ℤ) - m.stats.connCount) ≤
        (intervalsFrom cfg es m + 2) * cfg.targetRequestRate := by
  have hpaced := paced_of_reachable hrate hfits hm
  obtain ⟨hpaced', hrequests⟩ := System.potential_le (P := Paced cfg.targetRequestRate)
    (V := fun m => m.pacer.level + 1000 * m.attempted)
    (fun m e m' hm he => (⟨(hm.step hfits hrate he).1, (hm.step hfits hrate he).2.1⟩ :
      _ ∧ _ ≤ _ + (10 * cfg.targetRequestRate) * begins e m)) hpaced h
  obtain ⟨-, hconns⟩ := System.potential_le (P := Paced cfg.targetRequestRate)
    (V := fun m => m.pacer.level + 1000 * m.stats.connCount)
    (fun m e m' hm he => (⟨(hm.step hfits hrate he).1, (hm.step hfits hrate he).2.2⟩ :
      _ ∧ _ ≤ _ + (10 * cfg.targetRequestRate) * begins e m)) hpaced h
  rw [System.sumFrom_mul] at hrequests hconns
  obtain ⟨-, hhigh⟩ := hpaced.level_bounds
  obtain ⟨hlow, -⟩ := hpaced'.level_bounds
  have hshare : (intervalsFrom cfg es m + 2) * cfg.targetRequestRate =
      cfg.targetRequestRate * intervalsFrom cfg es m + 2 * cfg.targetRequestRate := by
    rw [Int.add_mul, Int.mul_comm]
  have hscaled : 10 * cfg.targetRequestRate * (cltMgrSystem cfg).sumFrom begins es m =
      10 * (cfg.targetRequestRate * intervalsFrom cfg es m) := Int.mul_assoc _ _ _
  rw [hscaled] at hrequests hconns
  rw [hshare]
  constructor <;> omega

/-- The first interval admits two requests at 150 requests per second, where its share
is one and a half. -/
theorem manager_rate_limit_first_tick :
    ∃ m, (cltMgrSystem { oneHostConfig with targetRequestRate := 150 }).run
        [.timer fun _ => allocAll] = some m ∧
      m.attempted = 2 ∧ 100 * ((m.attempted : ℤ) - 0) ≤ (1 + 2) * 150 := by
  have hrun : ∃ m, (cltMgrSystem { oneHostConfig with targetRequestRate := 150 }).runFrom
      [.timer fun _ => allocAll]
      (cltMgrSystem { oneHostConfig with targetRequestRate := 150 }).init = some m ∧
      intervalsFrom { oneHostConfig with targetRequestRate := 150 }
        [.timer fun _ => allocAll]
        (cltMgrSystem { oneHostConfig with targetRequestRate := 150 }).init = 1 ∧
      m.attempted = 2 :=
    ⟨_, rfl, rfl, rfl⟩
  obtain ⟨m, hm, hone, htwo⟩ := hrun
  have hlimit := (manager_rate_limit (by decide) (by decide) (System.Reachable.init _) hm).1
  rw [hone] at hlimit
  exact ⟨m, hm, htwo, hlimit⟩

end Manager

/-! ## The program -/

section Workers

variable {cfg : MgrConfig} {ds : List (Fin cfg.numThreads.toNat × LoopEvent)}
  {s : Fin cfg.numThreads.toNat → CltMgr}

/-- What an event of the workers begins for the worker `i`. -/
def beginsFor (i : Fin cfg.numThreads.toNat) (d : Fin cfg.numThreads.toNat × LoopEvent)
    (s : Fin cfg.numThreads.toNat → CltMgr) : ℤ :=
  if d.1 = i then begins d.2 (s i) else 0

/-- The intervals that begin for the worker `i` in a run of the workers. -/
def workerIntervals (ds : List (Fin cfg.numThreads.toNat × LoopEvent))
    (i : Fin cfg.numThreads.toNat) : ℤ :=
  (workers cfg).sumFrom (beginsFor i) ds (workers cfg).init

theorem worker_rate (hrate : 0 ≤ (workerConfig cfg).targetRequestRate)
    (hfits : IsInt32 ((workerConfig cfg).targetRequestRate * 1000))
    (h : (workers cfg).run ds = some s) (i : Fin cfg.numThreads.toNat) :
    100 * ((s i).attempted : ℤ) ≤
        (workerIntervals ds i + 1) * (workerConfig cfg).targetRequestRate ∧
      100 * ((s i).stats.connCount : ℤ) ≤
        (workerIntervals ds i + 1) * (workerConfig cfg).targetRequestRate := by
  have hstep : ∀ (t : Fin cfg.numThreads.toNat → CltMgr) d t',
      Paced (workerConfig cfg).targetRequestRate (t i) → (workers cfg).step d t = some t' →
      Paced (workerConfig cfg).targetRequestRate (t' i) ∧
        (t' i).pacer.level + 1000 * (t' i).attempted ≤
          (t i).pacer.level + 1000 * (t i).attempted +
            (10 * (workerConfig cfg).targetRequestRate) * beginsFor i d t ∧
        (t' i).pacer.level + 1000 * (t' i).stats.connCount ≤
          (t i).pacer.level + 1000 * (t i).stats.connCount +
            (10 * (workerConfig cfg).targetRequestRate) * beginsFor i d t := by
    rintro t ⟨j, e⟩ t' ht hd
    obtain ⟨m, hm, rfl⟩ := System.interleave_step_eq_some.mp hd
    by_cases hj : j = i
    · subst hj
      have hone := ht.step hfits hrate hm
      rw [Function.update_self, beginsFor, if_pos rfl]
      exact hone
    · have hnone : beginsFor i (j, e) t = 0 := if_neg hj
      rw [Function.update_of_ne (Ne.symm hj), hnone, mul_zero, add_zero, add_zero]
      exact ⟨ht, le_rfl, le_rfl⟩
  have hstart := paced_init hrate
  obtain ⟨hpaced, hrequests⟩ := System.potential_le
    (P := fun t => Paced (workerConfig cfg).targetRequestRate (t i))
    (V := fun t => (t i).pacer.level + 1000 * (t i).attempted)
    (fun t d t' ht hd => ⟨(hstep t d t' ht hd).1, (hstep t d t' ht hd).2.1⟩) hstart h
  obtain ⟨-, hconns⟩ := System.potential_le
    (P := fun t => Paced (workerConfig cfg).targetRequestRate (t i))
    (V := fun t => (t i).pacer.level + 1000 * (t i).stats.connCount)
    (fun t d t' ht hd => ⟨(hstep t d t' ht hd).1, (hstep t d t' ht hd).2.2⟩) hstart h
  rw [System.sumFrom_mul] at hrequests hconns
  have hzero : ((workers cfg).init i).pacer.level = 0 ∧
      (((workers cfg).init i).attempted : ℤ) = 0 ∧
      (((workers cfg).init i).stats.connCount : ℤ) = 0 := by
    obtain ⟨running, hledger⟩ := ledger_init (workerConfig cfg)
    have hinit : ((workers cfg).init i).ledger = _ := hledger
    have hpacer := congrArg Ledger.pacer hinit
    have hstats := congrArg Ledger.stats hinit
    have hattempted := attempted_eq ((workers cfg).init i)
    rw [hinit] at hattempted
    refine ⟨congrArg Pacer.level hpacer, hattempted.symm, ?_⟩
    exact congrArg (fun stats : MgrStats => (stats.connCount : ℤ)) hstats
  obtain ⟨hlevel, hnone, hclosed⟩ := hzero
  rw [hlevel, hnone] at hrequests
  rw [hlevel, hclosed] at hconns
  obtain ⟨hlow, -⟩ := hpaced.level_bounds
  have hshare : (workerIntervals ds i + 1) * (workerConfig cfg).targetRequestRate =
      (workerConfig cfg).targetRequestRate * workerIntervals ds i +
        (workerConfig cfg).targetRequestRate := by
    rw [Int.add_mul, Int.mul_comm, Int.one_mul]
  have hscaled : 10 * (workerConfig cfg).targetRequestRate *
      (workers cfg).sumFrom (beginsFor i) ds (workers cfg).init =
      10 * ((workerConfig cfg).targetRequestRate * workerIntervals ds i) := Int.mul_assoc _ _ _
  rw [hscaled] at hrequests hconns
  rw [hshare]
  constructor <;> omega

theorem share_mul_le (hthreads : 1 ≤ cfg.numThreads) (hrate : 0 ≤ cfg.targetRequestRate) :
    0 ≤ (workerConfig cfg).targetRequestRate ∧
      cfg.numThreads * (workerConfig cfg).targetRequestRate ≤ cfg.targetRequestRate := by
  rw [workerConfig_targetRequestRate hthreads, divvy]
  split
  · rw [Int.tdiv_eq_ediv_of_nonneg hrate]
    exact ⟨Int.ediv_nonneg hrate (by omega), Int.mul_ediv_self_le (by omega)⟩
  · have hzero : cfg.targetRequestRate = 0 := by omega
    rw [hzero]
    simp

/-- The program keeps to the rate it was given, however the events of its workers are
interleaved: if none of them has begun more than `n` intervals, all of them together
have attempted no more requests, and opened no more connections, than the share of the
rate of `n + 1` intervals. -/
theorem program_rate_limit (hthreads : 1 ≤ cfg.numThreads) (hrate : 0 ≤ cfg.targetRequestRate)
    (hfits : IsInt32 ((workerConfig cfg).targetRequestRate * 1000))
    (h : (workers cfg).run ds = some s) {n : ℕ} (hn : ∀ i, workerIntervals ds i ≤ n) :
    100 * ((∑ i, (s i).attempted : ℕ) : ℤ) ≤ (n + 1) * cfg.targetRequestRate ∧
      100 * (totalConnCount s : ℤ) ≤ (n + 1) * cfg.targetRequestRate := by
  obtain ⟨hnonneg, hwhole⟩ := share_mul_le hthreads hrate
  have hcard : (cfg.numThreads.toNat : ℤ) = cfg.numThreads := Int.toNat_of_nonneg (by omega)
  have hall : (cfg.numThreads.toNat : ℤ) * ((n + 1) * (workerConfig cfg).targetRequestRate) ≤
      (n + 1) * cfg.targetRequestRate := by
    rw [hcard, Int.mul_left_comm]
    exact Int.mul_le_mul_of_nonneg_left hwhole (by omega)
  have hone : ∀ i, (workerIntervals ds i + 1) * (workerConfig cfg).targetRequestRate ≤
      (n + 1) * (workerConfig cfg).targetRequestRate := fun i =>
    Int.mul_le_mul_of_nonneg_right (Int.add_le_add_right (hn i) 1) hnonneg
  have hsum : ∀ f : Fin cfg.numThreads.toNat → ℕ,
      (∀ i, 100 * (f i : ℤ) ≤ (n + 1) * (workerConfig cfg).targetRequestRate) →
      100 * ((∑ i, f i : ℕ) : ℤ) ≤ (n + 1) * cfg.targetRequestRate := by
    intro f hf
    have hle := Finset.sum_le_card_nsmul Finset.univ (fun i => 100 * (f i : ℤ)) _
      fun i _ => hf i
    rw [← Finset.mul_sum, Finset.card_univ, Fintype.card_fin, nsmul_eq_mul] at hle
    push_cast
    exact hle.trans hall
  have hworker := worker_rate hnonneg hfits h
  exact ⟨hsum _ fun i => (hworker i).1.trans (hone i), hsum _ fun i => (hworker i).2.trans (hone i)⟩

/-- Two workers that share 300 requests per second. -/
theorem program_rate_limit_two_workers :
    ∃ s, (workers { oneHostConfig with numThreads := 2, targetRequestRate := 300 }).run
        [(⟨0, by decide⟩, .timer fun _ => allocAll),
          (⟨1, by decide⟩, .timer fun _ => allocAll)] = some s ∧
      100 * (totalConnCount s : ℤ) ≤ (1 + 1) * 300 := by
  have hrun : ∃ s, (workers { oneHostConfig with numThreads := 2, targetRequestRate := 300 }).run
      [(⟨0, by decide⟩, .timer fun _ => allocAll),
        (⟨1, by decide⟩, .timer fun _ => allocAll)] = some s := ⟨_, rfl⟩
  obtain ⟨s, hs⟩ := hrun
  have htwo : ∀ i : Fin ({ oneHostConfig with numThreads := 2 } : MgrConfig).numThreads.toNat,
      i = ⟨0, by decide⟩ ∨ i = ⟨1, by decide⟩ := by decide
  have hn : ∀ i, @workerIntervals
      { oneHostConfig with numThreads := 2, targetRequestRate := 300 }
      [(⟨0, by decide⟩, .timer fun _ => allocAll),
        (⟨1, by decide⟩, .timer fun _ => allocAll)] i ≤ (1 : ℕ) := by
    intro i
    rcases htwo i with rfl | rfl
    · exact le_refl (1 : ℤ)
    · exact le_refl (1 : ℤ)
  exact ⟨s, hs, (program_rate_limit (by decide) (by decide) (by decide) hs hn).2⟩

end Workers

end EvhtpHttp.Client

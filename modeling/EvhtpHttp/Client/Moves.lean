import EvhtpHttp.Client.Refinement

/-!
# The moves of one connection

What one event does, seen from a single connection: an entry of the new ledger
is either that of a connection just opened, or it comes from an entry of the old
ledger by one move, whose conditions are those under which the event makes it.
-/

namespace EvhtpHttp.Client

open EvhtpHttp.Support

/-- The moves of a connection in one event. -/
inductive Move (e : LoopEvent) (s : Ledger) : Entry → Entry → Prop
  | stay (c : Entry) : Move e s c c
  | issue {c : Entry} {strdupOk newOk : Bool} (he : e = .newHttpReq c.id strdupOk newOk)
      (hqueued : c.queued = true) : Move e s c c.issue
  | giveUp (c : Entry) : Move e s c c.giveUp
  | hear (c : Entry) : Move e s c c.hear
  | expire {c : Entry} (he : e = .connTimeout c.id) : Move e s c c.expire
  | next {c : Entry} {status : ℤ} (he : e = .complete c.id status)
      (hflight : c.inFlight = true) (hrequest : s.MayRequest c) : Move e s c c.next
  | finish {c : Entry} {status : ℤ} (he : e = .complete c.id status)
      (hflight : c.inFlight = true) : Move e s c c.finish
  | close (c : Entry) : Move e s c c.close
  | free (c : Entry) : Move e s c c.free
  | kill {c : Entry} (he : e = .cleanupTimer) : Move e s c c.kill

theorem Move.same {e : LoopEvent} {s : Ledger} {c c' : Entry} (h : Move e s c c') :
    c'.id = c.id ∧ c'.target = c.target := by
  cases h <;> exact ⟨rfl, rfl⟩

/-- The entry of a connection that an event has just opened. -/
def Opened (s : Ledger) (c : Entry) : Prop :=
  (s.state = .running ∨ s.state = .init) ∧
    ∃ id ≥ s.nextId, c = Entry.fresh id s.limits.targetRequestCount

theorem TryOpen.origin {s s' : Ledger} (h : TryOpen s s') {c : Entry}
    (hc : c ∈ s'.conns ++ s'.gone) : c ∈ s.conns ++ s.gone ∨ Opened s c := by
  cases h with
  | refused => exact Or.inl hc
  | failed => exact Or.inl hc
  | opened hopen =>
      simp only [Ledger.openOne, List.mem_append, List.mem_singleton] at hc ⊢
      rcases hc with (hc | rfl) | hc
      · exact Or.inl (Or.inl hc)
      · exact Or.inr ⟨hopen.1, s.nextId, le_refl _, rfl⟩
      · exact Or.inl (Or.inr hc)

theorem Burst.origin {s s' : Ledger} {k : ℕ} (h : Burst s k s') {c : Entry}
    (hc : c ∈ s'.conns ++ s'.gone) : c ∈ s.conns ++ s.gone ∨ Opened s c := by
  induction h with
  | done => exact Or.inl hc
  | failed => exact Or.inl hc
  | @opened s s' k hopen hpace _ ih =>
      rcases ih hc with hc | ⟨hstate, id, hid, rfl⟩
      · exact (TryOpen.opened hopen hpace).origin hc
      · exact Or.inr ⟨hstate, id, (Nat.le_succ _).trans hid, rfl⟩

section Split

variable {pre post gone : List Entry} {c c' x : Entry}

theorem mem_of_mem_split (h : x ∈ pre ++ c' :: post ++ gone) :
    x = c' ∨ x ∈ pre ++ c :: post ++ gone := by
  simp only [List.mem_append, List.mem_cons] at h ⊢
  tauto

theorem self_mem_split : c ∈ pre ++ c :: post ++ gone := by
  simp

end Split

theorem freeConn_origin {s : Ledger} {pre post : List Entry} {c : Entry}
    (hsplit : s.conns = pre ++ c :: post) {x : Entry}
    (hx : x ∈ (s.freeConn pre c post).conns ++ (s.freeConn pre c post).gone) :
    x = c.free ∨ x ∈ s.conns ++ s.gone := by
  rw [hsplit]
  simp only [Ledger.freeConn, List.mem_append, List.mem_cons, List.not_mem_nil,
    or_false] at hx ⊢
  tauto

theorem LedgerStep.origin {e : LoopEvent} {s s' : Ledger} (h : LedgerStep e s s')
    {x : Entry} (hx : x ∈ s'.conns ++ s'.gone) :
    Opened s x ∨ ∃ c ∈ s.conns ++ s.gone, Move e s c x := by
  have hmove : ∀ {pre post : List Entry} {c c' : Entry}, s.conns = pre ++ c :: post →
      Move e s c c' → x ∈ pre ++ c' :: post ++ s.gone →
      ∃ c ∈ s.conns ++ s.gone, Move e s c x := by
    intro pre post c c' hsplit hc hmem
    rw [hsplit]
    rcases mem_of_mem_split (c := c) hmem with rfl | hold
    · exact ⟨c, self_mem_split, hc⟩
    · exact ⟨x, hold, Move.stay x⟩
  cases h with
  | issue hsplit hqueued =>
      exact Or.inr (hmove hsplit (Move.issue rfl hqueued) hx)
  | issueFailed hsplit => exact Or.inr (hmove hsplit (Move.giveUp _) hx)
  | data hsplit => exact Or.inr (hmove hsplit (Move.hear _) hx)
  | connTimeout hsplit => exact Or.inr (hmove hsplit (Move.expire rfl) hx)
  | completeNext hsplit hflight hrequest =>
      exact Or.inr (hmove hsplit (Move.next rfl hflight hrequest) hx)
  | completeLast hsplit hflight =>
      exact Or.inr (hmove hsplit (Move.finish rfl hflight) hx)
  | close hsplit _ _ _ htry =>
      rcases htry.origin hx with hmem | hopened
      · exact Or.inr (hmove hsplit (Move.close _) hmem)
      · exact Or.inl hopened
  | destroyClosed hsplit =>
      rcases freeConn_origin hsplit hx with rfl | hmem
      · exact Or.inr ⟨_, by rw [hsplit]; exact self_mem_split, Move.free _⟩
      · exact Or.inr ⟨x, hmem, Move.stay x⟩
  | @destroyOpen s s₁ pre post post' c order ok hsplit _ _ htry hsplit₁ =>
      have hself : c ∈ s.conns ++ s.gone := by
        rw [hsplit]
        exact self_mem_split
      rcases freeConn_origin hsplit₁ hx with rfl | hmem
      · exact Or.inr ⟨c, hself, Move.free c⟩
      · rcases htry.origin hmem with hmem | hopened
        · exact Or.inr (hmove hsplit (Move.close _) hmem)
        · exact Or.inl hopened
  | cleanupTimer =>
      rcases List.mem_append.mp hx with hmem | hmem
      · obtain ⟨c, hc, rfl⟩ := List.mem_map.mp hmem
        exact Or.inr ⟨c, List.mem_append_left _ hc, Move.kill rfl⟩
      · exact Or.inr ⟨x, List.mem_append_right _ hmem, Move.stay x⟩
  | @tickRunning s s₁ ok k _ hstate _ hburst =>
      have hmem : x ∈ s₁.conns ++ s₁.gone := by
        obtain ⟨state, timers, hend⟩ := s₁.tickEnd_rearm_eq
        rw [hend] at hx
        exact hx
      obtain ⟨p, hp⟩ := s.paced_eq
      rw [hp] at hburst
      rcases hburst.origin hmem with hold | hopened
      · exact Or.inr ⟨x, hold, Move.stay x⟩
      · exact Or.inl hopened
  | _ => exact Or.inr ⟨x, hx, Move.stay x⟩

/-- Freeing a connection leaves every other one. -/
theorem progress_freeConn {pre post gone : List Entry} {c x : Entry}
    (hx : x ∈ pre ++ c :: post ++ gone) :
    x = c ∨ x ∈ (pre ++ post) ++ (gone ++ [c.free]) := by
  simp only [List.mem_append, List.mem_cons] at hx ⊢
  tauto

theorem LedgerStep.progress {e : LoopEvent} {s s' : Ledger} (h : LedgerStep e s s')
    {x : Entry} (hx : x ∈ s.conns ++ s.gone) :
    ∃ x' ∈ s'.conns ++ s'.gone, Move e s x x' := by
  have hmove : ∀ {pre post : List Entry} {c c' : Entry}, s.conns = pre ++ c :: post →
      Move e s c c' → ∃ x' ∈ pre ++ c' :: post ++ s.gone, Move e s x x' := by
    intro pre post c c' hsplit hc
    rw [hsplit] at hx
    rcases mem_of_mem_split (c := c') hx with rfl | hold
    · exact ⟨c', self_mem_split, hc⟩
    · exact ⟨x, hold, Move.stay x⟩
  have htried : ∀ {s₁ s₂ : Ledger}, TryOpen s₁ s₂ → ∀ y ∈ s₁.conns ++ s₁.gone,
      y ∈ s₂.conns ++ s₂.gone := by
    intro s₁ s₂ htry y hy
    obtain ⟨news, hnews, -⟩ := htry.conns_append
    rw [hnews, htry.gone_eq]
    simp only [List.mem_append] at hy ⊢
    tauto
  have hburst : ∀ {s₁ s₂ : Ledger} {k : ℕ}, Burst s₁ k s₂ → ∀ y ∈ s₁.conns ++ s₁.gone,
      y ∈ s₂.conns ++ s₂.gone := by
    intro s₁ s₂ k h
    induction h with
    | done => exact fun y hy => hy
    | failed => exact fun y hy => hy
    | opened hopen hpace _ ih =>
        exact fun y hy => ih y (htried (TryOpen.opened hopen hpace) y hy)
  cases h with
  | issue hsplit hqueued => exact hmove hsplit (Move.issue rfl hqueued)
  | issueFailed hsplit => exact hmove hsplit (Move.giveUp _)
  | data hsplit => exact hmove hsplit (Move.hear _)
  | connTimeout hsplit => exact hmove hsplit (Move.expire rfl)
  | completeNext hsplit hflight hrequest =>
      exact hmove hsplit (Move.next rfl hflight hrequest)
  | completeLast hsplit hflight => exact hmove hsplit (Move.finish rfl hflight)
  | close hsplit _ _ _ htry =>
      obtain ⟨x', hx', hxx'⟩ := hmove hsplit (Move.close _)
      exact ⟨x', htried htry x' hx', hxx'⟩
  | destroyClosed hsplit =>
      rw [hsplit] at hx
      rcases progress_freeConn hx with rfl | hmem
      · exact ⟨_, by simp [Ledger.freeConn], Move.free _⟩
      · exact ⟨x, hmem, Move.stay x⟩
  | @destroyOpen s s₁ pre post post' c order ok hsplit _ _ htry hsplit₁ =>
      obtain ⟨news, hnews, -⟩ := htry.conns_append
      have hpost : post' = post ++ news := by
        rw [hsplit₁, Ledger.closeConn] at hnews
        simpa using hnews
      rw [hsplit] at hx
      rcases progress_freeConn hx with rfl | hmem
      · exact ⟨x.close.free, by simp [Ledger.freeConn], Move.free x⟩
      · refine ⟨x, ?_, Move.stay x⟩
        simp only [Ledger.freeConn, hpost, htry.gone_eq, Ledger.closeConn,
          List.mem_append] at hmem ⊢
        tauto
  | cleanupTimer =>
      rcases List.mem_append.mp hx with hmem | hmem
      · exact ⟨x.kill, List.mem_append_left _ (List.mem_map_of_mem hmem), Move.kill rfl⟩
      · exact ⟨x, List.mem_append_right _ hmem, Move.stay x⟩
  | @tickRunning s s₁ ok k _ hstate _ hB =>
      obtain ⟨p, hp⟩ := s.paced_eq
      rw [hp] at hB
      have hmem := hburst hB x hx
      refine ⟨x, ?_, Move.stay x⟩
      obtain ⟨state, timers, hend⟩ := s₁.tickEnd_rearm_eq
      rw [hend]
      exact hmem
  | _ => exact ⟨x, hx, Move.stay x⟩

/-- A property of single connections that a new connection has and that every
move keeps holds of all connections of every reachable manager. -/
theorem entry_invariant {cfg : MgrConfig} {P : Entry → Prop}
    (hfresh : ∀ id, P (Entry.fresh id cfg.targetRequestCount))
    (hmove : ∀ e s c c', s.RosterOk → s.limits = cfg.limits → P c → Move e s c c' → P c')
    {m : CltMgr} (h : (cltMgrSystem cfg).Reachable m) :
    ∀ c ∈ m.ledger.conns ++ m.ledger.gone, P c := by
  refine ledger_invariant (P := fun s => ∀ c ∈ s.conns ++ s.gone, P c) ?_ ?_ h
  · simp [Ledger.start]
  · intro e s s' hroster hlimits hs hstep x hx
    rcases hstep.origin hx with ⟨-, id, -, rfl⟩ | ⟨c, hc, hcx⟩
    · rw [hlimits]
      exact hfresh id
    · exact hmove e s c x hroster hlimits (hs c hc) hcx

end EvhtpHttp.Client

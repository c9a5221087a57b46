import EvhtpHttp.Client.DeadConnections

/-!
# Outcomes of requests

A request is counted as answered, failed or timed out by whichever notification
comes.  Each outcome is attributed to the last request issued on the connection
that the notification is about.  After the connection's own timer has expired a
request is still in flight until the connection is destroyed, and the timer of a
connection that libevhtp has freed is started again: these are the two ways to a
second outcome.
-/

namespace EvhtpHttp.Client

open EvhtpHttp.Support

/-! ## Reports -/

/-- The request for which an event counts an outcome: the name of its connection
and its number among the requests issued there. -/
def reportedRequest (e : LoopEvent) (m : CltMgr) : Option (ℕ × ℤ) :=
  match e with
  | .connTimeout id => (m.findConn id).map fun c => (c.id, c.curReqCount)
  | .complete id _ => (m.findConn id).map fun c => (c.id, c.curReqCount)
  | .close id (.error _) _ _ => (m.findConn id).bind fun c =>
      if (hookedRequest c.req).isSome then some (c.id, c.curReqCount) else none
  | _ => none

/-- The connection whose own timer expires. -/
def LoopEvent.timedOut : LoopEvent → Option ℕ
  | .connTimeout id => some id
  | _ => none

/-- The connection that libevhtp frees, without an error, while a request is in
flight on it. -/
def droppedRequest (e : LoopEvent) (m : CltMgr) : Option ℕ :=
  match e with
  | .close id .quiet _ _ => (m.findConn id).bind fun c =>
      if c.req.req.isSome then some c.id else none
  | _ => none

/-- The outcomes counted in a run, by the requests they are attributed to. -/
def outcomes (cfg : MgrConfig) (es : List LoopEvent) : List (ℕ × ℤ) :=
  (cltMgrSystem cfg).observed reportedRequest es

/-- The connections whose own timer has expired. -/
def timedOutConns (es : List LoopEvent) : List ℕ :=
  es.filterMap LoopEvent.timedOut

/-- The connections whose last request was lost with them. -/
def droppedConns (cfg : MgrConfig) (es : List LoopEvent) : List ℕ :=
  (cltMgrSystem cfg).observed droppedRequest es

/-- The connection's own timer expires once, and while its request is in flight
or was lost with the connection; no response is completed and no error reported
for a request in flight after that. -/
def ReportsOnce (cfg : MgrConfig) (es : List LoopEvent) (e : LoopEvent) (m : CltMgr) : Prop :=
  match e with
  | .connTimeout id => id ∉ timedOutConns es ∧
      ((∃ c ∈ m.mgrConnList, c.id = id ∧ c.req.req.isSome) ∨ id ∈ droppedConns cfg es)
  | .complete id _ => id ∉ timedOutConns es
  | .close id (.error _) _ _ => id ∈ timedOutConns es →
      ∀ c ∈ m.mgrConnList, c.id = id → c.req.req.isSome = false
  | _ => True

/-! ## The same on the ledger -/

namespace Ledger

/-- The connection with this name, if it is on the list. -/
def find (id : ℕ) (s : Ledger) : Option Entry :=
  s.conns.find? fun c => c.id = id

def reported (e : LoopEvent) (s : Ledger) : Option (ℕ × ℤ) :=
  match e with
  | .connTimeout id => (s.find id).map fun c => (c.id, c.cur)
  | .complete id _ => (s.find id).map fun c => (c.id, c.cur)
  | .close id (.error _) _ _ => (s.find id).bind fun c =>
      if c.inFlight then some (c.id, c.cur) else none
  | _ => none

def dropped (e : LoopEvent) (s : Ledger) : Option ℕ :=
  match e with
  | .close id .quiet _ _ => (s.find id).bind fun c =>
      if c.inFlight then some c.id else none
  | _ => none

/-- The number of outcomes counted. -/
def outcomeCount (s : Ledger) : ℕ :=
  s.stats.reqCountOk + s.stats.reqCountErr + s.stats.reqCountTimeout

/-- The number of requests issued on all connections. -/
def issuedSum (s : Ledger) : ℤ :=
  ((s.conns ++ s.gone).map Entry.cur).sum

end Ledger

theorem find_of_split {s : Ledger} {pre post : List Entry} {c : Entry}
    (hroster : s.RosterOk) (hsplit : s.conns = pre ++ c :: post) :
    s.find c.id = some c := by
  have hnodup := hroster.nodup
  rw [List.map_append, List.nodup_append, hsplit] at hnodup
  rw [Ledger.find, hsplit]
  exact find?_split Entry.id hnodup.1

theorem ledger_find (id : ℕ) (m : CltMgr) :
    m.ledger.find id = (m.findConn id).map CltMgrConn.entry := by
  simp only [Ledger.find, CltMgr.ledger, CltMgr.findConn, List.find?_map]
  rfl

theorem reported_eq {m : CltMgr} (hm : CltMgrOk m) (e : LoopEvent) :
    m.ledger.reported e = reportedRequest e m := by
  cases e with
  | connTimeout id =>
      rw [Ledger.reported, ledger_find, Option.map_map]
      rfl
  | complete id status =>
      rw [Ledger.reported, ledger_find, Option.map_map]
      rfl
  | close id cause order ok =>
      cases cause with
      | quiet => rfl
      | error errtype =>
          rw [Ledger.reported, ledger_find, reportedRequest]
          cases hfind : m.findConn id with
          | none => rfl
          | some c =>
              have hlinked := (hm.conns c (List.mem_of_find?_eq_some hfind)).linked
              have hhooked : (hookedRequest c.req).isSome = c.entry.inFlight := by
                cases hq : hookedRequest c.req with
                | some q => simp [CltMgrConn.entry, (hookedRequest_isSome hlinked hq).2]
                | none =>
                    by_contra hne
                    have hflight : c.req.req.isSome = true := by
                      simpa [CltMgrConn.entry, Option.isSome_iff_ne_none] using hne
                    obtain ⟨q, hsome⟩ := hookedRequest_of_inFlight hlinked hflight
                    rw [hq] at hsome
                    cases hsome
              simp only [Option.map_some, Option.bind_some, hhooked]
              rfl
  | _ => rfl

theorem dropped_eq (e : LoopEvent) (m : CltMgr) :
    m.ledger.dropped e = droppedRequest e m := by
  cases e with
  | close id cause order ok =>
      cases cause with
      | quiet =>
          rw [Ledger.dropped, ledger_find, droppedRequest, Option.bind_map]
          rfl
      | error errtype => rfl
  | _ => rfl

/-! ## What a step reports -/

theorem TryOpen.outcomeCount {s s' : Ledger} (h : TryOpen s s') :
    s'.outcomeCount = s.outcomeCount := by
  cases h <;> rfl

theorem Burst.outcomeCount {s s' : Ledger} {k : ℕ} (h : Burst s k s') :
    s'.outcomeCount = s.outcomeCount := by
  induction h with
  | done => rfl
  | failed => rfl
  | opened _ _ _ ih => rw [ih]; rfl

/-- The notification of an event ends the request of a connection: the timer
marks the connection, any other notification leaves no request in flight. -/
structure Reports (e : LoopEvent) (s s' : Ledger) (c : Entry) : Prop where
  mem : c ∈ s.conns
  reported : s.reported e = some (c.id, c.cur)
  counted : s'.outcomeCount = s.outcomeCount + 1
  ended : e = .connTimeout c.id ∨
    c.inFlight = true ∧ (∃ x ∈ s'.conns ++ s'.gone, x.id = c.id ∧ x.inFlight = false) ∧
      ((∃ status, e = .complete c.id status) ∨
        ∃ errtype order ok, e = .close c.id (.error errtype) order ok)

theorem LedgerStep.reports {e : LoopEvent} {s s' : Ledger} (h : LedgerStep e s s')
    (hroster : s.RosterOk) :
    s.reported e = none ∧ s'.outcomeCount = s.outcomeCount ∨ ∃ c, Reports e s s' c := by
  cases h with
  | @connTimeout _ pre post c hsplit =>
      refine Or.inr ⟨c, mem_conns_of_split hsplit, ?_, rfl, Or.inl rfl⟩
      rw [Ledger.reported, find_of_split hroster hsplit]
      rfl
  | @completeNext _ pre post c status hsplit hflight =>
      refine Or.inr ⟨c, mem_conns_of_split hsplit, ?_, ?_, Or.inr ⟨hflight, ⟨c.next, ?_, rfl, rfl⟩,
        Or.inl ⟨status, rfl⟩⟩⟩
      · rw [Ledger.reported, find_of_split hroster hsplit]
        rfl
      · simp only [Ledger.outcomeCount]
        rw [countOk_eq]
        dsimp only
        omega
      · simp
  | @completeLast _ pre post c status hsplit hflight =>
      refine Or.inr ⟨c, mem_conns_of_split hsplit, ?_, ?_, Or.inr ⟨hflight, ⟨c.finish, ?_, rfl, rfl⟩,
        Or.inl ⟨status, rfl⟩⟩⟩
      · rw [Ledger.reported, find_of_split hroster hsplit]
        rfl
      · simp only [Ledger.outcomeCount]
        rw [countOk_eq]
        dsimp only
        omega
      · simp
  | @close _ _ pre post c cause order ok o p hsplit _ ho _ htry =>
      have hfind := find_of_split hroster hsplit
      have hcount := htry.outcomeCount
      obtain ⟨news, hnews, -⟩ := htry.conns_append
      rcases ho with ⟨rfl, hquiet⟩ | ⟨hne, hflight, errtype, rfl⟩
      · refine Or.inl ⟨?_, hcount⟩
        rcases hquiet with hidle | rfl
        · cases cause with
          | quiet => rfl
          | error errtype => simp [Ledger.reported, hfind, hidle]
        · rfl
      · refine Or.inr ⟨c, mem_conns_of_split hsplit, ?_, ?_, Or.inr ⟨hflight, ⟨c.close, ?_, rfl, rfl⟩,
          Or.inr ⟨errtype, order, ok, rfl⟩⟩⟩
        · simp [Ledger.reported, hfind, hflight]
        · rw [hcount]
          cases o with
          | none => exact absurd rfl hne
          | err =>
              simp only [Ledger.outcomeCount, Ledger.closeConn, countClosing, Outcome.count]
              omega
          | timeout =>
              simp only [Ledger.outcomeCount, Ledger.closeConn, countClosing, Outcome.count]
              omega
        · rw [hnews]
          simp [Ledger.closeConn]
  | destroyOpen _ _ _ htry => exact Or.inl ⟨rfl, htry.outcomeCount⟩
  | tickRunning _ _ _ hburst =>
      have hcount := hburst.outcomeCount
      obtain ⟨p, hp⟩ := s.paced_eq
      rw [hp] at hcount
      refine Or.inl ⟨rfl, ?_⟩
      obtain ⟨state, timers, hend⟩ := Ledger.tickEnd_rearm_eq _
      rw [hend]
      exact hcount
  | _ => exact Or.inl ⟨rfl, rfl⟩

theorem sum_cur_replace (pre post gone : List Entry) (c c' : Entry) :
    ((pre ++ c' :: post ++ gone).map Entry.cur).sum =
      ((pre ++ c :: post ++ gone).map Entry.cur).sum + (c'.cur - c.cur) := by
  simp only [List.map_append, List.map_cons, List.sum_append, List.sum_cons]
  omega

theorem TryOpen.issuedSum {s s' : Ledger} (h : TryOpen s s') :
    s'.issuedSum - s'.stats.reqCount = s.issuedSum - s.stats.reqCount := by
  cases h with
  | opened => simp [Ledger.issuedSum, Ledger.openOne, Entry.fresh]
  | _ => rfl

theorem Burst.issuedSum {s s' : Ledger} {k : ℕ} (h : Burst s k s') :
    s'.issuedSum - s'.stats.reqCount = s.issuedSum - s.stats.reqCount := by
  induction h with
  | opened hopen hpace _ ih => exact ih.trans (TryOpen.opened hopen hpace).issuedSum
  | _ => rfl

theorem LedgerStep.issuedSum {e : LoopEvent} {s s' : Ledger} (h : LedgerStep e s s') :
    s'.issuedSum - s'.stats.reqCount = s.issuedSum - s.stats.reqCount := by
  have hreplace : ∀ {s₁ s₂ : Ledger} {pre post : List Entry} {c c' : Entry},
      s₁.conns = pre ++ c :: post → s₂.conns = pre ++ c' :: post → s₂.gone = s₁.gone →
      (s₂.stats.reqCount : ℤ) - s₁.stats.reqCount = c'.cur - c.cur →
      s₂.issuedSum - s₂.stats.reqCount = s₁.issuedSum - s₁.stats.reqCount := by
    intro s₁ s₂ pre post c c' h₁ h₂ hgone hcount
    have hsum := sum_cur_replace pre post s₁.gone c c'
    rw [Ledger.issuedSum, Ledger.issuedSum, h₁, h₂, hgone, hsum]
    omega
  have hclose : ∀ {pre post : List Entry} {c : Entry} {o : Outcome} {p : Pacer},
      s.conns = pre ++ c :: post →
      (s.closeConn pre c post o p).issuedSum - (s.closeConn pre c post o p).stats.reqCount =
        s.issuedSum - s.stats.reqCount := by
    intro pre post c o p hsplit
    have hclosed : (s.closeConn pre c post o p).conns = pre ++ c.close :: post := rfl
    refine hreplace hsplit hclosed rfl ?_
    rw [Ledger.closeConn, Outcome.count_eq]
    simp [countClosing, Entry.close]
  have hfree : ∀ {s₁ : Ledger} {pre post : List Entry} {c : Entry},
      s₁.conns = pre ++ c :: post →
      (s₁.freeConn pre c post).issuedSum - (s₁.freeConn pre c post).stats.reqCount =
        s₁.issuedSum - s₁.stats.reqCount := by
    intro s₁ pre post c hsplit
    simp only [Ledger.issuedSum, Ledger.freeConn, hsplit, List.map_append, List.map_cons,
      List.sum_append, List.sum_cons, List.map_nil, List.sum_nil, Entry.free]
    omega
  cases h with
  | issue hsplit => exact hreplace hsplit rfl rfl (by simp [Entry.issue])
  | issueFailed hsplit => exact hreplace hsplit rfl rfl (by simp [Entry.giveUp])
  | data hsplit => exact hreplace hsplit rfl rfl (by simp [Entry.hear])
  | connTimeout hsplit =>
      exact hreplace hsplit rfl rfl (by simp [Entry.expire, Outcome.count])
  | completeNext hsplit =>
      exact hreplace hsplit rfl rfl (by rw [countOk_eq]; simp [Entry.next])
  | completeLast hsplit =>
      exact hreplace hsplit rfl rfl (by rw [countOk_eq]; simp [Entry.finish])
  | close hsplit _ _ _ htry => exact htry.issuedSum.trans (hclose hsplit)
  | destroyClosed hsplit => exact hfree hsplit
  | destroyOpen hsplit _ _ htry hsplit₁ =>
      exact (hfree hsplit₁).trans (htry.issuedSum.trans (hclose hsplit))
  | cleanupTimer =>
      have hkill : (s.conns.map Entry.kill).map Entry.cur = s.conns.map Entry.cur := by
        rw [List.map_map]
        rfl
      simp only [Ledger.issuedSum, List.map_append, hkill]
  | tickRunning _ _ _ hburst =>
      have hcount := hburst.issuedSum
      obtain ⟨p, hp⟩ := s.paced_eq
      rw [hp] at hcount
      obtain ⟨state, timers, hend⟩ := Ledger.tickEnd_rearm_eq _
      rw [hend]
      exact hcount
  | _ => rfl

/-! ## One outcome at most -/

/-- The event reports a request only where it can still have no outcome. -/
def Ledger.ReportsOnce (timed lost : List ℕ) (e : LoopEvent) (s : Ledger) : Prop :=
  match e with
  | .connTimeout id => id ∉ timed ∧
      ((∃ c ∈ s.conns, c.id = id ∧ c.inFlight = true) ∨ id ∈ lost)
  | .complete id _ => id ∉ timed
  | .close id (.error _) _ _ => id ∈ timed →
      ∀ c ∈ s.conns, c.id = id → c.inFlight = false
  | _ => True

/-- What the reports so far say about one connection: they are about requests
issued on it, and the last one of these has no outcome while it is in flight or
lost with the connection, unless the connection has timed out. -/
structure Told (log : List (ℕ × ℤ)) (timed lost : List ℕ) (c : Entry) : Prop where
  started : 0 ≤ c.cur
  inFlight : c.inFlight = true → 1 ≤ c.cur
  issued : ∀ k, (c.id, k) ∈ log → 1 ≤ k ∧ k ≤ c.cur
  ended : (c.id, c.cur) ∈ log → c.inFlight = false ∨ c.id ∈ timed
  idle : c.id ∈ timed → c.dead = true ∧ c.queued = false
  unheard : c.id ∈ lost → c.closed = true ∧ 1 ≤ c.cur ∧ (c.id ∈ timed ∨ (c.id, c.cur) ∉ log)

structure Ledger.ToldOk (log : List (ℕ × ℤ)) (timed lost : List ℕ) (s : Ledger) : Prop where
  entries : ∀ c ∈ s.conns ++ s.gone, Told log timed lost c
  nodup : log.Nodup
  log_mem : ∀ p ∈ log, ∃ c ∈ s.conns ++ s.gone, c.id = p.1
  timed_lt : ∀ id ∈ timed, id < s.nextId
  lost_lt : ∀ id ∈ lost, id < s.nextId
  counted : s.outcomeCount = log.length
  issued : s.issuedSum = s.stats.reqCount

/-- A move leaves the number of requests issued on the connection and puts none
in flight, unless it issues one. -/
theorem Move.cur_eq {e : LoopEvent} {s : Ledger} {c c' : Entry} (h : Move e s c c') :
    c'.cur = c.cur ∧ (c.inFlight = false → c'.inFlight = false) ∨
      c.queued = true ∧ c'.cur = c.cur + 1 := by
  cases h with
  | issue _ hqueued => exact Or.inr ⟨hqueued, rfl⟩
  | next => exact Or.inl ⟨rfl, fun _ => rfl⟩
  | finish => exact Or.inl ⟨rfl, fun _ => rfl⟩
  | close => exact Or.inl ⟨rfl, fun _ => rfl⟩
  | free => exact Or.inl ⟨rfl, fun _ => rfl⟩
  | _ => exact Or.inl ⟨rfl, id⟩

theorem Move.cur_le {e : LoopEvent} {s : Ledger} {c c' : Entry} (h : Move e s c c') :
    c.cur ≤ c'.cur := by
  rcases h.cur_eq with ⟨hsame, -⟩ | ⟨-, hnext⟩
  · exact hsame.ge
  · omega

theorem Move.closed {e : LoopEvent} {s : Ledger} {c c' : Entry} (h : Move e s c c')
    (hc : c.closed = true) : c'.closed = true := by
  cases h with
  | close => rfl
  | free => rfl
  | _ => exact hc

section Step

variable {e : LoopEvent} {s s' : Ledger} {log : List (ℕ × ℤ)} {timed lost : List ℕ}
  {c c' : Entry}

theorem Reports.unreported (h : Reports e s s' c) (hroster : s.RosterOk)
    (hs : s.ToldOk log timed lost) (hguard : s.ReportsOnce timed lost e) :
    1 ≤ c.cur ∧ (c.id, c.cur) ∉ log := by
  have hmem : c ∈ s.conns ++ s.gone := List.mem_append_left _ h.mem
  have htold := hs.entries c hmem
  have hflying : c.inFlight = true → c.id ∉ timed → 1 ≤ c.cur ∧ (c.id, c.cur) ∉ log := by
    intro hflight htimed
    refine ⟨htold.inFlight hflight, fun hlog => ?_⟩
    rcases htold.ended hlog with hidle | hdone
    · rw [hflight] at hidle
      cases hidle
    · exact htimed hdone
  rcases h.ended with rfl | ⟨hflight, -, ⟨status, rfl⟩ | ⟨errtype, order, ok, rfl⟩⟩
  · obtain ⟨htimed, ⟨x, hx, hid, hflight⟩ | hlost⟩ := hguard
    · have hsame : x = c := hroster.eq_of_id_eq (List.mem_append_left _ hx) hmem hid
      exact hflying (hsame ▸ hflight) htimed
    · obtain ⟨-, hcur, hdone | hlog⟩ := htold.unheard hlost
      · exact absurd hdone htimed
      · exact ⟨hcur, hlog⟩
  · exact hflying hflight hguard
  · refine hflying hflight fun htimed => ?_
    have hidle := hguard htimed c h.mem rfl
    rw [hflight] at hidle
    cases hidle

theorem mem_log (h : LedgerStep e s s') (hroster : s.RosterOk) {p : ℕ × ℤ}
    (hp : p ∈ log ++ (s.reported e).toList) :
    p ∈ log ∨ ∃ c, Reports e s s' c ∧ p = (c.id, c.cur) := by
  rcases List.mem_append.mp hp with hold | hnew
  · exact Or.inl hold
  · rcases h.reports hroster with ⟨hnone, -⟩ | ⟨c, hc⟩
    · rw [hnone] at hnew
      cases hnew
    · rw [hc.reported] at hnew
      exact Or.inr ⟨c, hc, by simpa using hnew⟩

theorem LedgerStep.timedOut {id : ℕ} (h : LedgerStep e s s') (he : e.timedOut = some id) :
    (∃ c ∈ s.conns, c.id = id) ∧
      ∃ x ∈ s'.conns ++ s'.gone, x.id = id ∧ x.dead = true ∧ x.queued = false := by
  cases h with
  | @connTimeout _ _ _ c hsplit =>
      cases he
      exact ⟨⟨c, by rw [hsplit]; simp, rfl⟩, c.expire, self_mem_split, rfl, rfl, rfl⟩
  | _ => cases he

/-- A request is lost when its connection is freed, and nothing is reported. -/
theorem LedgerStep.dropped {id : ℕ} (h : LedgerStep e s s') (hroster : s.RosterOk)
    (hd : s.dropped e = some id) :
    s.reported e = none ∧ ∃ c ∈ s.conns, c.id = id ∧ c.inFlight = true ∧
      ∃ x ∈ s'.conns ++ s'.gone, x.id = id ∧ x.closed = true ∧ x.cur = c.cur := by
  cases h with
  | @close _ _ pre post c cause order ok o p hsplit _ _ _ htry =>
      cases cause with
      | error errtype => cases hd
      | quiet =>
          obtain ⟨news, hnews, -⟩ := htry.conns_append
          rw [Ledger.dropped, find_of_split hroster hsplit, Option.bind_some] at hd
          split at hd
          · rename_i hflight
            cases hd
            refine ⟨rfl, c, by rw [hsplit]; simp, rfl, hflight, c.close, ?_, rfl, rfl, rfl⟩
            rw [hnews]
            simp [Ledger.closeConn]
          · cases hd
  | _ => cases hd

theorem Told.fresh {id : ℕ} {target : ℤ} (hlog : ∀ k, (id, k) ∉ log) (htimed : id ∉ timed)
    (hlost : id ∉ lost) : Told log timed lost (Entry.fresh id target) where
  started := le_refl 0
  inFlight hflight := by cases hflight
  issued k hk := absurd hk (hlog k)
  ended hk := absurd hk (hlog _)
  idle hid := absurd hid htimed
  unheard hid := absurd hid hlost

/-- A report with the number of a connection is an old one, or is about its last
request. -/
theorem mem_log_entry (h : LedgerStep e s s') (hroster : s.RosterOk)
    (hc : c ∈ s.conns ++ s.gone) {k : ℤ} (hk : (c.id, k) ∈ log ++ (s.reported e).toList) :
    (c.id, k) ∈ log ∨ Reports e s s' c ∧ k = c.cur := by
  rcases mem_log h hroster hk with hold | ⟨x, hx, heq⟩
  · exact Or.inl hold
  · obtain ⟨hid, rfl⟩ := Prod.mk.inj heq
    have hsame : x = c := hroster.eq_of_id_eq (List.mem_append_left _ hx.mem) hc hid.symm
    rw [hsame] at hx ⊢
    exact Or.inr ⟨hx, rfl⟩

namespace Told

theorem move_inFlight (htold : Told log timed lost c) (hmove : Move e s c c')
    (hflight : c'.inFlight = true) : 1 ≤ c'.cur := by
  rcases hmove.cur_eq with ⟨hsame, hidle⟩ | ⟨-, hnext⟩
  · have hflying : c.inFlight = true := by
      by_contra hnot
      have hidle' := hidle (by simpa using hnot)
      rw [hflight] at hidle'
      cases hidle'
    rw [hsame]
    exact htold.inFlight hflying
  · have hstarted := htold.started
    omega

/-- The last request is reported when it ends or the timer of its connection
expires. -/
theorem move_ended (htold : Told log timed lost c) (h : LedgerStep e s s')
    (hroster : s.RosterOk) (hc : c ∈ s.conns ++ s.gone) (hc' : c' ∈ s'.conns ++ s'.gone)
    (hmove : Move e s c c') (hk : (c.id, c'.cur) ∈ log ++ (s.reported e).toList) :
    c'.inFlight = false ∨ c.id ∈ timed ++ e.timedOut.toList := by
  rcases mem_log_entry h hroster hc hk with hold | ⟨hreport, -⟩
  · obtain ⟨-, hhigh⟩ := htold.issued _ hold
    rcases hmove.cur_eq with ⟨hsame, hidle⟩ | ⟨-, hnext⟩
    · rw [hsame] at hold
      rcases htold.ended hold with hended | hdone
      · exact Or.inl (hidle hended)
      · exact Or.inr (List.mem_append_left _ hdone)
    · omega
  · rcases hreport.ended with rfl | ⟨-, ⟨y, hy, hid, hidle⟩, -⟩
    · exact Or.inr (by simp [LoopEvent.timedOut])
    · have hsame : y = c' :=
        (h.rosterOk hroster).eq_of_id_eq hy hc' (hid.trans hmove.same.1.symm)
      exact Or.inl (hsame ▸ hidle)

theorem move_idle (htold : Told log timed lost c) (h : LedgerStep e s s')
    (hroster : s.RosterOk) (hc' : c' ∈ s'.conns ++ s'.gone) (hmove : Move e s c c')
    (hk : c.id ∈ timed ++ e.timedOut.toList) : c'.dead = true ∧ c'.queued = false := by
  rcases List.mem_append.mp hk with hold | hnew
  · obtain ⟨hdead, hunqueued⟩ := htold.idle hold
    have hdeadAt : DeadAt c.id c.cur c := ⟨rfl, rfl, hdead, hunqueued⟩
    have hmoved := hdeadAt.move hmove
    exact ⟨hmoved.dead, hmoved.unqueued⟩
  · obtain ⟨-, x, hx, hxid, hdead, hunqueued⟩ := h.timedOut (by simpa using hnew)
    have hsame : x = c' :=
      (h.rosterOk hroster).eq_of_id_eq hx hc' (hxid.trans hmove.same.1.symm)
    exact hsame ▸ ⟨hdead, hunqueued⟩

/-- A connection that was freed with its request stays closed, and only its own
timer can still report the request. -/
theorem move_lost (htold : Told log timed lost c) (h : LedgerStep e s s')
    (hroster : s.RosterOk) (hc : c ∈ s.conns ++ s.gone) (hmove : Move e s c c')
    (hlost : c.id ∈ lost) : c'.closed = true ∧ 1 ≤ c'.cur ∧
      (c.id ∈ timed ++ e.timedOut.toList ∨
        (c.id, c'.cur) ∉ log ++ (s.reported e).toList) := by
  obtain ⟨hclosed, hissued, hunheard⟩ := htold.unheard hlost
  obtain ⟨hunqueued, hidle⟩ := (hroster.entries c hc).closed_idle hclosed
  have hsame : c'.cur = c.cur := by
    rcases hmove.cur_eq with ⟨hsame, -⟩ | ⟨hqueued, -⟩
    · exact hsame
    · rw [hunqueued] at hqueued
      cases hqueued
  refine ⟨hmove.closed hclosed, hsame ▸ hissued, ?_⟩
  rw [hsame]
  rcases hunheard with hdone | hunheard
  · exact Or.inl (List.mem_append_left _ hdone)
  · by_cases hreport : (c.id, c.cur) ∈ log ++ (s.reported e).toList
    · rcases mem_log_entry h hroster hc hreport with hlog | ⟨hx, -⟩
      · exact absurd hlog hunheard
      · rcases hx.ended with rfl | ⟨hflight, -⟩
        · exact Or.inl (by simp [LoopEvent.timedOut])
        · rw [hidle] at hflight
          cases hflight
    · exact Or.inr hreport

/-- A connection is freed with its request, whose outcome is not known unless the
timer has reported it before. -/
theorem move_dropped (htold : Told log timed lost c) (h : LedgerStep e s s')
    (hroster : s.RosterOk) (hc : c ∈ s.conns ++ s.gone) (hc' : c' ∈ s'.conns ++ s'.gone)
    (hmove : Move e s c c') (hdropped : s.dropped e = some c.id) :
    c'.closed = true ∧ 1 ≤ c'.cur ∧
      (c.id ∈ timed ++ e.timedOut.toList ∨
        (c.id, c'.cur) ∉ log ++ (s.reported e).toList) := by
  obtain ⟨hnone, x, hx, hxid, hflight, y, hy, hyid, hclosed, hcur⟩ := h.dropped hroster hdropped
  have hxc : x = c := hroster.eq_of_id_eq (List.mem_append_left _ hx) hc hxid
  have hyc : y = c' :=
    (h.rosterOk hroster).eq_of_id_eq hy hc' (hyid.trans hmove.same.1.symm)
  subst hxc hyc
  refine ⟨hclosed, hcur ▸ htold.inFlight hflight, ?_⟩
  rw [hnone, hcur, Option.toList_none, List.append_nil]
  by_cases hlog : (x.id, x.cur) ∈ log
  · rcases htold.ended hlog with hidle | hdone
    · rw [hflight] at hidle
      cases hidle
    · exact Or.inl (List.mem_append_left _ hdone)
  · exact Or.inr hlog

/-- What the reports say of a connection after an event is about it or not. -/
theorem move (h : LedgerStep e s s') (hroster : s.RosterOk)
    (hs : s.ToldOk log timed lost) (hguard : s.ReportsOnce timed lost e)
    (hc : c ∈ s.conns ++ s.gone) (hc' : c' ∈ s'.conns ++ s'.gone) (hmove : Move e s c c') :
    Told (log ++ (s.reported e).toList) (timed ++ e.timedOut.toList)
      (lost ++ (s.dropped e).toList) c' := by
  have htold := hs.entries c hc
  have hid : c'.id = c.id := hmove.same.1
  constructor
  · exact htold.started.trans hmove.cur_le
  · exact htold.move_inFlight hmove
  · intro k hk
    rw [hid] at hk
    rcases mem_log_entry h hroster hc hk with hold | ⟨hreport, rfl⟩
    · obtain ⟨hlow, hhigh⟩ := htold.issued k hold
      exact ⟨hlow, hhigh.trans hmove.cur_le⟩
    · exact ⟨(hreport.unreported hroster hs hguard).1, hmove.cur_le⟩
  · rw [hid]
    exact htold.move_ended h hroster hc hc' hmove
  · rw [hid]
    exact htold.move_idle h hroster hc' hmove
  · rw [hid]
    intro hk
    rcases List.mem_append.mp hk with hold | hnew
    · exact htold.move_lost h hroster hc hmove hold
    · exact htold.move_dropped h hroster hc hc' hmove (by simpa using hnew)

end Told

/-- An event that reports only where there is no outcome yet keeps the reports
in order. -/
theorem LedgerStep.toldOk (h : LedgerStep e s s') (hroster : s.RosterOk)
    (hs : s.ToldOk log timed lost) (hguard : s.ReportsOnce timed lost e) :
    s'.ToldOk (log ++ (s.reported e).toList) (timed ++ e.timedOut.toList)
      (lost ++ (s.dropped e).toList) := by
  have hbelow : ∀ x ∈ s.conns ++ s.gone, x.id < s.nextId := hroster.below
  have hlog_lt : ∀ p ∈ log ++ (s.reported e).toList, p.1 < s.nextId := by
    intro p hp
    rcases mem_log h hroster hp with hold | ⟨x, hx, rfl⟩
    · obtain ⟨x, hx, hid⟩ := hs.log_mem p hold
      exact hid ▸ hbelow x hx
    · exact hbelow x (List.mem_append_left _ hx.mem)
  have htimed_lt : ∀ id ∈ timed ++ e.timedOut.toList, id < s.nextId := by
    intro id hid
    rcases List.mem_append.mp hid with hold | hnew
    · exact hs.timed_lt id hold
    · obtain ⟨⟨c, hc, rfl⟩, -⟩ := h.timedOut (by simpa using hnew)
      exact hbelow c (List.mem_append_left _ hc)
  have hlost_lt : ∀ id ∈ lost ++ (s.dropped e).toList, id < s.nextId := by
    intro id hid
    rcases List.mem_append.mp hid with hold | hnew
    · exact hs.lost_lt id hold
    · obtain ⟨-, c, hc, rfl, -⟩ := h.dropped hroster (by simpa using hnew)
      exact hbelow c (List.mem_append_left _ hc)
  constructor
  · intro x hx
    rcases h.origin hx with ⟨-, id, hid, rfl⟩ | ⟨c, hc, hmove⟩
    · apply Told.fresh
      · intro k hk
        have hlt := hlog_lt _ hk
        exact absurd hlt (Nat.not_lt.mpr hid)
      · intro hk
        exact absurd (htimed_lt id hk) (Nat.not_lt.mpr hid)
      · intro hk
        exact absurd (hlost_lt id hk) (Nat.not_lt.mpr hid)
    · exact Told.move h hroster hs hguard hc hx hmove
  · rcases h.reports hroster with ⟨hnone, -⟩ | ⟨c, hc⟩
    · rw [hnone, Option.toList_none, List.append_nil]
      exact hs.nodup
    · obtain ⟨-, hnew⟩ := hc.unreported hroster hs hguard
      rw [hc.reported, Option.toList_some, ← List.concat_eq_append]
      exact hs.nodup.concat hnew
  · intro p hp
    have hold : ∃ c ∈ s.conns ++ s.gone, c.id = p.1 := by
      rcases mem_log h hroster hp with hold | ⟨c, hc, rfl⟩
      · exact hs.log_mem p hold
      · exact ⟨c, List.mem_append_left _ hc.mem, rfl⟩
    obtain ⟨c, hc, hid⟩ := hold
    obtain ⟨c', hc', hmove⟩ := h.progress hc
    exact ⟨c', hc', hmove.same.1.trans hid⟩
  · exact fun id hid => (htimed_lt id hid).trans_le h.nextId_le
  · exact fun id hid => (hlost_lt id hid).trans_le h.nextId_le
  · rcases h.reports hroster with ⟨hnone, hcount⟩ | ⟨c, hc⟩
    · rw [hnone, hcount, hs.counted, Option.toList_none, List.append_nil]
    · rw [hc.reported, hc.counted, hs.counted, Option.toList_some, List.length_append,
        List.length_singleton]
  · have hsum := h.issuedSum
    rw [hs.issued] at hsum
    omega

end Step

/-! ## Runs -/

theorem ReportsOnce.ledger {cfg : MgrConfig} {es : List LoopEvent} {e : LoopEvent}
    {m : CltMgr} (h : ReportsOnce cfg es e m) :
    m.ledger.ReportsOnce (timedOutConns es) (droppedConns cfg es) e := by
  cases e with
  | connTimeout id =>
      obtain ⟨htimed, ⟨c, hc, hid, hflight⟩ | hlost⟩ := h
      · exact ⟨htimed, Or.inl ⟨c.entry, List.mem_map_of_mem hc, hid, hflight⟩⟩
      · exact ⟨htimed, Or.inr hlost⟩
  | complete id status => exact h
  | close id cause order ok =>
      cases cause with
      | quiet => trivial
      | error errtype =>
          intro htimed x hx hid
          obtain ⟨c, hc, rfl⟩ := List.mem_map.mp hx
          exact h htimed c hc hid
  | _ => trivial

theorem toldOk_of_guarded {cfg : MgrConfig} {es : List LoopEvent} {m : CltMgr}
    (hguard : (cltMgrSystem cfg).Guarded (ReportsOnce cfg) es)
    (h : (cltMgrSystem cfg).run es = some m) :
    m.ledger.ToldOk (outcomes cfg es) (timedOutConns es) (droppedConns cfg es) := by
  refine ledger_guarded_induction
    (P := fun es s => s.ToldOk (outcomes cfg es) (timedOutConns es) (droppedConns cfg es))
    ?_ ?_ es m hguard h
  · intro running
    change (Ledger.start cfg.limits running).ToldOk [] [] []
    constructor <;> simp [Ledger.start, Ledger.outcomeCount, Ledger.issuedSum, MgrStats.zero]
  · intro es e m s' hrun hG hs hstep
    have hm := cltMgrOk_of_reachable ⟨es, hrun⟩
    have htold := hstep.toldOk hm.roster hs hG.ledger
    rw [reported_eq hm, dropped_eq] at htold
    rw [outcomes, droppedConns, System.observed_concat _ _ hrun, System.observed_concat _ _ hrun,
      timedOutConns, List.filterMap_append]
    have htimed : [e].filterMap LoopEvent.timedOut = e.timedOut.toList := by
      cases h : e.timedOut with
      | none => simp [h]
      | some id => simp [h]
    rw [htimed]
    exact htold

/-- In a run in which the connection's own timer, the completions and the errors
report only where there is no outcome yet, every outcome counted is that of an
issued request, no request has two, and there are no more outcomes than
requests. -/
theorem at_most_one_outcome {cfg : MgrConfig} {es : List LoopEvent} {m : CltMgr}
    (hguard : (cltMgrSystem cfg).Guarded (ReportsOnce cfg) es)
    (h : (cltMgrSystem cfg).run es = some m) :
    (outcomes cfg es).Nodup ∧
      (∀ p ∈ outcomes cfg es, ∃ c ∈ m.mgrConnList ++ m.freedConns,
        c.id = p.1 ∧ 1 ≤ p.2 ∧ p.2 ≤ c.curReqCount) ∧
      m.stats.reqCountOk + m.stats.reqCountErr + m.stats.reqCountTimeout =
        (outcomes cfg es).length ∧
      m.stats.reqCountOk + m.stats.reqCountErr + m.stats.reqCountTimeout ≤
        m.stats.reqCount := by
  have htold := toldOk_of_guarded hguard h
  have hplaces : ∀ p ∈ outcomes cfg es, ∃ x ∈ m.ledger.conns ++ m.ledger.gone,
      x.id = p.1 ∧ 1 ≤ p.2 ∧ p.2 ≤ x.cur := by
    rintro ⟨id, k⟩ hp
    obtain ⟨x, hx, hid⟩ := htold.log_mem _ hp
    cases hid
    exact ⟨x, hx, rfl, (htold.entries x hx).issued k hp⟩
  have hcounted : m.stats.reqCountOk + m.stats.reqCountErr + m.stats.reqCountTimeout =
      (outcomes cfg es).length := htold.counted
  have hissued : m.ledger.issuedSum = m.stats.reqCount := htold.issued
  have hle := length_le_sum_of_places Entry.id htold.nodup
    (fun x hx => (htold.entries x hx).started) hplaces
  refine ⟨htold.nodup, ?_, hcounted, ?_⟩
  · intro p hp
    obtain ⟨x, hx, hid, hplace⟩ := hplaces p hp
    rw [CltMgr.ledger, ← List.map_append] at hx
    obtain ⟨c, hc, rfl⟩ := List.mem_map.mp hx
    exact ⟨c, hc, hid, hplace⟩
  · rw [Ledger.issuedSum] at hissued
    omega

/-- Both five-second timeouts of one request expire: it is counted twice. -/
theorem two_outcomes_of_one_request :
    ∃ m, (cltMgrSystem oneHostConfig).run
        [.timer fun _ => allocAll, .newHttpReq 0 true true, .data 0 .headersStart,
          .connTimeout 0, .close 0 (.error bevEventTimeout) .requestFirst allocAll] = some m ∧
      m.stats.reqCount = 1 ∧
      m.stats.reqCountOk + m.stats.reqCountErr + m.stats.reqCountTimeout = 2 :=
  ⟨_, rfl, rfl, rfl⟩

/-- When the connection is closed without an error after its own timer has
expired, its request has one outcome. -/
theorem one_outcome_of_timed_out_request :
    ∃ m, (cltMgrSystem oneHostConfig).run
        [.timer fun _ => allocAll, .newHttpReq 0 true true, .data 0 .headersStart,
          .connTimeout 0, .close 0 .quiet .requestFirst allocAll] = some m ∧
      m.stats.reqCountTimeout = 1 ∧ (outcomes oneHostConfig
        [.timer fun _ => allocAll, .newHttpReq 0 true true, .data 0 .headersStart,
          .connTimeout 0, .close 0 .quiet .requestFirst allocAll]).Nodup ∧
      m.stats.reqCountOk + m.stats.reqCountErr + m.stats.reqCountTimeout ≤
        m.stats.reqCount := by
  have hrun : ∃ m, (cltMgrSystem oneHostConfig).run
        [.timer fun _ => allocAll, .newHttpReq 0 true true, .data 0 .headersStart,
          .connTimeout 0, .close 0 .quiet .requestFirst allocAll] = some m ∧
      m.stats.reqCountTimeout = 1 := ⟨_, rfl, rfl⟩
  have hguard : (cltMgrSystem oneHostConfig).Guarded (ReportsOnce oneHostConfig)
      ((((([] ++ [LoopEvent.timer fun _ => allocAll]) ++
        [LoopEvent.newHttpReq 0 true true]) ++ [LoopEvent.data 0 .headersStart]) ++
        [LoopEvent.connTimeout 0]) ++
        [LoopEvent.close 0 .quiet .requestFirst allocAll]) := by
    refine System.Guarded.concat _ (System.Guarded.concat _ (System.Guarded.concat _
      (System.Guarded.concat _ (System.Guarded.concat _ (System.guarded_nil _ _)
        ?_) ?_) ?_) ?_) ?_
    · exact fun _ _ => trivial
    · exact fun _ _ => trivial
    · exact fun _ _ => trivial
    · rintro m ⟨⟩
      exact ⟨by simp [timedOutConns, LoopEvent.timedOut],
        Or.inl ⟨_, List.mem_cons_self, rfl, rfl⟩⟩
    · exact fun _ _ => trivial
  obtain ⟨m, hm, htimeout⟩ := hrun
  obtain ⟨hnodup, -, -, hle⟩ := at_most_one_outcome hguard hm
  exact ⟨m, hm, htimeout, hnodup, hle⟩

end EvhtpHttp.Client

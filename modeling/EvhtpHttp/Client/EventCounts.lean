import EvhtpHttp.Client.RampUp
import EvhtpHttp.Client.Survival

/-!
# What the statistics count

The counters of a manager against the events of its run.  A table says in which
fields an event counts; the value of a field is the number of times that the
events of the run count in it, each in the state in which it was delivered.
-/

namespace EvhtpHttp.Client

open EvhtpHttp.Support

/-! ## Counting in a field -/

/-- One more in a field. -/
def MgrStats.inc (s : MgrStats) : StatsField → MgrStats
  | .nconn => { s with nconn := s.nconn + 1 }
  | .nconnCreateFailed => { s with nconnCreateFailed := s.nconnCreateFailed + 1 }
  | .connCount => { s with connCount := s.connCount + 1 }
  | .connClosingCount => { s with connClosingCount := s.connClosingCount + 1 }
  | .reqCount => { s with reqCount := s.reqCount + 1 }
  | .reqCountOk => { s with reqCountOk := s.reqCountOk + 1 }
  | .reqCountErr => { s with reqCountErr := s.reqCountErr + 1 }
  | .reqCountCreateErr => { s with reqCountCreateErr := s.reqCountCreateErr + 1 }
  | .reqCountTimeout => { s with reqCountTimeout := s.reqCountTimeout + 1 }
  | .reqStatustype200 => { s with reqStatustype200 := s.reqStatustype200 + 1 }
  | .reqStatustype302 => { s with reqStatustype302 := s.reqStatustype302 + 1 }
  | .reqStatustypeOther => { s with reqStatustypeOther := s.reqStatustypeOther + 1 }

theorem field_inc (s : MgrStats) (g f : StatsField) :
    (s.inc g).field f = s.field f + if g = f then 1 else 0 := by
  cases g <;> cases f <;> simp [MgrStats.inc, MgrStats.field]

/-- One more in each field of a list, as often as it is there. -/
theorem field_foldl_inc (fs : List StatsField) (s : MgrStats) (f : StatsField) :
    (fs.foldl MgrStats.inc s).field f = s.field f + fs.count f := by
  induction fs generalizing s with
  | nil => simp
  | cons g fs ih =>
      rw [List.foldl_cons, ih, field_inc, List.count_cons]
      by_cases hg : g = f
      · simp only [hg, if_true, beq_self_eq_true]
        push_cast
        omega
      · simp [hg]

/-- The fields about the connections that are there, which count no events. -/
def StatsField.OfPool (f : StatsField) : Prop :=
  f = .nconn ∨ f = .nconnCreateFailed ∨ f = .connCount

instance (f : StatsField) : Decidable f.OfPool :=
  inferInstanceAs (Decidable (_ ∨ _))

/-! ## The table -/

/-- The field for a status. -/
def statustypeField (status : ℤ) : StatsField :=
  if status = 200 then .reqStatustype200
  else if status = 302 then .reqStatustype302
  else .reqStatustypeOther

/-- The field in which the error hook counts the request in progress. -/
def CloseCause.fields : CloseCause → List StatsField
  | .quiet => []
  | .error errtype =>
    if errtype &&& bevEventTimeout ≠ 0 then [.reqCountTimeout] else [.reqCountErr]

/-- The fields in which an event counts, delivered in the state `m`. -/
def LoopEvent.fields (e : LoopEvent) (m : CltMgr) : List StatsField :=
  match e with
  | .newHttpReq _ strdupOk newOk =>
    if strdupOk && newOk then [.reqCount] else [.reqCountCreateErr]
  | .complete _ status => [.reqCountOk, statustypeField status]
  | .connTimeout _ => [.reqCountTimeout]
  | .close id cause _ _ =>
    (if (m.findConn id).any fun c => (hookedRequest c.req).isSome then cause.fields else []) ++
      [.connClosingCount]
  | .connDestroy id _ _ =>
    if (m.findConn id).any fun c => c.req.con.isSome then [.connClosingCount] else []
  | _ => []

theorem countOk_eq_inc (status : ℤ) (stats : MgrStats) :
    countOk status stats = [.reqCountOk, statustypeField status].foldl MgrStats.inc stats := by
  unfold countOk mgrStatustypeUpdate statustypeField
  split
  · rfl
  · split
    · rfl
    · rfl

/-! ## What the pool changes -/

section Pool

variable {s s' : Ledger} {f : StatsField}

theorem field_openFailed (hf : ¬ f.OfPool) : s.openFailed.stats.field f = s.stats.field f := by
  cases f <;> first | rfl | exact absurd (by decide) hf

theorem field_openOne (hf : ¬ f.OfPool) : s.openOne.stats.field f = s.stats.field f := by
  cases f <;> first | rfl | exact absurd (by decide) hf

theorem TryOpen.field_eq (h : TryOpen s s') (hf : ¬ f.OfPool) :
    s'.stats.field f = s.stats.field f := by
  cases h with
  | refused => rfl
  | failed => exact field_openFailed hf
  | opened => exact field_openOne hf

theorem Burst.field_eq {k : ℕ} (h : Burst s k s') (hf : ¬ f.OfPool) :
    s'.stats.field f = s.stats.field f := by
  induction h with
  | done => rfl
  | failed => exact field_openFailed hf
  | opened _ _ _ ih => exact ih.trans (field_openOne hf)

theorem field_freeConn (hf : ¬ f.OfPool) (pre post : List Entry) (c : Entry) :
    (s.freeConn pre c post).stats.field f = s.stats.field f := by
  cases f <;> first | rfl | exact absurd (by decide) hf

end Pool

/-! ## One event -/

section Step

variable {m m' : CltMgr} {e : LoopEvent} {f : StatsField}

theorem findConn_of_ledger (hm : CltMgrOk m) {pre post : List Entry} {x : Entry}
    (hs : m.ledger.conns = pre ++ x :: post) : ∃ c, m.findConn x.id = some c ∧ c.entry = x := by
  have hmem : x ∈ m.ledger.conns := by
    rw [hs]
    exact List.mem_append_right _ List.mem_cons_self
  obtain ⟨c, hc, rfl⟩ := List.mem_map.mp hmem
  exact ⟨c, findConn_of_mem hm hc, rfl⟩

/-- What every event but a due request and the end of a connection counts. -/
theorem LedgerStep.field_eq {s' : Ledger} (hm : CltMgrOk m) (h : LedgerStep e m.ledger s')
    (hnew : ∀ id strdupOk newOk, e ≠ .newHttpReq id strdupOk newOk)
    (hclose : ∀ id cause order ok, e ≠ .close id cause order ok) (hf : ¬ f.OfPool) :
    s'.stats.field f = m.stats.field f + (e.fields m).count f := by
  have hsame : ∀ {stats : MgrStats}, stats.field f = m.stats.field f →
      stats.field f = m.stats.field f + ([] : List StatsField).count f := by
    intro stats hstats
    rw [hstats, List.count_nil, Int.natCast_zero, Int.add_zero]
  cases h with
  | issue => exact absurd rfl (hnew _ _ _)
  | issueFailed => exact absurd rfl (hnew _ _ _)
  | close => exact absurd rfl (hclose _ _ _ _)
  | connTimeout => exact field_foldl_inc [.reqCountTimeout] m.stats f
  | @completeNext _ _ _ _ status =>
      simp only [countOk_eq_inc]
      exact field_foldl_inc [.reqCountOk, statustypeField status] m.stats f
  | @completeLast _ _ _ _ status =>
      simp only [countOk_eq_inc]
      exact field_foldl_inc [.reqCountOk, statustypeField status] m.stats f
  | destroyClosed hs _ hclosed =>
      obtain ⟨c, hfind, rfl⟩ := findConn_of_ledger hm hs
      have hnone : c.req.con.isSome = false := by simpa [CltMgrConn.entry] using hclosed
      rw [field_freeConn hf, LoopEvent.fields, hfind, Option.any_some, hnone]
      exact hsame rfl
  | destroyOpen hs _ hopen htry =>
      obtain ⟨c, hfind, rfl⟩ := findConn_of_ledger hm hs
      have hsome : c.req.con.isSome = true := by simpa [CltMgrConn.entry] using hopen
      rw [field_freeConn hf, htry.field_eq hf, LoopEvent.fields, hfind, Option.any_some, hsome]
      exact field_foldl_inc [.connClosingCount] m.stats f
  | @tickRunning _ s₁ _ _ _ _ _ hburst =>
      obtain ⟨p, hp⟩ := m.ledger.paced_eq
      obtain ⟨state, timers, hend⟩ := s₁.tickEnd_rearm_eq
      rw [hend]
      refine hsame ((hburst.field_eq hf).trans ?_)
      rw [hp]
      rfl
  | _ => exact hsame rfl

/-- Whether a request is made depends on the two allocations only. -/
theorem cltReqCreate_code {strdupOk newOk : Bool} {uri : Option String} {keepalive rc : ℤ}
    {r r' : ClientReq} (hopen : r.con ≠ none) (hidle : r.req = none)
    (h : cltReqCreate strdupOk newOk uri keepalive r = some (r', rc)) :
    rc < 0 ↔ (strdupOk && newOk) = false := by
  obtain ⟨con, hcon⟩ := Option.ne_none_iff_exists'.mp hopen
  obtain rfl | ⟨path, rfl⟩ := Option.eq_none_or_eq_some uri
  · simp [cltReqCreate, hcon, hidle] at h
  · simp only [cltReqCreate, hcon, hidle] at h
    cases strdupOk with
    | false =>
        obtain ⟨-, rfl⟩ := Prod.mk.inj (Option.some.inj h)
        simp
    | true =>
        cases newOk with
        | false =>
            obtain ⟨-, rfl⟩ := Prod.mk.inj (Option.some.inj h)
            simp
        | true =>
            obtain ⟨-, rfl⟩ := Prod.mk.inj (Option.some.inj h)
            simp

theorem newHttpReq_field {id : ℕ} {strdupOk newOk : Bool} (hm : CltMgrOk m)
    (h : cltMgrStep (.newHttpReq id strdupOk newOk) m = some m') :
    m'.stats.field f =
      m.stats.field f + ((LoopEvent.newHttpReq id strdupOk newOk).fields m).count f := by
  obtain ⟨pre, c, post, m₁, c', hlist, -, hdeliver, rfl⟩ := onConn_eq_some h
  have hentry := hm.entryOk hlist
  obtain ⟨hqueued, r', rc, hcreate, hout⟩ := deliverNewHttpReq_eq_some hentry hdeliver
  obtain ⟨hidle, hopen⟩ := queued_idle hentry hqueued
  have hcode := cltReqCreate_code hopen hidle hcreate
  obtain ⟨hrc, rfl, -⟩ | ⟨hrc, rfl, -⟩ := hout
  · rw [LoopEvent.fields, hcode.mp hrc]
    exact field_foldl_inc [.reqCountCreateErr] m.stats f
  · rw [LoopEvent.fields, Bool.eq_true_of_not_eq_false (hrc ∘ hcode.mpr)]
    exact field_foldl_inc [.reqCount] m.stats f

theorem evhtpErrorHook_stats {c : CltMgrConn} {cause : CloseCause} {ok : AllocOk} {r : ClientReq}
    {ctl : ConnCtl} (hc : ConnOk c)
    (h : evhtpErrorHook (cltMgrConnNotifyCb ok) cause c.req (m, c.toConnCtl) =
      some (r, m', ctl)) :
    m'.stats =
      (if (hookedRequest c.req).isSome then cause.fields else []).foldl MgrStats.inc m.stats := by
  cases cause with
  | quiet =>
      cases h
      rw [CloseCause.fields, ite_self]
      rfl
  | error errtype =>
      cases hq : hookedRequest c.req with
      | none =>
          simp only [evhtpErrorHook, hq] at h
          cases h
          rfl
      | some q =>
          simp only [evhtpErrorHook, hq] at h
          obtain ⟨hnotify, -⟩ := cltUpstreamError_spec h
          rw [Option.isSome_some, if_pos rfl, CloseCause.fields]
          split at hnotify
          · rename_i htimeout
            rw [if_pos htimeout, (notify_requestTimeout hc.queued hnotify).1]
            rfl
          · rename_i htimeout
            rw [if_neg htimeout, (notify_requestDoneError hnotify).1]
            rfl

/-- The end of a connection counts as such, after what the error hook counts. -/
theorem close_field {id : ℕ} {cause : CloseCause} {order : FreeOrder} {ok : AllocOk}
    (hm : CltMgrOk m) (h : cltMgrStep (.close id cause order ok) m = some m')
    (hf : ¬ f.OfPool) :
    m'.stats.field f =
      m.stats.field f + ((LoopEvent.close id cause order ok).fields m).count f := by
  obtain ⟨pre, c, post, m₁, c', hlist, rfl, hdeliver, rfl⟩ := onConn_eq_some h
  have hmem : c ∈ m.mgrConnList := by
    rw [hlist]
    exact List.mem_append_right _ List.mem_cons_self
  have hc := hm.connOk hlist
  obtain ⟨con, r₁, m₂, ctl₁, r', ctl', hcon, herror, hfree, -⟩ := deliverClose_eq_some hdeliver
  have hstats := evhtpErrorHook_stats hc herror
  obtain ⟨o, -, rfl, hkeeps, hlinked, hcon₁⟩ := evhtpErrorHook_spec hc herror
  obtain ⟨p, rc, -, htry, -⟩ :=
    evhtpConnectionFree_notify hkeeps hlinked (by simp [hcon₁, hcon]) hfree
  have hopened := (cltMgrConnTryCreate_tryOpen
    (m := { m with pacer := p, stats := countClosing (o.count m.stats) })
    (RosterOk.ne_nextId hm.roster) htry).field_eq hf
  have hclosing : countClosing (o.count m.stats) =
      ((LoopEvent.close c.id cause order ok).fields m).foldl MgrStats.inc m.stats := by
    rw [LoopEvent.fields, findConn_of_mem hm hmem, Option.any_some, List.foldl_append, ← hstats]
    rfl
  have hfield := field_foldl_inc ((LoopEvent.close c.id cause order ok).fields m) m.stats f
  rw [← hclosing] at hfield
  exact hopened.trans hfield

/-- Every event counts in the fields of the table, and in no other one. -/
theorem cltMgrStep_field (hm : CltMgrOk m) (h : cltMgrStep e m = some m') (hf : ¬ f.OfPool) :
    m'.stats.field f = m.stats.field f + (e.fields m).count f := by
  obtain ⟨-, hstep⟩ := cltMgrStep_refines hm h
  cases e with
  | newHttpReq => exact newHttpReq_field hm h
  | close => exact close_field hm h hf
  | _ => exact hstep.field_eq hm (by simp) (by simp) hf

end Step

/-! ## Whole runs -/

section Run

variable {cfg : MgrConfig} {es : List LoopEvent} {m : CltMgr}

theorem gone_length_of_run (h : (cltMgrSystem cfg).run es = some m) :
    m.ledger.gone.length = es.countP LoopEvent.isDestroy := by
  have hids := congrArg List.length (freed_ids_of_run h)
  rw [List.length_map, List.length_filterMap_eq_countP] at hids
  have hkind : (fun e : LoopEvent => e.destroyed.isSome) = LoopEvent.isDestroy := by
    funext e
    cases e <;> rfl
  rw [CltMgr.ledger, List.length_map, hids, hkind]

/-- After every run, every counter but those of the pool is the number of times that
the events of the run count in it, and the connections that were opened are those that
are there and one for each deferred event that freed one. -/
theorem stats_count_events (h : (cltMgrSystem cfg).run es = some m) :
    (∀ f : StatsField, ¬ f.OfPool → m.stats.field f =
      (cltMgrSystem cfg).sumFrom (fun e m => (e.fields m).count f) es
        (cltMgrSystem cfg).init) ∧
      m.stats.connCount = m.stats.nconn + es.countP LoopEvent.isDestroy := by
  constructor
  · intro f hf
    obtain ⟨running, hledger⟩ := ledger_init cfg
    have hstart : (cltMgrSystem cfg).init.stats = MgrStats.zero :=
      congrArg Ledger.stats hledger
    have hsum := System.potential_eq (T := cltMgrSystem cfg) (P := CltMgrOk)
      (V := fun m => m.stats.field f) (w := fun e m => (e.fields m).count f)
      (fun m e m' hm he => ⟨(cltMgrStep_refines hm he).1, cltMgrStep_field hm he hf⟩)
      (cltMgrOk_init cfg) h
    rw [hsum, hstart, field_zero, Int.zero_add]
  · rw [← gone_length_of_run h]
    exact (nconn_add_gone ⟨es, h⟩).symm

/-- A response with status 302, after which the connection ends, and a request that could
not be made. -/
def oneRedirect : List LoopEvent :=
  [.timer fun _ => allocAll, .newHttpReq 0 true true, .newHttpReq 1 true false,
    .complete 0 302, .close 0 .quiet .requestFirst allocAll,
    .connDestroy 0 .requestFirst allocAll]

/-- They are counted as such. -/
theorem stats_count_events_oneRedirect :
    ∃ m, (cltMgrSystem oneHostConfig).run oneRedirect = some m ∧
      m.stats.field .reqStatustype302 = 1 ∧ m.stats.field .reqCountCreateErr = 1 ∧
      m.stats.connCount = m.stats.nconn + 1 := by
  have hrun : ∃ m, (cltMgrSystem oneHostConfig).run oneRedirect = some m := ⟨_, rfl⟩
  obtain ⟨m, hm⟩ := hrun
  obtain ⟨hfields, hpool⟩ := stats_count_events hm
  exact ⟨m, hm, hfields .reqStatustype302 (by decide), hfields .reqCountCreateErr (by decide),
    hpool⟩

end Run

end EvhtpHttp.Client

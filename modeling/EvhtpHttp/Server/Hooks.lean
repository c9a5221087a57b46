import EvhtpHttp.Server.Refcount

/-!
# The hooks of a request

The write hook is registered on the connection, which outlives the request.  It
is removed with the last part of a typed reply, and only then: a request whose
type was never set is answered at once, and the hook stays.
-/

namespace EvhtpHttp.Server

open EvhtpHttp.Support

/-- A hook with the argument `p` is registered, on the connection or on its
request in progress. -/
def ServerState.Hooked (p : ReqPtr) (s : ServerState) : Prop :=
  ∃ conn, s.conn = some conn ∧
    (conn.onWrite = some p ∨ ∃ x, conn.request = some x ∧ x.hooks = some p)

/-- The argument of every hook still belongs to a request and was not freed, and
no hook has run with memory that was freed. -/
structure HooksOk (s : ServerState) : Prop where
  live : ∀ p : ReqPtr, s.Hooked p →
    ∃ c, s.heap[p]? = some c ∧ c.freed = 0 ∧ c.req.req ≠ none
  fresh : s.staleUses = 0

/-- A connection that stays has its request end only after a reply of some type
was finished, and no chunk of a request that goes on is released when an `int`
holds the number of its chunks as 0 or less. -/
def EndsReplies (_ : List ServerEvent) (e : ServerEvent) (s : ServerState) : Prop :=
  (e = .requestDone ∨ e = .error true → ∀ conn x p c, s.conn = some conn →
    conn.request = some x → x.hooks = some p → s.heap[p]? = some c →
    x.finished = true ∧ c.req.reqType ≠ .none) ∧
  ∀ p c, e = .release p → s.heap[p]? = some c → c.req.req ≠ none →
    0 < int32 (s.refs.count p)

/-! ## The write hook -/

/-- The write hook is registered until a typed reply is finished. -/
def Armed (s : ServerState) : Prop :=
  ∀ conn x p c, s.conn = some conn → conn.request = some x → x.hooks = some p →
    s.heap[p]? = some c →
    conn.onWrite = if x.finished = true ∧ c.req.reqType ≠ .none then none else some p

section Write

variable {s s' : ServerState} {p : ReqPtr} {c c' : Cell}

theorem Linked.hooks_eq (hs : Linked s) {conn : EvhtpConnection} {x : EvhtpRequest}
    (hconn : s.conn = some conn) (hrequest : conn.request = some x)
    (hc : s.heap[p]? = some c) (hreq : c.req.req = some x.id) : x.hooks = some p := by
  have howner := hs.owned hc hreq
  rw [current_eq hconn hrequest] at howner
  exact (Prod.mk.inj (Option.some.inj howner)).2

theorem Armed.replace (hs : Armed s) (hc : s.heap[p]? = some c)
    (hheap : s'.heap = s.heap.set p c') (hconn : s'.conn = s.conn)
    (htype : c'.req.reqType = c.req.reqType) : Armed s' := by
  intro conn x j d hconn' hrequest hhooks hd
  rw [hconn] at hconn'
  rw [hheap, getElem?_set_of_some hc] at hd
  by_cases hj : j = p
  · rw [if_pos hj] at hd
    cases hd
    rw [htype]
    exact hs conn x j c hconn' hrequest hhooks (hj ▸ hc)
  · rw [if_neg hj] at hd
    exact hs conn x j d hconn' hrequest hhooks hd

theorem Armed.wrote (hs : Armed s) (hlinked : Linked s) {conn : EvhtpConnection}
    {x : EvhtpRequest} (hconn : s.conn = some conn) (hrequest : conn.request = some x)
    (hc : s.heap[p]? = some c) (hreq : c.req.req = some x.id) (htyped : c.req.reqType ≠ .none)
    {r : Req} (htype : r.reqType = c.req.reqType) (refs : List ReqPtr) (data : List UInt8)
    (last : Bool) : Armed (s.wrote p c x r refs data last) := by
  cases last with
  | false => exact hs.replace hc rfl rfl htype
  | true =>
      intro conn' x' j d hconn' hrequest' hhooks hd
      cases hconn'
      cases hrequest'
      obtain rfl : p = j :=
        Option.some.inj ((hlinked.hooks_eq hconn hrequest hc hreq).symm.trans hhooks)
      rw [ServerState.wrote, getElem?_set_of_some hc, if_pos rfl] at hd
      cases hd
      exact (if_pos ⟨rfl, htype ▸ htyped⟩).symm

theorem Armed.writes (hs : Armed s) (hlinked : Linked s) (h : Writes p s s') : Armed s' := by
  cases h with
  | @line c conn x hc htype hconn hrequest hreq =>
      have hkeep : c.req.lineWritten.reqType = c.req.reqType := rfl
      exact hs.wrote hlinked hconn hrequest hc hreq (by simp [htype]) hkeep _ _ _
  | @size c conn x data hc htype hconn hrequest hreq =>
      have hkeep : c.req.bufWritten.reqType = c.req.reqType := rfl
      exact hs.wrote hlinked hconn hrequest hc hreq (by simp [htype]) hkeep _ _ _

theorem armed_started {r : Req} {finished : Bool} (h : finished = true → r.reqType = .none)
    (reply : Reply) (s : ServerState) : Armed (s.started r finished reply) := by
  intro conn x p c hconn hrequest hhooks hc
  cases hconn
  cases hrequest
  cases hhooks
  cases (started_getElem? r finished reply s).symm.trans hc
  exact (if_neg fun hdone => hdone.2 (h hdone.1)).symm

theorem armed_of_unhooked (h : ∀ q p, s.current ≠ some (q, some p)) : Armed s := by
  intro conn x p c hconn hrequest hhooks
  have hcurrent := current_eq hconn hrequest
  rw [hhooks] at hcurrent
  exact absurd hcurrent (h x.id p)

theorem Armed.use (hs : Armed s) (p : ReqPtr) : Armed (s.use p) := by
  rw [use_eq]
  exact hs

theorem ServerStep.armed {e : ServerEvent} (h : ServerStep e s s') (hlinked : Linked s)
    (hs : Armed s) : Armed s' := by
  cases h with
  | refused =>
      apply armed_of_unhooked
      simp [ServerState.current, ServerState.answered]
  | untyped _ _ _ _ htype => exact armed_started (fun _ => htype) _ _
  | typed _ hconn hidle hr _ hwrites =>
      have hstarted := hlinked.started (current_eq_none hconn hidle) hr.req false .chunkStart
      exact (armed_started (by simp) _ _).writes hstarted hwrites
  | wrote _ _ _ hwrites => exact (hs.use _).writes (hlinked.use _) hwrites
  | wroteNothing => exact hs.use _
  | released _ hc => exact hs.replace hc rfl rfl (by rw [Cell.drop_req])
  | @error _ conn x heap stale keep =>
      apply armed_of_unhooked
      cases keep <;> simp [ServerState.current]
  | requestDone =>
      apply armed_of_unhooked
      simp [ServerState.current]
  | close =>
      apply armed_of_unhooked
      simp [ServerState.current]
  | closeIdle =>
      apply armed_of_unhooked
      simp [ServerState.current]

end Write

/-! ## Steps -/

section Steps

variable {s s' : ServerState} {p : ReqPtr} {c c' : Cell} {e : ServerEvent}

/-- The argument of every hook is that of the hooks of the request in progress. -/
theorem HooksOk.current (hs : HooksOk s) (hlinked : Linked s) (h : s.Hooked p) :
    ∃ q, s.current = some (q, some p) := by
  obtain ⟨c, hc, -, hreq⟩ := hs.live p h
  obtain ⟨q, hq⟩ := Option.ne_none_iff_exists'.mp hreq
  exact ⟨q, hlinked.owned hc hq⟩

/-- A `struct req` with a request is the argument of the hooks of that request. -/
theorem Linked.hooked_of_req (hs : Linked s) (hc : s.heap[p]? = some c)
    (hreq : c.req.req ≠ none) : s.Hooked p := by
  obtain ⟨q, hq⟩ := Option.ne_none_iff_exists'.mp hreq
  have howner := hs.owned hc hq
  simp only [ServerState.current, Option.map_eq_some_iff, Option.bind_eq_some_iff] at howner
  obtain ⟨x, ⟨conn, hconn, hrequest⟩, heq⟩ := howner
  exact ⟨conn, hconn, Or.inr ⟨x, hrequest, (Prod.mk.inj heq).2⟩⟩

theorem HooksOk.onWrite_eq_none (hs : HooksOk s) (hlinked : Linked s)
    (hfree : ∀ q p, s.current ≠ some (q, some p)) {conn : EvhtpConnection}
    (hconn : s.conn = some conn) : conn.onWrite = none := by
  by_contra hhook
  obtain ⟨p, hp⟩ := Option.ne_none_iff_exists'.mp hhook
  obtain ⟨q, hq⟩ := hs.current hlinked ⟨conn, hconn, Or.inl hp⟩
  exact hfree q p hq

theorem HooksOk.use (hs : HooksOk s) (h : s.Hooked p) : s.use p = s := by
  obtain ⟨c, hc, hfreed, -⟩ := hs.live p h
  exact use_of_not_freed hc hfreed

theorem HooksOk.ends (hs : HooksOk s) {conn : EvhtpConnection} {x : EvhtpRequest}
    {heap : List Cell} {stale : ℕ} (hconn : s.conn = some conn)
    (hrequest : conn.request = some x) (h : Ends x s heap stale) : stale = 0 := by
  cases h with
  | unhooked => exact hs.fresh
  | hooked hhooks =>
      rw [hs.use ⟨conn, hconn, Or.inr ⟨x, hrequest, hhooks⟩⟩]
      exact hs.fresh

theorem hooksOk_of_unhooked (hwrite : ∀ conn, s.conn = some conn → conn.onWrite = none)
    (hfree : ∀ q p, s.current ≠ some (q, some p)) (hfresh : s.staleUses = 0) : HooksOk s := by
  refine ⟨?_, hfresh⟩
  rintro p ⟨conn, hconn, hhook | ⟨x, hrequest, hhooks⟩⟩
  · rw [hwrite conn hconn] at hhook
    cases hhook
  · have hcurrent := current_eq hconn hrequest
    rw [hhooks] at hcurrent
    exact absurd hcurrent (hfree x.id p)

theorem HooksOk.replace (hs : HooksOk s) (hc : s.heap[p]? = some c)
    (hheap : s'.heap = s.heap.set p c') (hhook : ∀ j, s'.Hooked j → s.Hooked j)
    (hreq : c'.req.req = c.req.req) (hfreed : c.req.req ≠ none → c'.freed = c.freed)
    (hfresh : s'.staleUses = s.staleUses) : HooksOk s' := by
  refine ⟨?_, hfresh.trans hs.fresh⟩
  intro j hj
  obtain ⟨d, hd, hdfreed, hdreq⟩ := hs.live j (hhook j hj)
  rw [hheap, getElem?_set_of_some hc]
  by_cases hjp : j = p
  · subst hjp
    cases hc.symm.trans hd
    refine ⟨c', if_pos rfl, ?_, ?_⟩
    · rw [hfreed hdreq, hdfreed]
    · rw [hreq]
      exact hdreq
  · exact ⟨d, by rw [if_neg hjp, hd], hdfreed, hdreq⟩

theorem HooksOk.wrote (hs : HooksOk s) {conn : EvhtpConnection} {x : EvhtpRequest}
    (hconn : s.conn = some conn) (hrequest : conn.request = some x) (hc : s.heap[p]? = some c)
    {r : Req} (hreq : r.req = c.req.req) (refs : List ReqPtr) (data : List UInt8)
    (last : Bool) : HooksOk (s.wrote p c x r refs data last) := by
  refine hs.replace hc rfl ?_ hreq (fun _ => rfl) rfl
  intro j hj
  cases last with
  | false => exact hj
  | true =>
      obtain ⟨conn', hconn', hhook | ⟨x', hrequest', hhooks⟩⟩ := hj
      · cases hconn'
        cases hhook
      · cases hconn'
        cases hrequest'
        exact ⟨conn, hconn, Or.inr ⟨x, hrequest, hhooks⟩⟩

theorem HooksOk.writes (hs : HooksOk s) (h : Writes p s s') : HooksOk s' := by
  cases h with
  | @line c conn x hc _ hconn hrequest =>
      have hkeep : c.req.lineWritten.req = c.req.req := rfl
      exact hs.wrote hconn hrequest hc hkeep _ _ _
  | @size c conn x data hc _ hconn hrequest =>
      have hkeep : c.req.bufWritten.req = c.req.req := rfl
      exact hs.wrote hconn hrequest hc hkeep _ _ _

theorem HooksOk.started (hs : HooksOk s) {r : Req} (hr : FreshReq s.nextId r) (finished : Bool)
    (reply : Reply) : HooksOk (s.started r finished reply) := by
  refine ⟨?_, hs.fresh⟩
  have hcell : ∃ c, (s.started r finished reply).heap[s.heap.length]? = some c ∧ c.freed = 0 ∧
      c.req.req ≠ none := ⟨_, started_getElem? r finished reply s, rfl, by simp [hr.req]⟩
  rintro p ⟨conn, hconn, hhook | ⟨x, hrequest, hhooks⟩⟩
  · cases hconn
    cases hhook
    exact hcell
  · cases hconn
    cases hrequest
    cases hhooks
    exact hcell

theorem int32_refcnt_sub (hlinked : Linked s) (hwraps : s.Cells Cell.Wraps)
    (hc : s.heap[p]? = some c) (hreq : c.req.req ≠ none) :
    int32 (c.req.refcnt - 1) = int32 (s.refs.count p) := by
  obtain ⟨q, hq⟩ := Option.ne_none_iff_exists'.mp hreq
  obtain ⟨-, hholders⟩ := hlinked.holders_eq hc hq
  have hcount := hwraps p c hc
  rw [hholders] at hcount
  exact hcount.drop

/-- Where the connection stays, a request that ends has left no write hook. -/
theorem HooksOk.onWrite_of_ended (hs : HooksOk s) (hlinked : Linked s) (harmed : Armed s)
    {conn : EvhtpConnection} {x : EvhtpRequest} (hconn : s.conn = some conn)
    (hrequest : conn.request = some x)
    (hdone : ∀ p c, x.hooks = some p → s.heap[p]? = some c →
      x.finished = true ∧ c.req.reqType ≠ .none) : conn.onWrite = none := by
  have hcurrent := current_eq hconn hrequest
  cases hhooks : x.hooks with
  | none =>
      rw [hhooks] at hcurrent
      exact hs.onWrite_eq_none hlinked (by simp [hcurrent]) hconn
  | some p =>
      rw [hhooks] at hcurrent
      obtain ⟨c, hc, -⟩ := hlinked.hooked hcurrent
      rw [harmed conn x p c hconn hrequest hhooks hc]
      exact if_pos (hdone p c hhooks hc)

theorem HooksOk.step (hs : HooksOk s) (hlinked : Linked s) (hwraps : s.Cells Cell.Wraps)
    (harmed : Armed s) (h : ServerStep e s s') (hends : EndsReplies [] e s) : HooksOk s' := by
  cases h with
  | refused _ hconn hidle =>
      have hwrite := hs.onWrite_eq_none hlinked (by simp [current_eq_none hconn hidle]) hconn
      refine hooksOk_of_unhooked ?_ ?_ hs.fresh
      · rintro _ ⟨⟩
        exact hwrite
      · simp [ServerState.current, ServerState.answered]
  | untyped _ _ _ hr => exact hs.started hr _ _
  | typed _ _ _ hr _ hwrites => exact (hs.started hr _ _).writes hwrites
  | wrote hconn _ hhook hwrites =>
      rw [hs.use ⟨_, hconn, Or.inl hhook⟩] at hwrites
      exact hs.writes hwrites
  | wroteNothing hconn _ hhook =>
      rw [hs.use ⟨_, hconn, Or.inl hhook⟩]
      exact hs
  | @released _ p c _ hc =>
      refine hs.replace hc rfl (fun _ hj => hj) (by rw [Cell.drop_req]) ?_ rfl
      intro hreq
      have hmore := hends.2 p c rfl hc hreq
      rw [← int32_refcnt_sub hlinked hwraps hc hreq] at hmore
      rw [Cell.drop_of_pos hmore]
  | @error _ conn x heap stale keep hconn hrequest hended =>
      refine hooksOk_of_unhooked ?_ ?_ (hs.ends hconn hrequest hended)
      · cases keep with
        | false => simp
        | true =>
            have hwrite := hs.onWrite_of_ended hlinked harmed hconn hrequest fun p c =>
              hends.1 (Or.inr rfl) conn x p c hconn hrequest
            rintro _ ⟨⟩
            exact hwrite
      · cases keep <;> simp [ServerState.current]
  | @requestDone _ conn x heap stale hconn hrequest _ hended =>
      have hwrite := hs.onWrite_of_ended hlinked harmed hconn hrequest fun p c =>
        hends.1 (Or.inl rfl) conn x p c hconn hrequest
      refine hooksOk_of_unhooked ?_ (by simp [ServerState.current])
        (hs.ends hconn hrequest hended)
      rintro _ ⟨⟩
      exact hwrite
  | close hconn hrequest hended =>
      exact hooksOk_of_unhooked (by simp) (by simp [ServerState.current])
        (hs.ends hconn hrequest hended)
  | closeIdle => exact hooksOk_of_unhooked (by simp) (by simp [ServerState.current]) hs.fresh

/-- A connection that stays keeps its write hook, and has no request with hooks. -/
theorem ServerStep.stays (h : ServerStep e s s') (he : e = .requestDone ∨ e = .error true)
    {conn : EvhtpConnection} (hconn : s.conn = some conn) :
    (∃ request, s'.conn = some { conn with request := request }) ∧
      ∀ q p, s'.current ≠ some (q, some p) := by
  rcases he with rfl | rfl
  · cases h with
    | refused he => cases he
    | untyped he => cases he
    | typed he => cases he
    | requestDone hconn' =>
        cases hconn.symm.trans hconn'
        exact ⟨⟨_, rfl⟩, by simp [ServerState.current]⟩
  · cases h with
    | refused he => cases he
    | untyped he => cases he
    | typed he => cases he
    | error hconn' =>
        cases hconn.symm.trans hconn'
        exact ⟨⟨_, rfl⟩, by simp [ServerState.current]⟩

/-- What hooks in order ask of a step. -/
theorem HooksOk.endsReplies (hs' : HooksOk s') (hlinked : Linked s)
    (hwraps : s.Cells Cell.Wraps) (harmed : Armed s) (h : ServerStep e s s') :
    EndsReplies [] e s := by
  have hlinked' := h.linked hlinked
  constructor
  · intro he conn x p c hconn hrequest hhooks hc
    obtain ⟨⟨request, hconn'⟩, hfree⟩ := h.stays he hconn
    have hwrite := hs'.onWrite_eq_none hlinked' hfree hconn'
    by_contra hdone
    rw [harmed conn x p c hconn hrequest hhooks hc, if_neg hdone] at hwrite
    cases hwrite
  · rintro p c rfl hc hreq
    obtain ⟨-, d, hd, rfl⟩ := h.release_cases
    cases hc.symm.trans hd
    obtain ⟨hlt, -⟩ := List.getElem?_eq_some_iff.mp hc
    obtain ⟨c₁, hc₁, hfreed, -⟩ := hs'.live p (hlinked.hooked_of_req hc hreq)
    rw [List.getElem?_set_self hlt] at hc₁
    cases hc₁
    rw [← int32_refcnt_sub hlinked hwraps hc hreq]
    by_contra hlast
    rw [Cell.drop_of_not_pos hlast] at hfreed
    cases hfreed

end Steps

/-! ## Runs -/

section Run

variable {es : List ServerEvent} {s : ServerState}

theorem armed_of_run (h : serverSystem.run es = some s) : Armed s := by
  refine serverSystem.run_induction (P := fun _ s => Armed s) ?_ ?_ es s h
  · intro conn x p c hconn hrequest
    cases hconn
    cases hrequest
  · intro pre e t t' hpre ht hstep
    exact (serverStep_spec hstep).armed (linked_of_run hpre) ht

/-- In every run the hooks are in order, and none runs with memory that was freed,
if and only if every request that ends on a connection that stays has finished a
typed reply, and no `int` holds the number of chunks as 0 or less when one of
them is released. -/
theorem hooks_ok_iff (h : serverSystem.run es = some s) :
    serverSystem.Throughout HooksOk es ↔ serverSystem.Guarded EndsReplies es := by
  constructor
  · intro hok
    refine serverSystem.guarded_of_throughout ?_ h hok
    intro pre e t t' hpre _ hstep ht'
    exact ht'.endsReplies (linked_of_run hpre) (wraps_of_run hpre) (armed_of_run hpre)
      (serverStep_spec hstep)
  · intro hends
    refine serverSystem.throughout_of_guarded ?_ ?_ hends
    · have hidle : serverSystem.init.current = none := rfl
      refine hooksOk_of_unhooked ?_ (by simp [hidle]) rfl
      rintro _ ⟨⟩
      rfl
    · intro pre e t t' hpre hguard ht hstep
      exact ht.step (linked_of_run hpre) (wraps_of_run hpre) (armed_of_run hpre)
        (serverStep_spec hstep) hguard

/-- A request that neither ends on a connection that stays nor has a chunk released. -/
theorem endsReplies_of_ne {pre : List ServerEvent} {e : ServerEvent} {s : ServerState}
    (hdone : e ≠ .requestDone) (herror : e ≠ .error true) (hrelease : ∀ p, e ≠ .release p) :
    EndsReplies pre e s := by
  refine ⟨?_, fun p _ he => absurd he (hrelease p)⟩
  rintro (he | he)
  · exact absurd he hdone
  · exact absurd he herror

/-- Two requests on one connection, the second without memory for its buffer and ended
with the connection. -/
theorem hooks_ok_two_requests :
    ∃ s, serverSystem.run
        [.size (some "1") true true Req.zero, .release 0, .requestDone,
          .size (some "1") true false Req.zero, .close] = some s ∧
      serverSystem.Guarded EndsReplies
        [.size (some "1") true true Req.zero, .release 0, .requestDone,
          .size (some "1") true false Req.zero, .close] ∧
      serverSystem.Throughout HooksOk
        [.size (some "1") true true Req.zero, .release 0, .requestDone,
          .size (some "1") true false Req.zero, .close] := by
  have hsome : (serverSystem.run
      [.size (some "1") true true Req.zero, .release 0, .requestDone,
        .size (some "1") true false Req.zero, .close]).isSome := by
    decide +kernel
  obtain ⟨s, hs⟩ := Option.isSome_iff_exists.mp hsome
  have hwritten : ((serverSystem.run [.size (some "1") true true Req.zero]).any fun t =>
      t.refs = [0]) = true := by
    decide +kernel
  have hfinished : ((serverSystem.run
      [.size (some "1") true true Req.zero, .release 0]).any fun t =>
        t.conn = some ⟨none, some ⟨0, some 0, true⟩⟩ ∧
          t.heap[0]?.map (fun c => c.req.reqType) = some .size) = true := by
    decide +kernel
  obtain ⟨s₁, hs₁, hrefs⟩ := (Option.any_eq_true _ _).mp hwritten
  obtain ⟨s₂, hs₂, hstate⟩ := (Option.any_eq_true _ _).mp hfinished
  obtain ⟨hconn, htype⟩ := of_decide_eq_true hstate
  have hbegun : serverSystem.Guarded EndsReplies [.size (some "1") true true Req.zero] :=
    System.Guarded.concat _ (serverSystem.guarded_nil _) fun _ _ =>
      endsReplies_of_ne (by simp) (by simp) (by simp)
  have hreleased : serverSystem.Guarded EndsReplies
      [.size (some "1") true true Req.zero, .release 0] := by
    refine System.Guarded.concat _ hbegun fun t ht => ⟨by simp, ?_⟩
    rintro p c ⟨⟩ - -
    obtain rfl : s₁ = t := Option.some.inj (hs₁.symm.trans ht)
    rw [of_decide_eq_true hrefs]
    decide
  have hended : serverSystem.Guarded EndsReplies
      [.size (some "1") true true Req.zero, .release 0, .requestDone] := by
    refine System.Guarded.concat _ hreleased fun t ht => ⟨?_, by simp⟩
    rintro - conn x p c hconn' hrequest hhooks hc
    obtain rfl : s₂ = t := Option.some.inj (hs₂.symm.trans ht)
    cases hconn.symm.trans hconn'
    cases hrequest
    cases hhooks
    rw [hc] at htype
    exact ⟨rfl, by simpa using congrArg (· ≠ some ReqType.none) htype⟩
  have hagain : serverSystem.Guarded EndsReplies
      [.size (some "1") true true Req.zero, .release 0, .requestDone,
        .size (some "1") true false Req.zero] :=
    System.Guarded.concat _ hended fun _ _ => endsReplies_of_ne (by simp) (by simp) (by simp)
  have hall : serverSystem.Guarded EndsReplies
      [.size (some "1") true true Req.zero, .release 0, .requestDone,
        .size (some "1") true false Req.zero, .close] :=
    System.Guarded.concat _ hagain fun _ _ => endsReplies_of_ne (by simp) (by simp) (by simp)
  exact ⟨s, hs, hall, (hooks_ok_iff hs).mpr hall⟩

/-- Without memory for the buffer the request is answered and freed, and the write
hook stays on the connection.  During the next request it runs with the `struct
req` that was freed. -/
theorem freed_hook_runs :
    ∃ s, serverSystem.run
        [.size (some "1") true false Req.zero, .requestDone, .other, .onWrite] = some s ∧
      s.staleUses = 1 ∧ ¬ HooksOk s := by
  have hrun : serverSystem.run
      [.size (some "1") true false Req.zero, .requestDone, .other, .onWrite] = some
      { conn := some ⟨some 0, some ⟨1, none, true⟩⟩
        heap := [⟨Req.zero, 1, 0, 1⟩]
        refs := []
        sent := [(0, .error)]
        nextId := 2
        staleUses := 1 } := by
    decide +kernel
  refine ⟨_, hrun, rfl, ?_⟩
  intro hs
  obtain ⟨c, hc, hfreed, -⟩ := hs.live 0 ⟨_, rfl, Or.inl rfl⟩
  cases hc
  cases hfreed

end Run

end EvhtpHttp.Server

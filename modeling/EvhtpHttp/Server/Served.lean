import EvhtpHttp.Server.Survival
import EvhtpHttp.Support.Course

/-!
# Every request is served

As long as libevhtp and libevent go on, every request comes to its end, with its
whole answer if the connection is still there, and the memory of every request is
given back.
-/

namespace EvhtpHttp.Server

open EvhtpHttp.Support

/-- The write callbacks go on while the hook is registered, libevhtp frees a request
that is finished, and every chunk is released at last. -/
def ServerFair (x : Course serverSystem) : Prop :=
  ∀ e : ServerEvent, e = .onWrite ∨ e = .requestDone ∨ (∃ p, e = .release p) →
    x.Fair (fun d => d = e) fun s => e.Deliverable s

/-- The request `q` is in progress; `finished` tells whether it was answered. -/
def ServerState.Serves (q : EvhtpPtr) (finished : Bool) (s : ServerState) : Prop :=
  ∃ conn x, s.conn = some conn ∧ conn.request = some x ∧ x.id = q ∧ x.finished = finished

/-- The request `q` is in progress. -/
def ServerState.InProgress (q : EvhtpPtr) (s : ServerState) : Prop :=
  ∃ finished, s.Serves q finished

/-! ## Steps of a request in progress -/

section Steps

variable {s s' : ServerState} {e : ServerEvent} {q : EvhtpPtr} {p : ReqPtr} {c : Cell}

/-- What a step makes of the request `x` that is in progress. -/
structure Keeps (x : EvhtpRequest) (s s' : ServerState) : Prop where
  sent : s.sent <+: s'.sent
  nextId : s'.nextId = s.nextId
  same : ∀ conn' x', s'.conn = some conn' → conn'.request = some x' →
    x'.id = x.id ∧ (x.finished = true → x'.finished = true)

theorem use_sent (p : ReqPtr) (s : ServerState) : (s.use p).sent = s.sent := by
  rw [use_eq]

theorem use_nextId (p : ReqPtr) (s : ServerState) : (s.use p).nextId = s.nextId := by
  rw [use_eq]

theorem Writes.request {conn : EvhtpConnection} {x : EvhtpRequest} (hconn : s.conn = some conn)
    (hrequest : conn.request = some x) (h : Writes p s s') :
    s'.nextId = s.nextId ∧ s.sent <+: s'.sent ∧ s.sent.length < s'.sent.length ∧
      ∃ conn' x', s'.conn = some conn' ∧ conn'.request = some x' ∧ x'.id = x.id ∧
        x'.hooks = x.hooks ∧ (x.finished = true → x'.finished = true) := by
  have hwrote : ∀ (c : Cell) r refs data last,
      (s.wrote p c x r refs data last).nextId = s.nextId ∧
      s.sent <+: (s.wrote p c x r refs data last).sent ∧
      s.sent.length < (s.wrote p c x r refs data last).sent.length ∧
      ∃ conn' x', (s.wrote p c x r refs data last).conn = some conn' ∧
        conn'.request = some x' ∧ x'.id = x.id ∧ x'.hooks = x.hooks ∧
        (x.finished = true → x'.finished = true) := by
    intro c r refs data last
    refine ⟨rfl, List.prefix_append _ _, ?_, ?_⟩
    · cases last <;> simp [ServerState.wrote, chunkReplies]
    · cases last with
      | false => exact ⟨conn, x, hconn, hrequest, rfl, rfl, id⟩
      | true => exact ⟨_, _, rfl, rfl, rfl, rfl, fun _ => rfl⟩
  cases h with
  | line _ _ hconn' hrequest' =>
      cases hconn.symm.trans hconn'
      cases hrequest.symm.trans hrequest'
      exact hwrote _ _ _ _ _
  | size _ _ hconn' hrequest' =>
      cases hconn.symm.trans hconn'
      cases hrequest.symm.trans hrequest'
      exact hwrote _ _ _ _ _

theorem ServerStep.keeps {conn : EvhtpConnection} {x : EvhtpRequest} (h : ServerStep e s s')
    (hconn : s.conn = some conn) (hrequest : conn.request = some x) : Keeps x s s' := by
  have hidle : ∀ {conn'}, s.conn = some conn' → conn'.request ≠ none := by
    intro conn' hconn' hnone
    cases hconn.symm.trans hconn'
    rw [hrequest] at hnone
    cases hnone
  cases h with
  | refused _ hconn' hnone => exact absurd hnone (hidle hconn')
  | untyped _ hconn' hnone => exact absurd hnone (hidle hconn')
  | typed _ hconn' hnone => exact absurd hnone (hidle hconn')
  | @wrote _ _ _ _ p _ _ _ hwrites =>
      obtain ⟨hnext, hsent, -, conn₁, x₁, hconn₁, hrequest₁, hid, -, hfinished⟩ :=
        hwrites.request (by rw [use_conn, hconn]) hrequest
      rw [use_sent] at hsent
      rw [use_nextId] at hnext
      refine ⟨hsent, hnext, fun conn' x' hconn' hrequest' => ?_⟩
      cases hconn₁.symm.trans hconn'
      cases hrequest₁.symm.trans hrequest'
      exact ⟨hid, hfinished⟩
  | @wroteNothing _ _ _ p =>
      rw [use_eq]
      refine ⟨List.prefix_rfl, rfl, fun conn' x' hconn' hrequest' => ?_⟩
      cases hconn.symm.trans hconn'
      cases hrequest.symm.trans hrequest'
      exact ⟨rfl, id⟩
  | released =>
      refine ⟨List.prefix_rfl, rfl, fun conn' x' hconn' hrequest' => ?_⟩
      cases hconn.symm.trans hconn'
      cases hrequest.symm.trans hrequest'
      exact ⟨rfl, id⟩
  | @error _ _ _ _ _ keep hconn₀ hrequest₀ =>
      cases hconn.symm.trans hconn₀
      cases hrequest.symm.trans hrequest₀
      refine ⟨List.prefix_rfl, rfl, fun conn' x' hconn' hrequest' => ?_⟩
      cases keep with
      | false => cases hconn'
      | true =>
          cases hconn'
          cases hrequest'
          exact ⟨rfl, id⟩
  | requestDone =>
      refine ⟨List.prefix_rfl, rfl, ?_⟩
      rintro _ _ ⟨⟩ ⟨⟩
  | close => exact ⟨List.prefix_rfl, rfl, by rintro _ _ ⟨⟩⟩
  | closeIdle => exact ⟨List.prefix_rfl, rfl, by rintro _ _ ⟨⟩⟩

/-- A reply under way without hooks has been abandoned. -/
def Stuck (s : ServerState) : Prop :=
  ∀ conn x, s.conn = some conn → conn.request = some x → x.finished = false →
    x.hooks = none → s.Abandoned

theorem Stuck.use (hs : Stuck s) (p : ReqPtr) : Stuck (s.use p) := by
  rw [use_eq]
  exact hs

theorem stuck_of_writes (hlinked : Linked s) (h : Writes p s s') : Stuck s' := by
  obtain ⟨c, conn, x, hc, -, hconn, hrequest, hreq⟩ := h.cell
  obtain ⟨-, -, -, conn₁, x₁, hconn₁, hrequest₁, -, hhooks, -⟩ := h.request hconn hrequest
  rintro conn' x' hconn' hrequest' - hnone
  cases hconn₁.symm.trans hconn'
  cases hrequest₁.symm.trans hrequest'
  rw [hhooks, hlinked.hooks_eq hconn hrequest hc hreq] at hnone
  cases hnone

theorem Stuck.step (hs : Stuck s) (hwatched : Watched s) (hlinked : Linked s)
    (h : serverStep e s = some s') : Stuck s' := by
  cases serverStep_spec h with
  | refused => rintro _ _ ⟨⟩ ⟨⟩ ⟨⟩
  | untyped => rintro _ _ ⟨⟩ ⟨⟩ ⟨⟩
  | typed _ hconn hidle hr _ hwrites =>
      exact stuck_of_writes (hlinked.started (current_eq_none hconn hidle) hr.req _ _) hwrites
  | wrote _ _ _ hwrites => exact stuck_of_writes (hlinked.use _) hwrites
  | wroteNothing => exact hs.use _
  | released _ hc =>
      intro conn x hconn hrequest hfinished hnone
      exact (abandoned_released_iff hc _).mpr (hs conn x hconn hrequest hfinished hnone)
  | @error _ conn x _ _ keep hconn hrequest =>
      cases keep with
      | false => rintro _ _ ⟨⟩
      | true =>
          rintro _ _ ⟨⟩ ⟨⟩ hfinished -
          cases hhooks : x.hooks with
          | none =>
              exact hwatched.stays_abandoned hlinked h
                (hs conn x hconn hrequest hfinished hhooks) (Or.inl rfl)
          | some p =>
              exact hwatched.abandons ⟨conn, x, p, hconn, hrequest, hfinished, hhooks⟩ h
  | requestDone => rintro _ _ ⟨⟩ ⟨⟩
  | close => rintro _ _ ⟨⟩
  | closeIdle => rintro _ _ ⟨⟩

/-- The write hook is there until the answer is complete, and each of its calls writes. -/
theorem exists_hook (hs : Stuck s) (hwatched : Watched s) {conn : EvhtpConnection}
    {x : EvhtpRequest} (hconn : s.conn = some conn) (hrequest : conn.request = some x)
    (hfinished : x.finished = false) :
    ∃ p, conn.onWrite = some p ∧ ∀ c, s.heap[p]? = some c → c.req.reqType ≠ .none := by
  cases hhooks : x.hooks with
  | none =>
      obtain ⟨conn', p, c, hconn', hhook, hc, htyped, -⟩ :=
        hs conn x hconn hrequest hfinished hhooks
      cases hconn.symm.trans hconn'
      refine ⟨p, hhook, fun d hd => ?_⟩
      cases hc.symm.trans hd
      exact htyped
  | some p => exact ⟨p, hwatched.unfinished conn x p hconn hrequest hfinished hhooks⟩

theorem onWrite_grows (hs : Stuck s) (hwatched : Watched s) {conn : EvhtpConnection}
    {x : EvhtpRequest} (hconn : s.conn = some conn) (hrequest : conn.request = some x)
    (hfinished : x.finished = false) (h : serverStep .onWrite s = some s') :
    s.sent.length < s'.sent.length := by
  obtain ⟨p, hhook, htyped⟩ := exists_hook hs hwatched hconn hrequest hfinished
  obtain ⟨conn', x', p', hconn', -, hhook', hwrites | ⟨c, hc, htype, -⟩⟩ :=
    (serverStep_spec h).onWrite_cases
  · obtain ⟨-, -, hgrows, -⟩ := hwrites.request (by rw [use_conn, hconn]) hrequest
    rwa [use_sent] at hgrows
  · cases hconn.symm.trans hconn'
    cases hhook.symm.trans hhook'
    exact absurd htype (htyped c hc)

theorem stuck_of_reachable (h : serverSystem.Reachable s) : Stuck s ∧ Watched s ∧ Linked s := by
  obtain ⟨es, hes⟩ := h
  refine ⟨?_, watched_of_run hes, linked_of_run hes⟩
  refine serverSystem.run_induction (P := fun _ s => Stuck s) ?_ ?_ es s hes
  · rintro _ _ ⟨⟩ ⟨⟩
  · intro pre e t t' hpre ht hstep
    exact ht.step (watched_of_run hpre) (linked_of_run hpre) hstep

end Steps

/-! ## The end of a request -/

section Course

variable {x : Course serverSystem} {asked : List Asked} {q : EvhtpPtr} {s s' : ServerState}
  {e : ServerEvent}

/-- The request `q` is in progress, the last one of those that asked for `asked`. -/
def Answering (asked : List Asked) (q : EvhtpPtr) (s : ServerState) : Prop :=
  Tells asked s ∧ s.InProgress q

/-- How much of the answers is still to be sent. -/
def remaining (asked : List Asked) (s : ServerState) : ℕ :=
  (transcript asked).length - s.sent.length

theorem Answering.step (hreach : serverSystem.Reachable s) (hs : Answering asked q s)
    (h : serverStep e s = some s') : ¬ s'.InProgress q ∨
      Answering asked q s' ∧ s.sent.length ≤ s'.sent.length := by
  obtain ⟨es, hes⟩ := hreach
  obtain ⟨htells, _, conn, y, hconn, hrequest, -, -⟩ := hs
  have hkeeps := (serverStep_spec h).keeps hconn hrequest
  have hasked : e.asked = none := by
    rw [Option.eq_none_iff_forall_ne_some]
    intro a ha
    cases opens_of_asked ha h with
    | _ hconn' hidle =>
        cases hconn.symm.trans hconn'
        rw [hidle] at hrequest
        cases hrequest
  have hnext := htells.step (linked_of_run hes) (armed_of_run hes) h
  rw [hasked, Option.toList_none, List.append_nil] at hnext
  by_cases hin : s'.InProgress q
  · exact Or.inr ⟨⟨hnext, hin⟩, hkeeps.sent.length_le⟩
  · exact Or.inl hin

theorem finished_leadsTo_over (hfair : ServerFair x) :
    x.LeadsTo (fun s => s.Serves q true) fun s => ¬ s.InProgress q := by
  apply Course.LeadsTo.of_fair (hfair .requestDone (Or.inr (Or.inl rfl)))
  · rintro s - ⟨conn, y, hconn, hrequest, -, hfinished⟩
    exact ⟨conn, y, hconn, hrequest, hfinished⟩
  · rintro s e s' - ⟨conn, y, hconn, hrequest, rfl, hfinished⟩ h
    have hkeeps := (serverStep_spec h).keeps hconn hrequest
    by_cases hin : s'.InProgress y.id
    · obtain ⟨_, conn', y', hconn', hrequest', hid, -⟩ := hin
      exact Or.inl ⟨conn', y', hconn', hrequest', hid, (hkeeps.same _ _ hconn' hrequest').2 hfinished⟩
    · exact Or.inr hin
  · rintro s _ s' - - rfl h ⟨_, conn', y', hconn', hrequest', -⟩
    have hstep : serverStep .requestDone s = some s' := h
    cases serverStep_spec hstep with
    | refused he => cases he
    | untyped he => cases he
    | typed he => cases he
    | requestDone =>
        cases hconn'
        cases hrequest'

/-- A write callback leaves less to be sent, unless the request is finished or over. -/
theorem unfinished_leadsTo_less (hfair : ServerFair x) (m : ℕ) :
    x.LeadsTo (fun s => (Answering asked q s ∧ s.Serves q false) ∧ remaining asked s = m)
      fun s => (s.Serves q true ∨ ¬ s.InProgress q) ∨
        Answering asked q s ∧ remaining asked s < m := by
  apply Course.LeadsTo.of_fair (hfair .onWrite (Or.inl rfl))
  · rintro s hs ⟨⟨-, conn, y, hconn, hrequest, -, hfinished⟩, -⟩
    obtain ⟨hstuck, hwatched, -⟩ := stuck_of_reachable hs
    obtain ⟨p, hhook, -⟩ := exists_hook hstuck hwatched hconn hrequest hfinished
    exact ⟨conn, y, p, hconn, hrequest, hhook⟩
  · rintro s e s' hs ⟨⟨hanswering, -⟩, hm⟩ h
    rcases hanswering.step hs h with hover | ⟨hanswering', hle⟩
    · exact Or.inr (Or.inl (Or.inr hover))
    · have hless : remaining asked s' ≤ m := by
        rw [← hm]
        exact Nat.sub_le_sub_left hle _
      rcases Nat.lt_or_eq_of_le hless with hlt | heq
      · exact Or.inr (Or.inr ⟨hanswering', hlt⟩)
      · obtain ⟨finished, hserves⟩ := hanswering'.2
        cases finished with
        | true => exact Or.inr (Or.inl (Or.inl hserves))
        | false => exact Or.inl ⟨⟨hanswering', hserves⟩, heq⟩
  · rintro s _ s' hs ⟨⟨hanswering, conn, y, hconn, hrequest, -, hfinished⟩, hm⟩ rfl hstep
    have h : serverStep .onWrite s = some s' := hstep
    obtain ⟨hstuck, hwatched, -⟩ := stuck_of_reachable hs
    rcases hanswering.step hs h with hover | ⟨hanswering', -⟩
    · exact Or.inl (Or.inr hover)
    · have hgrows := onWrite_grows hstuck hwatched hconn hrequest hfinished h
      have hwithin := hanswering'.1.within.length_le
      refine Or.inr ⟨hanswering', ?_⟩
      rw [← hm]
      exact Nat.sub_lt_sub_left (hgrows.trans_le hwithin) hgrows

theorem answering_leadsTo_over (hfair : ServerFair x) :
    x.LeadsTo (Answering asked q) fun s => ¬ s.InProgress q := by
  refine Course.LeadsTo.of_measure (remaining asked) fun m => ?_
  have hfinished : x.LeadsTo (fun s => s.Serves q true ∨ ¬ s.InProgress q)
      fun s => ¬ s.InProgress q :=
    (finished_leadsTo_over hfair).or (Course.LeadsTo.of_imp fun _ _ h => h)
  have hless : x.LeadsTo (fun s => (s.Serves q true ∨ ¬ s.InProgress q) ∨
      Answering asked q s ∧ remaining asked s < m)
      fun s => ¬ s.InProgress q ∨ Answering asked q s ∧ remaining asked s < m :=
    (hfinished.mono (fun _ _ h => h) fun _ _ h => Or.inl h).or
      (Course.LeadsTo.of_imp fun _ _ h => Or.inr h)
  have hopen : x.LeadsTo (fun s => (Answering asked q s ∧ s.Serves q false) ∧
      remaining asked s = m)
      fun s => ¬ s.InProgress q ∨ Answering asked q s ∧ remaining asked s < m :=
    (unfinished_leadsTo_less hfair m).trans hless
  have hdone : x.LeadsTo (fun s => s.Serves q true)
      fun s => ¬ s.InProgress q ∨ Answering asked q s ∧ remaining asked s < m :=
    (finished_leadsTo_over hfair).mono (fun _ _ h => h) fun _ _ h => Or.inl h
  refine (hdone.or hopen).mono ?_ fun _ _ h => h
  rintro s - ⟨hanswering, hm⟩
  obtain ⟨finished, hserves⟩ := hanswering.2
  cases finished with
  | true => exact Or.inl hserves
  | false => exact Or.inr ⟨⟨hanswering, hserves⟩, hm⟩

theorem inProgress_of_step (h : serverStep e s = some s') (hin : s'.InProgress q) :
    s.InProgress q ∧ s'.nextId = s.nextId ∨ q = s.nextId ∧ s'.nextId = s.nextId + 1 := by
  have hold : ∀ {conn y}, s.conn = some conn → conn.request = some y →
      s.InProgress q ∧ s'.nextId = s.nextId := by
    intro conn y hconn hrequest
    obtain ⟨_, conn', y', hconn', hrequest', rfl, -⟩ := hin
    have hkeeps := (serverStep_spec h).keeps hconn hrequest
    obtain ⟨hid, -⟩ := hkeeps.same _ _ hconn' hrequest'
    exact ⟨⟨_, conn, y, hconn, hrequest, hid.symm, rfl⟩, hkeeps.nextId⟩
  cases serverStep_spec h with
  | refused =>
      obtain ⟨_, _, _, ⟨⟩, ⟨⟩, hid, -⟩ := hin
      exact Or.inr ⟨hid.symm, rfl⟩
  | untyped =>
      obtain ⟨_, _, _, ⟨⟩, ⟨⟩, hid, -⟩ := hin
      exact Or.inr ⟨hid.symm, rfl⟩
  | typed _ _ _ _ _ hwrites =>
      obtain ⟨_, conn', y', hconn', hrequest', rfl, -⟩ := hin
      obtain ⟨hnext, -, -, conn₁, y₁, hconn₁, hrequest₁, hid, -⟩ := hwrites.request rfl rfl
      cases hconn₁.symm.trans hconn'
      cases hrequest₁.symm.trans hrequest'
      exact Or.inr ⟨hid, hnext⟩
  | wrote hconn hrequest => exact Or.inl (hold hconn hrequest)
  | wroteNothing hconn hrequest => exact Or.inl (hold hconn hrequest)
  | released => exact Or.inl ⟨hin, rfl⟩
  | error hconn hrequest => exact Or.inl (hold hconn hrequest)
  | requestDone hconn hrequest => exact Or.inl (hold hconn hrequest)
  | close hconn hrequest => exact Or.inl (hold hconn hrequest)
  | closeIdle => obtain ⟨_, _, _, ⟨⟩, -⟩ := hin

theorem last_of_inProgress (hs : serverSystem.Reachable s) (hin : s.InProgress q) :
    q + 1 = s.nextId := by
  have hlast : ∀ q, s.InProgress q → q + 1 = s.nextId := by
    refine serverSystem.invariant (P := fun s => ∀ q, s.InProgress q → q + 1 = s.nextId)
      ?_ ?_ s hs
    · rintro q ⟨_, _, _, ⟨⟩, ⟨⟩, -⟩
    · intro s e s' ih h q hin
      rcases inProgress_of_step h hin with ⟨hold, hnext⟩ | ⟨rfl, hnext⟩
      · rw [hnext]
        exact ih q hold
      · exact hnext.symm
  exact hlast q hin

theorem over_persists {n : ℕ} (hbegun : q < (x.state n).nextId)
    (hover : ¬ (x.state n).InProgress q) :
    ∀ k, n ≤ k → ¬ (x.state k).InProgress q := by
  have hstays := x.persists (P := fun s => q < s.nextId ∧ ¬ s.InProgress q) ?_ ⟨hbegun, hover⟩
  · exact fun k hk => (hstays k hk).2
  · rintro s e s' ⟨es, hes⟩ ⟨hlt, hnot⟩ h
    have hnext : serverSystem.run (es ++ [e]) = some s' :=
      serverSystem.run_concat_eq_some.mpr ⟨s, hes, h⟩
    have hle : s.nextId ≤ s'.nextId := by
      rw [(tells_of_run hes).count, (tells_of_run hnext).count, List.filterMap_append,
        List.length_append]
      exact Nat.le_add_right _ _
    refine ⟨hlt.trans_le hle, fun hin => ?_⟩
    rcases inProgress_of_step h hin with ⟨hold, -⟩ | ⟨hnew, -⟩
    · exact hnot hold
    · exact hlt.ne hnew

/-- In a fair course every request comes to its end.  From then on its client has the
whole body that was asked for, or the connection was freed and it has a part of it.  The
body is empty if the request was refused, also for lack of memory; and memory that was
freed keeps what it held. -/
theorem request_served (hfair : ServerFair x) {n : ℕ} {a : Asked}
    (ha : ((x.past n).filterMap ServerEvent.asked)[q]? = some a) :
    ∃ k, n ≤ k ∧ ∀ j, k ≤ j → ¬ (x.state j).InProgress q ∧
      received q (x.state j).sent <+: a.body ∧
      ((x.state j).conn ≠ none → received q (x.state j).sent = a.body) := by
  have hbegun : q < (x.state n).nextId := by
    rw [(tells_of_run (x.run_past n)).count]
    exact (List.getElem?_eq_some_iff.mp ha).1
  obtain ⟨k, hnk, hover⟩ : ∃ k, n ≤ k ∧ ¬ (x.state k).InProgress q := by
    by_cases hin : (x.state n).InProgress q
    · exact answering_leadsTo_over hfair n ⟨tells_of_run (x.run_past n), hin⟩
    · exact ⟨n, le_rfl, hin⟩
  have hbegun' : q < (x.state k).nextId := by
    rw [(tells_of_run (x.run_past n)).count] at hbegun
    rw [(tells_of_run (x.run_past k)).count]
    exact hbegun.trans_le ((x.past_prefix hnk).filterMap _).length_le
  refine ⟨k, hnk, fun j hj => ?_⟩
  have hover' := over_persists hbegun' hover j hj
  have htells := tells_of_run (x.run_past j)
  have ha' : ((x.past j).filterMap ServerEvent.asked)[q]? = some a := by
    obtain ⟨hlt, rfl⟩ := List.getElem?_eq_some_iff.mp ha
    have hlonger := (x.past_prefix (hnk.trans hj)).filterMap ServerEvent.asked
    exact List.prefix_iff_getElem?.mp hlonger q hlt
  refine ⟨hover', (htells.received ha').1, fun hopen => ?_⟩
  obtain ⟨conn, hconn⟩ := Option.ne_none_iff_exists'.mp hopen
  cases hrequest : conn.request with
  | none =>
      rw [htells.idle conn hconn (by simp [hrequest]), received_transcript ha']
  | some y =>
      have hin : (x.state j).InProgress y.id := ⟨_, conn, y, hconn, hrequest, rfl, rfl⟩
      have hlast := last_of_inProgress (x.reachable j) hin
      rw [htells.count] at hlast
      obtain ⟨hlt, -⟩ := List.getElem?_eq_some_iff.mp ha'
      have hne : q ≠ y.id := fun hq => hover' (hq ▸ hin)
      rw [← hlast] at hlt
      refine (htells.received ha').2 ?_
      rw [← hlast]
      exact Nat.succ_lt_succ (lt_of_le_of_ne (Nat.le_of_lt_succ hlt) hne)

/-- A request for one byte from its start to its end. -/
def oneByte : List ServerEvent :=
  [.size (some "1") true true Req.zero, .release 0, .requestDone]

theorem exists_oneByte : ∃ s, serverSystem.run oneByte = some s ∧
    s.conn = some ⟨none, none⟩ ∧ s.refs = [] ∧ 0 < s.heap.length := by
  have hsome : (serverSystem.run oneByte).any fun s =>
      s.conn = some ⟨none, none⟩ ∧ s.refs = [] ∧ 0 < s.heap.length := by
    decide +kernel
  obtain ⟨s, hs, hend⟩ := (Option.any_eq_true _ _).mp hsome
  exact ⟨s, hs, of_decide_eq_true hend⟩

theorem serverFair_ofRun {es : List ServerEvent} (h : serverSystem.run es = some s)
    (hconn : s.conn = some ⟨none, none⟩) (hrefs : s.refs = []) :
    ServerFair (Course.ofRun h) := by
  rintro e (rfl | rfl | ⟨p, rfl⟩)
  · refine Course.ofRun_fair h ?_
    rintro ⟨conn, y, p, hconn', hrequest, -⟩
    cases hconn.symm.trans hconn'
    cases hrequest
  · refine Course.ofRun_fair h ?_
    rintro ⟨conn, y, hconn', hrequest, -⟩
    cases hconn.symm.trans hconn'
    cases hrequest
  · refine Course.ofRun_fair h fun hp => ?_
    have hmem : p ∈ s.refs := hp
    rw [hrefs] at hmem
    cases hmem

theorem request_served_oneByte : ∃ x : Course serverSystem, ServerFair x ∧
    ∃ k, received 0 (x.state k).sent = repetition reqBuf 1 := by
  obtain ⟨s, hs, hconn, hrefs, -⟩ := exists_oneByte
  have hfair := serverFair_ofRun hs hconn hrefs
  have hpast : (Course.ofRun hs).past 1 = [.size (some "1") true true Req.zero] := rfl
  have hfirst : (((Course.ofRun hs).past 1).filterMap ServerEvent.asked)[0]? =
      some (.size 1) := by
    rw [hpast]
    decide +kernel
  obtain ⟨k, -, hk⟩ := request_served hfair hfirst
  have hlast := Course.ofRun_state_of_le hs (le_max_right k oneByte.length)
  refine ⟨Course.ofRun hs, hfair, max k oneByte.length, (hk _ (le_max_left _ _)).2.2 ?_⟩
  rw [hlast, hconn]
  simp

end Course

/-! ## The memory of a request -/

section Memory

variable {s s' : ServerState} {e : ServerEvent} {p : ReqPtr} {c : Cell}

/-- The `struct req` at `p` belongs to no request any more. -/
def Lost (p : ReqPtr) (s : ServerState) : Prop :=
  ∃ c, s.heap[p]? = some c ∧ c.req.req = none

/-- What a step makes of the `struct req` `c` at `p`: it may lose its request, and after
that it gets no new references. -/
structure Ages (p : ReqPtr) (c : Cell) (s s' : ServerState) : Prop where
  cell : ∃ c', s'.heap[p]? = some c' ∧ (c'.req.req = c.req.req ∨ c'.req.req = none)
  refs : c.req.req = none → s'.refs.count p ≤ s.refs.count p

theorem ages_of_set {j : ReqPtr} {d d' : Cell} (hc : s.heap[p]? = some c)
    (hd : s.heap[j]? = some d) (hheap : s'.heap = s.heap.set j d')
    (hreq : d'.req.req = d.req.req ∨ d'.req.req = none)
    (hrefs : c.req.req = none → s'.refs.count p ≤ s.refs.count p) : Ages p c s s' := by
  refine ⟨?_, hrefs⟩
  rw [hheap, getElem?_set_of_some hd]
  by_cases hj : p = j
  · rw [if_pos hj]
    subst hj
    cases hc.symm.trans hd
    exact ⟨d', rfl, hreq⟩
  · rw [if_neg hj]
    exact ⟨c, hc, Or.inl rfl⟩

theorem Writes.ages {j : ReqPtr} (hc : s.heap[p]? = some c) (h : Writes j s s') :
    Ages p c s s' := by
  cases h with
  | line hd _ _ _ _ => exact ages_of_set hc hd rfl (Or.inl rfl) fun _ => le_rfl
  | size hd _ _ _ hreq =>
      refine ages_of_set hc hd rfl (Or.inl rfl) fun hlost => ?_
      have hother : j ≠ p := by
        rintro rfl
        cases hc.symm.trans hd
        rw [hlost] at hreq
        cases hreq
      simp [ServerState.wrote, hother]

theorem Ends.ages {x : EvhtpRequest} {heap : List Cell} {stale : ℕ} (hc : s.heap[p]? = some c)
    (h : Ends x s heap stale) (hheap : s'.heap = heap) (hrefs : s'.refs = s.refs) :
    Ages p c s s' := by
  cases h with
  | unhooked => exact ⟨⟨c, by rw [hheap, hc], Or.inl rfl⟩, fun _ => by rw [hrefs]⟩
  | hooked _ hd =>
      refine ages_of_set hc hd hheap (Or.inr ?_) fun _ => by rw [hrefs]
      rw [Cell.drop_req]
      rfl

theorem ServerStep.ages (h : ServerStep e s s') (hc : s.heap[p]? = some c) : Ages p c s s' := by
  have hold : ∀ {r finished reply}, (s.started r finished reply).heap[p]? = some c := by
    intro r finished reply
    obtain ⟨hlt, -⟩ := List.getElem?_eq_some_iff.mp hc
    rw [ServerState.started, List.getElem?_append_left hlt, hc]
  cases h with
  | refused => exact ⟨⟨c, hc, Or.inl rfl⟩, fun _ => le_rfl⟩
  | untyped => exact ⟨⟨c, hold, Or.inl rfl⟩, fun _ => le_rfl⟩
  | typed _ _ _ _ _ hwrites =>
      have hages := hwrites.ages hold
      exact ⟨hages.cell, hages.refs⟩
  | wrote _ _ _ hwrites =>
      have hages := hwrites.ages (by rw [use_heap, hc])
      exact ⟨hages.cell, fun hlost =>
        (hages.refs hlost).trans_eq (congrArg (List.count p) (use_refs _ s))⟩
  | wroteNothing => exact ⟨⟨c, by rw [use_heap, hc], Or.inl rfl⟩, fun _ => by rw [use_refs]⟩
  | released _ hd =>
      refine ages_of_set hc hd rfl (Or.inl ?_) fun _ => List.erase_sublist.count_le p
      rw [Cell.drop_req]
  | error _ _ hends => exact hends.ages hc rfl rfl
  | requestDone _ _ _ hends => exact hends.ages hc rfl rfl
  | close _ _ hends => exact hends.ages hc rfl rfl
  | closeIdle => exact ⟨⟨c, hc, Or.inl rfl⟩, fun _ => le_rfl⟩

theorem Lost.step (hs : Lost p s) (h : serverStep e s = some s') :
    Lost p s' ∧ s'.refs.count p ≤ s.refs.count p := by
  obtain ⟨c, hc, hlost⟩ := hs
  obtain ⟨⟨c', hc', hreq⟩, hrefs⟩ := (serverStep_spec h).ages hc
  refine ⟨⟨c', hc', ?_⟩, hrefs hlost⟩
  rcases hreq with hsame | hnone
  · rw [hsame, hlost]
  · exact hnone

theorem exists_lost {x : Course serverSystem} (hfair : ServerFair x) {n : ℕ}
    (hp : p < (x.state n).heap.length) : ∃ k, n ≤ k ∧ Lost p (x.state k) := by
  have hlinked := fun k => linked_of_run (x.run_past k)
  have hc := List.getElem?_eq_getElem hp
  cases hreq : (x.state n).heap[p].req.req with
  | none => exact ⟨n, le_rfl, _, hc, hreq⟩
  | some q =>
      have howned : ∀ {k c}, (x.state k).heap[p]? = some c → c.req.req = some q →
          (x.state k).InProgress q := by
        intro k c hc hq
        have hcurrent := (hlinked k).owned hc hq
        simp only [ServerState.current, Option.map_eq_some_iff, Option.bind_eq_some_iff]
          at hcurrent
        obtain ⟨y, ⟨conn, hconn, hrequest⟩, heq⟩ := hcurrent
        exact ⟨_, conn, y, hconn, hrequest, (Prod.mk.inj heq).1, rfl⟩
      obtain ⟨k, hnk, hover⟩ := answering_leadsTo_over hfair n
        ⟨tells_of_run (x.run_past n), howned hc hreq⟩
      have hstays := x.persists (P := fun s => ∃ c, s.heap[p]? = some c ∧
        (c.req.req = some q ∨ c.req.req = none)) ?_ ⟨_, hc, Or.inl hreq⟩ k hnk
      · obtain ⟨c, hc, hq | hnone⟩ := hstays
        · exact absurd (howned hc hq) hover
        · exact ⟨k, hnk, c, hc, hnone⟩
      · rintro s e s' - ⟨c, hc, hq⟩ h
        obtain ⟨⟨c', hc', hsame | hnone⟩, -⟩ := (serverStep_spec h).ages hc
        · exact ⟨c', hc', by rwa [hsame]⟩
        · exact ⟨c', hc', Or.inr hnone⟩

/-- All chunks of a lost `struct req` are released. -/
theorem lost_leadsTo_released {x : Course serverSystem} (hfair : ServerFair x) :
    x.LeadsTo (Lost p) fun s => Lost p s ∧ s.refs.count p = 0 := by
  refine Course.LeadsTo.of_measure (fun s => s.refs.count p) fun m => ?_
  refine Course.LeadsTo.of_cases (R := fun s => s.refs.count p = 0) ?_
    fun s hs hnone => Or.inl ⟨hs.1, hnone⟩
  apply Course.LeadsTo.of_fair (hfair (.release p) (Or.inr (Or.inr ⟨p, rfl⟩)))
  · rintro s - ⟨-, hsome⟩
    exact List.count_pos_iff.mp (Nat.pos_of_ne_zero hsome)
  · rintro s e s' - ⟨⟨hlost, rfl⟩, hsome⟩ h
    obtain ⟨hlost', hle⟩ := hlost.step h
    rcases Nat.lt_or_eq_of_le hle with hlt | heq
    · exact Or.inr (Or.inr ⟨hlost', hlt⟩)
    · exact Or.inl ⟨⟨hlost', heq⟩, heq ▸ hsome⟩
  · rintro s _ s' - ⟨⟨hlost, rfl⟩, hsome⟩ rfl hstep
    have h : serverStep (.release p) s = some s' := hstep
    obtain ⟨hlost', -⟩ := hlost.step h
    obtain ⟨hp, c, -, rfl⟩ := (serverStep_spec h).release_cases
    refine Or.inr ⟨hlost', ?_⟩
    rw [List.count_erase_self]
    exact Nat.sub_lt (Nat.pos_of_ne_zero hsome) Nat.one_pos

/-- In a fair course, without too many chunks at once, every `struct req` is freed in
the end, and so is its buffer: once, and never again. -/
theorem memory_returned {x : Course serverSystem} (hfair : ServerFair x)
    (hfew : ∀ n e, x.event n = some e → FewChunks (x.past n) e (x.state n)) {n : ℕ}
    (hp : p < (x.state n).heap.length) :
    ∃ k, n ≤ k ∧ ∀ j, k ≤ j → ∃ c, (x.state j).heap[p]? = some c ∧ c.freed = 1 ∧
      c.bufFreed = if c.req.buf = none then 0 else 1 := by
  obtain ⟨k₁, hk₁, hlost⟩ := exists_lost hfair hp
  obtain ⟨k, hk, hreleased⟩ := lost_leadsTo_released hfair k₁ hlost
  refine ⟨k, hk₁.trans hk, fun j hj => ?_⟩
  have hstays := x.persists (P := fun s => Lost p s ∧ s.refs.count p = 0) ?_ hreleased j hj
  · obtain ⟨⟨c, hc, hnone⟩, hcount⟩ := hstays
    have hexact := (refcount_exact_iff (x.run_past j)).mpr (x.guarded_past hfew j)
      (x.past j) (x.state j) List.prefix_rfl (x.run_past j)
    obtain ⟨-, hfreed, hbuf⟩ := hexact p c hc
    have hended : c.ended = 1 := by
      rw [(linked_of_run (x.run_past j)).ended hc, if_pos hnone]
    have hholders : (x.state j).holders p c = 0 := by
      rw [ServerState.holders, hended, hcount]
      rfl
    rw [if_pos hholders] at hfreed
    rw [hfreed] at hbuf
    exact ⟨c, hc, hfreed, hbuf⟩
  · rintro s e s' - ⟨hlost, hcount⟩ h
    obtain ⟨hlost', hle⟩ := hlost.step h
    exact ⟨hlost', Nat.le_zero.mp (hcount ▸ hle)⟩

theorem memory_returned_oneByte : ∃ x : Course serverSystem, ServerFair x ∧
    ∃ k, ∀ j, k ≤ j → ∃ c, (x.state j).heap[0]? = some c ∧ c.freed = 1 := by
  obtain ⟨s, hs, hconn, hrefs, hheap⟩ := exists_oneByte
  have hfair := serverFair_ofRun hs hconn hrefs
  have hfew : ∀ n e, (Course.ofRun hs).event n = some e →
      FewChunks ((Course.ofRun hs).past n) e ((Course.ofRun hs).state n) := by
    rintro n e he rfl
    have hmem : ServerEvent.onWrite ∈ oneByte := List.mem_of_getElem? he
    simp [oneByte] at hmem
  have hmade : 0 < ((Course.ofRun hs).state oneByte.length).heap.length := by
    rw [Course.ofRun_state_of_le hs le_rfl]
    exact hheap
  obtain ⟨k, -, hk⟩ := memory_returned hfair hfew hmade
  refine ⟨Course.ofRun hs, hfair, k, fun j hj => ?_⟩
  obtain ⟨c, hc, hfreed, -⟩ := hk j hj
  exact ⟨c, hc, hfreed⟩

end Memory

end EvhtpHttp.Server

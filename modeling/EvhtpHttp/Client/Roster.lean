import EvhtpHttp.Client.Ledger
import Mathlib.Data.List.Nodup

/-!
# The roster of connections

Which connections there are: every connection ever opened is on the list or was
freed, never both and never twice, and each on the list is in one activity.
Then what one event does to the roster, seen from one connection: backwards to
where an entry comes from, and forwards to what becomes of it.
-/

namespace EvhtpHttp.Client

/-- The connections on the list and the freed ones, when `nextId` is the name
of the next one. -/
structure Roster (conns gone : List Entry) (nextId : ℕ) : Prop where
  entries : ∀ c ∈ conns ++ gone, EntryOk c
  nodup : ((conns ++ gone).map Entry.id).Nodup
  below : ∀ c ∈ conns ++ gone, c.id < nextId

theorem mem_conns_of_split {s : Ledger} {pre post : List Entry} {c : Entry}
    (h : s.conns = pre ++ c :: post) : c ∈ s.conns := by
  simp [h]

theorem forall_mem_split {P : Entry → Prop} {pre post gone : List Entry} {c : Entry} :
    (∀ x ∈ pre ++ c :: post ++ gone, P x) ↔
      P c ∧ ∀ x ∈ pre ++ post ++ gone, P x := by
  simp only [List.mem_append, List.mem_cons]
  constructor
  · intro h
    exact ⟨h c (by simp), fun x hx => h x (by tauto)⟩
  · rintro ⟨hc, h⟩ x hx
    by_cases hxc : x = c
    · exact hxc ▸ hc
    · exact h x (by tauto)

namespace Roster

variable {pre post conns gone : List Entry} {c c' : Entry} {n : ℕ}

theorem empty : Roster [] [] 0 where
  entries := by simp
  nodup := by simp
  below := by simp

theorem replace (h : Roster (pre ++ c :: post) gone n) (hid : c'.id = c.id)
    (hok : EntryOk c') : Roster (pre ++ c' :: post) gone n where
  entries := forall_mem_split.mpr ⟨hok, (forall_mem_split.mp h.entries).2⟩
  nodup := by simpa [hid] using h.nodup
  below := by
    obtain ⟨hc, hrest⟩ := forall_mem_split.mp h.below
    exact forall_mem_split.mpr ⟨hid ▸ hc, hrest⟩

theorem append_fresh (h : Roster conns gone n) (target : ℤ) :
    Roster (conns ++ [Entry.fresh n target]) gone (n + 1) where
  entries := by
    refine forall_mem_split.mpr ⟨EntryOk.fresh n target, ?_⟩
    simpa using h.entries
  nodup := by
    have hperm : (conns ++ [Entry.fresh n target] ++ gone).Perm
        (Entry.fresh n target :: (conns ++ gone)) := by
      simp
    rw [(hperm.map Entry.id).nodup_iff, List.map_cons, List.nodup_cons]
    refine ⟨?_, h.nodup⟩
    intro hmem
    obtain ⟨x, hx, hid⟩ := List.mem_map.mp hmem
    have hlt : x.id < n := h.below x hx
    have heq : x.id = n := hid
    omega
  below := by
    refine forall_mem_split.mpr ⟨Nat.lt_succ_self n, ?_⟩
    intro x hx
    exact (h.below x (by simpa using hx)).trans (Nat.lt_succ_self n)

theorem free (h : Roster (pre ++ c :: post) gone n) :
    Roster (pre ++ post) (gone ++ [c.free]) n where
  entries := by
    intro x hx
    rw [← List.append_assoc] at hx
    rcases List.mem_append.mp hx with hx | hx
    · exact (forall_mem_split.mp h.entries).2 x hx
    · cases List.mem_singleton.mp hx
      exact EntryOk.free c
  nodup := by
    have hperm : (pre ++ c :: post ++ gone).Perm (pre ++ post ++ (gone ++ [c])) := by
      have hfront : (pre ++ c :: post ++ gone).Perm (c :: (pre ++ post ++ gone)) := by
        simp
      have hback : (pre ++ post ++ (gone ++ [c])).Perm (c :: (pre ++ post ++ gone)) := by
        rw [← List.append_assoc]
        exact List.perm_append_singleton c _
      exact hfront.trans hback.symm
    have hids : (pre ++ post ++ (gone ++ [c.free])).map Entry.id =
        (pre ++ post ++ (gone ++ [c])).map Entry.id := by
      simp [Entry.free]
    rw [hids]
    exact (hperm.map Entry.id).nodup_iff.mp h.nodup
  below := by
    obtain ⟨hc, hrest⟩ := forall_mem_split.mp h.below
    intro x hx
    rw [← List.append_assoc] at hx
    rcases List.mem_append.mp hx with hx | hx
    · exact hrest x hx
    · cases List.mem_singleton.mp hx
      exact hc

theorem kill (h : Roster conns gone n) : Roster (conns.map Entry.kill) gone n where
  entries := by
    intro x hx
    rcases List.mem_append.mp hx with hx | hx
    · obtain ⟨y, hy, rfl⟩ := List.mem_map.mp hx
      exact (h.entries y (List.mem_append_left _ hy)).kill
    · exact h.entries x (List.mem_append_right _ hx)
  nodup := by
    have hids : (conns.map Entry.kill).map Entry.id = conns.map Entry.id := by
      rw [List.map_map]
      rfl
    have hold := h.nodup
    rw [List.map_append] at hold ⊢
    rwa [hids]
  below := by
    intro x hx
    rcases List.mem_append.mp hx with hx | hx
    · obtain ⟨y, hy, rfl⟩ := List.mem_map.mp hx
      exact h.below y (List.mem_append_left _ hy)
    · exact h.below x (List.mem_append_right _ hx)

theorem entry (h : Roster (pre ++ c :: post) gone n) : EntryOk c :=
  (forall_mem_split.mp h.entries).1

theorem eq_of_id_eq (h : Roster conns gone n) (hc : c ∈ conns ++ gone)
    (hc' : c' ∈ conns ++ gone) (hid : c.id = c'.id) : c = c' :=
  List.inj_on_of_nodup_map h.nodup hc hc' hid

end Roster

/-- The roster of a ledger is in order. -/
def Ledger.RosterOk (s : Ledger) : Prop :=
  Roster s.conns s.gone s.nextId

theorem rosterOk_closeConn {s : Ledger} {pre post : List Entry} {c : Entry}
    (hs : s.RosterOk) (hsplit : s.conns = pre ++ c :: post) (o : Outcome) (p : Pacer) :
    (s.closeConn pre c post o p).RosterOk := by
  have hroster : Roster s.conns s.gone s.nextId := hs
  rw [hsplit] at hroster
  have hclosed : Roster (pre ++ c.close :: post) s.gone s.nextId :=
    hroster.replace rfl (EntryOk.close c)
  exact hclosed

theorem rosterOk_freeConn {s : Ledger} {pre post : List Entry} {c : Entry}
    (hs : s.RosterOk) (hsplit : s.conns = pre ++ c :: post) :
    (s.freeConn pre c post).RosterOk := by
  have hroster : Roster s.conns s.gone s.nextId := hs
  rw [hsplit] at hroster
  exact hroster.free

/-! ## Opening connections -/

theorem TryOpen.rosterOk {s s' : Ledger} (h : TryOpen s s') (hs : s.RosterOk) :
    s'.RosterOk := by
  cases h with
  | refused => exact hs
  | failed => exact hs
  | opened => exact hs.append_fresh _

theorem Burst.rosterOk {s s' : Ledger} {k : ℕ} (h : Burst s k s') (hs : s.RosterOk) :
    s'.RosterOk := by
  induction h with
  | done => exact hs
  | failed => exact hs
  | opened _ _ _ ih => exact ih (hs.append_fresh _)

/-- An attempt to open a connection only adds at the end of the list, and does
not depend on what is on it. -/
theorem TryOpen.conns_append {s s' : Ledger} (h : TryOpen s s') :
    ∃ news, s'.conns = s.conns ++ news ∧
      ∀ l, TryOpen { s with conns := l } { s' with conns := l ++ news } := by
  cases h with
  | refused =>
      refine ⟨[], by simp, fun l => ?_⟩
      rw [List.append_nil]
      exact TryOpen.refused _
  | failed hopen hpace =>
      refine ⟨[], by simp [Ledger.openFailed], fun l => ?_⟩
      rw [List.append_nil]
      exact TryOpen.failed hopen hpace
  | opened hopen hpace =>
      exact ⟨_, rfl, fun l => TryOpen.opened hopen hpace⟩

theorem rosterOk_paced {s : Ledger} (hs : s.RosterOk) : s.paced.RosterOk := by
  unfold Ledger.paced
  split <;> exact hs

theorem rosterOk_tickEnd {s : Ledger} (hs : s.RosterOk) : s.tickEnd.RosterOk := by
  unfold Ledger.tickEnd
  split <;> exact hs

theorem LedgerStep.rosterOk {e : LoopEvent} {s s' : Ledger} (h : LedgerStep e s s')
    (hs : s.RosterOk) : s'.RosterOk := by
  have hroster : Roster s.conns s.gone s.nextId := hs
  cases h with
  | issue hsplit hqueued hidle hopen =>
      rw [hsplit] at hroster
      exact hroster.replace rfl (EntryOk.issue hopen)
  | issueFailed hsplit =>
      rw [hsplit] at hroster
      exact hroster.replace rfl hroster.entry.giveUp
  | data hsplit hflight =>
      rw [hsplit] at hroster
      exact hroster.replace rfl (hroster.entry.hear hflight)
  | connTimeout hsplit =>
      rw [hsplit] at hroster
      exact hroster.replace rfl hroster.entry.expire
  | completeNext hsplit hflight =>
      rw [hsplit] at hroster
      exact hroster.replace rfl (hroster.entry.next hflight)
  | completeLast hsplit =>
      rw [hsplit] at hroster
      exact hroster.replace rfl hroster.entry.finish
  | close hsplit _ _ _ htry => exact htry.rosterOk (rosterOk_closeConn hs hsplit _ _)
  | destroyClosed hsplit => exact rosterOk_freeConn hs hsplit
  | destroyOpen hsplit _ _ htry hsplit₁ =>
      exact rosterOk_freeConn (htry.rosterOk (rosterOk_closeConn hs hsplit _ _)) hsplit₁
  | cleanupTimer => exact hroster.kill
  | tickRunning _ _ _ hburst =>
      exact rosterOk_tickEnd (hburst.rosterOk (rosterOk_paced hs))
  | _ => exact hs

end EvhtpHttp.Client

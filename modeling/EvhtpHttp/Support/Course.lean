import EvhtpHttp.Support.Transition

/-!
# Courses of a transition system

A course is what a partial transition system does for ever: at each moment it
takes an event or nothing happens.  A course is fair to a kind of events when
these do not stay possible for ever without one of them being taken.  From
fairness follow the statements that one condition leads to another.
-/

namespace EvhtpHttp.Support

variable {σ ε σ' ε' : Type*}

/-- One moment of a course. -/
def System.Takes (T : System σ ε) : Option ε → σ → σ → Prop
  | some e, s, s' => T.step e s = some s'
  | none, s, s' => s' = s

/-- A course of the system `T`. -/
structure Course (T : System σ ε) where
  state : ℕ → σ
  event : ℕ → Option ε
  start : state 0 = T.init
  next : ∀ n, T.Takes (event n) (state n) (state (n + 1))

namespace Course

variable {T : System σ ε} (x : Course T)

theorem step_of_event {n : ℕ} {e : ε} (h : x.event n = some e) :
    T.step e (x.state n) = some (x.state (n + 1)) := by
  have hnext := x.next n
  rwa [h] at hnext

theorem state_succ_of_idle {n : ℕ} (h : x.event n = none) : x.state (n + 1) = x.state n := by
  have hnext := x.next n
  rwa [h] at hnext

theorem reachable (n : ℕ) : T.Reachable (x.state n) := by
  induction n with
  | zero =>
      rw [x.start]
      exact System.Reachable.init T
  | succ n ih =>
      cases h : x.event n with
      | none =>
          rw [x.state_succ_of_idle h]
          exact ih
      | some e => exact ih.step (x.step_of_event h)

/-- The events up to the moment `n`. -/
def past (n : ℕ) : List ε :=
  (List.range n).filterMap x.event

theorem past_succ_of_event {n : ℕ} {e : ε} (h : x.event n = some e) :
    x.past (n + 1) = x.past n ++ [e] := by
  simp [past, List.range_succ, h]

theorem past_succ_of_idle {n : ℕ} (h : x.event n = none) : x.past (n + 1) = x.past n := by
  simp [past, List.range_succ, h]

theorem run_past (n : ℕ) : T.run (x.past n) = some (x.state n) := by
  induction n with
  | zero =>
      rw [x.start]
      rfl
  | succ n ih =>
      cases h : x.event n with
      | none => rw [x.past_succ_of_idle h, x.state_succ_of_idle h, ih]
      | some e =>
          rw [x.past_succ_of_event h]
          exact T.run_concat_eq_some.mpr ⟨_, ih, x.step_of_event h⟩

theorem past_prefix {n k : ℕ} (h : n ≤ k) : x.past n <+: x.past k := by
  induction k, h using Nat.le_induction with
  | base => exact List.prefix_rfl
  | succ k _ ih =>
      cases he : x.event k with
      | none =>
          rw [x.past_succ_of_idle he]
          exact ih
      | some e =>
          rw [x.past_succ_of_event he]
          exact ih.trans (List.prefix_append _ _)

/-- What holds whenever the course takes an event guards its past. -/
theorem guarded_past {G : List ε → ε → σ → Prop}
    (h : ∀ n e, x.event n = some e → G (x.past n) e (x.state n)) (n : ℕ) :
    T.Guarded G (x.past n) := by
  induction n with
  | zero => exact T.guarded_nil G
  | succ n ih =>
      cases he : x.event n with
      | none =>
          rw [x.past_succ_of_idle he]
          exact ih
      | some e =>
          rw [x.past_succ_of_event he]
          apply System.Guarded.concat T ih
          intro s hs
          cases (x.run_past n).symm.trans hs
          exact h n e he

/-- What every step keeps holds from the moment on at which it holds first. -/
theorem persists {P : σ → Prop}
    (hstep : ∀ s e s', T.Reachable s → P s → T.step e s = some s' → P s')
    {n : ℕ} (h : P (x.state n)) : ∀ k, n ≤ k → P (x.state k) := by
  intro k hk
  induction k, hk using Nat.le_induction with
  | base => exact h
  | succ k _ ih =>
      cases he : x.event k with
      | none =>
          rw [x.state_succ_of_idle he]
          exact ih
      | some e => exact hstep _ e _ (x.reachable k) ih (x.step_of_event he)

theorem rests {n : ℕ} (h : ∀ e, T.step e (x.state n) = none) :
    ∀ k, n ≤ k → x.state k = x.state n ∧ x.event k = none := by
  have hidle : ∀ k, x.state k = x.state n → x.event k = none := by
    intro k hk
    rw [Option.eq_none_iff_forall_ne_some]
    intro e he
    have hstep := x.step_of_event he
    rw [hk, h e] at hstep
    cases hstep
  intro k hk
  induction k, hk using Nat.le_induction with
  | base => exact ⟨rfl, hidle n rfl⟩
  | succ k _ ih =>
      have hsame := (x.state_succ_of_idle ih.2).trans ih.1
      exact ⟨hsame, hidle _ hsame⟩

/-! ## Fairness -/

/-- An event of the kind `A` is taken sooner or later if `on` holds for ever. -/
def Fair (A : ε → Prop) (on : σ → Prop) : Prop :=
  ∀ n, (∀ k, n ≤ k → on (x.state k)) → ∃ k, n ≤ k ∧ ∃ e, x.event k = some e ∧ A e

/-- Whenever `P` holds, `Q` holds then or later. -/
def LeadsTo (P Q : σ → Prop) : Prop :=
  ∀ n, P (x.state n) → ∃ k, n ≤ k ∧ Q (x.state k)

variable {x} {P P' Q Q' R : σ → Prop}

theorem LeadsTo.of_imp (h : ∀ s, T.Reachable s → P s → Q s) : x.LeadsTo P Q :=
  fun n hP => ⟨n, le_rfl, h _ (x.reachable n) hP⟩

theorem LeadsTo.trans (h : x.LeadsTo P Q) (h' : x.LeadsTo Q R) : x.LeadsTo P R := by
  intro n hP
  obtain ⟨k, hnk, hQ⟩ := h n hP
  obtain ⟨j, hkj, hR⟩ := h' k hQ
  exact ⟨j, hnk.trans hkj, hR⟩

theorem LeadsTo.mono (h : x.LeadsTo P Q) (hP : ∀ s, T.Reachable s → P' s → P s)
    (hQ : ∀ s, T.Reachable s → Q s → Q' s) : x.LeadsTo P' Q' :=
  ((LeadsTo.of_imp hP).trans h).trans (LeadsTo.of_imp hQ)

theorem LeadsTo.or (h : x.LeadsTo P R) (h' : x.LeadsTo Q R) :
    x.LeadsTo (fun s => P s ∨ Q s) R := by
  intro n hPQ
  rcases hPQ with hP | hQ
  · exact h n hP
  · exact h' n hQ

/-- It is enough to look at the states in which `Q` is not already reached with `R`. -/
theorem LeadsTo.of_cases (h : x.LeadsTo (fun s => P s ∧ ¬ R s) Q)
    (hR : ∀ s, P s → R s → Q s) : x.LeadsTo P Q := by
  intro n hP
  by_cases hcase : R (x.state n)
  · exact ⟨n, le_rfl, hR _ hP hcase⟩
  · exact h n ⟨hP, hcase⟩

/-- The rule of one fair kind of events: `P` stays until `Q` holds, it makes the
events of the kind `A` possible, and each of these leads to `Q`. -/
theorem LeadsTo.of_fair {A : ε → Prop} {on : σ → Prop} (hfair : x.Fair A on)
    (hon : ∀ s, T.Reachable s → P s → on s)
    (hstep : ∀ s e s', T.Reachable s → P s → T.step e s = some s' → P s' ∨ Q s')
    (hA : ∀ s e s', T.Reachable s → P s → A e → T.step e s = some s' → Q s') :
    x.LeadsTo P Q := by
  intro n hP
  by_contra hnever
  have hnot : ∀ k, n ≤ k → ¬ Q (x.state k) := fun k hk hQ => hnever ⟨k, hk, hQ⟩
  have hstays : ∀ k, n ≤ k → P (x.state k) := by
    intro k hk
    induction k, hk using Nat.le_induction with
    | base => exact hP
    | succ k hk ih =>
        cases he : x.event k with
        | none =>
            rw [x.state_succ_of_idle he]
            exact ih
        | some e =>
            rcases hstep _ e _ (x.reachable k) ih (x.step_of_event he) with hkeep | hdone
            · exact hkeep
            · exact absurd hdone (hnot (k + 1) (by omega))
  obtain ⟨k, hk, e, he, hkind⟩ := hfair n fun k hk => hon _ (x.reachable k) (hstays k hk)
  have hdone := hA _ e _ (x.reachable k) (hstays k hk) hkind (x.step_of_event he)
  exact hnot (k + 1) (by omega) hdone

/-- The rule of a measure that cannot fall for ever. -/
theorem LeadsTo.of_measure (μ : σ → ℕ)
    (h : ∀ n, x.LeadsTo (fun s => P s ∧ μ s = n) fun s => Q s ∨ P s ∧ μ s < n) :
    x.LeadsTo P Q := by
  intro n hP
  generalize hμ : μ (x.state n) = r
  induction r using Nat.strong_induction_on generalizing n with
  | h r ih =>
      obtain ⟨k, hnk, hQ | ⟨hP', hlt⟩⟩ := h r n ⟨hP, hμ⟩
      · exact ⟨k, hnk, hQ⟩
      · obtain ⟨j, hkj, hQ⟩ := ih _ hlt k hP' rfl
        exact ⟨j, hnk.trans hkj, hQ⟩

/-- Several conditions that stay once they hold, and each of which is reached,
hold together at last. -/
theorem LeadsTo.all {ι : Type*} [Finite ι] {Q : ι → σ → Prop}
    (hreached : ∀ i, x.LeadsTo P (Q i))
    (hstep : ∀ i s e s', T.Reachable s → Q i s → T.step e s = some s' → Q i s') :
    x.LeadsTo P fun s => ∀ i, Q i s := by
  classical
  intro n hP
  have hpart : ∀ S : Finset ι, ∃ k, n ≤ k ∧ ∀ i ∈ S, Q i (x.state k) := by
    intro S
    induction S using Finset.induction_on with
    | empty => exact ⟨n, le_rfl, by simp⟩
    | insert i S _ ih =>
        obtain ⟨k, hnk, hS⟩ := ih
        obtain ⟨j, hnj, hi⟩ := hreached i n hP
        refine ⟨max k j, hnk.trans (le_max_left k j), ?_⟩
        intro l hl
        rcases Finset.mem_insert.mp hl with rfl | hl
        · exact x.persists (hstep l) hi _ (le_max_right k j)
        · exact x.persists (hstep l) (hS l hl) _ (le_max_left k j)
  have := Fintype.ofFinite ι
  obtain ⟨k, hnk, hall⟩ := hpart Finset.univ
  exact ⟨k, hnk, fun i => hall i (Finset.mem_univ i)⟩

end Course

/-! ## The part of one component -/

/-- How a component `T'` is seen in a system `T`: its state, and what an event of
the system is to it. -/
structure View (T : System σ ε) (T' : System σ' ε') where
  state : σ → σ'
  event : ε → σ → Option ε'
  start : state T.init = T'.init
  next : ∀ e s s', T.step e s = some s' → T'.Takes (event e s) (state s) (state s')

namespace View

variable {T : System σ ε} {T' : System σ' ε'} (v : View T T')

/-- The course of the component in a course of the system. -/
def course (x : Course T) : Course T' where
  state n := v.state (x.state n)
  event n := (x.event n).bind fun e => v.event e (x.state n)
  start := by rw [x.start, v.start]
  next n := by
    cases h : x.event n with
    | none => exact congrArg v.state (x.state_succ_of_idle h)
    | some e => exact v.next e _ _ (x.step_of_event h)

theorem course_fair {x : Course T} {A : ε → Prop} {A' : ε' → Prop} {on : σ' → Prop}
    (h : x.Fair A fun s => on (v.state s))
    (hA : ∀ e s, A e → ∃ d, v.event e s = some d ∧ A' d) : (v.course x).Fair A' on := by
  intro n hon
  obtain ⟨k, hk, e, he, hkind⟩ := h n hon
  obtain ⟨d, hd, hkind'⟩ := hA e (x.state k) hkind
  exact ⟨k, hk, d, by simp [course, he, hd], hkind'⟩

end View

/-! ## Runs as courses -/

namespace Course

variable {T : System σ ε} {es : List ε} {s : σ}

theorem takes_of_run (h : T.run es = some s) (n : ℕ) :
    T.Takes es[n]? ((T.run (es.take n)).getD s) ((T.run (es.take (n + 1))).getD s) := by
  obtain hn | hn := Nat.lt_or_ge n es.length
  · have hrun : T.run (es.take (n + 1) ++ es.drop (n + 1)) = some s := by
      rw [List.take_append_drop]
      exact h
    obtain ⟨s₂, hs₂, -⟩ := T.exists_run_of_run_append hrun
    have htake : es.take (n + 1) = es.take n ++ [es[n]] := by simp
    rw [htake] at hs₂ ⊢
    obtain ⟨s₁, hs₁, hstep⟩ := T.run_concat_eq_some.mp hs₂
    rw [hs₁, hs₂, List.getElem?_eq_getElem hn]
    exact hstep
  · have htake : es.take (n + 1) = es.take n := by
      rw [List.take_of_length_le hn, List.take_of_length_le (by omega)]
    rw [htake, List.getElem?_eq_none hn]
    exact rfl

/-- The course that takes the events of a run and rests after them. -/
def ofRun (h : T.run es = some s) : Course T where
  state n := (T.run (es.take n)).getD s
  event n := es[n]?
  start := rfl
  next := takes_of_run h

theorem ofRun_state_of_le (h : T.run es = some s) {n : ℕ} (hn : es.length ≤ n) :
    (ofRun h).state n = s := by
  simp [ofRun, List.take_of_length_le hn, h]

/-- The course of a run is fair to everything that is no longer possible at its end. -/
theorem ofRun_fair (h : T.run es = some s) {A : ε → Prop} {on : σ → Prop} (hs : ¬ on s) :
    (ofRun h).Fair A on := by
  intro n hon
  have hlast := hon (max n es.length) (le_max_left _ _)
  rw [ofRun_state_of_le h (le_max_right _ _)] at hlast
  exact absurd hlast hs

end Course

end EvhtpHttp.Support

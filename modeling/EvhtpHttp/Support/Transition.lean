import Mathlib.Data.List.Destutter
import Mathlib.Data.List.Infix
import Mathlib.Data.Fintype.BigOperators
import Mathlib.Logic.Function.Basic

/-!
# Partial transition systems

A program driven by an event loop is modelled as a partial step function: the
result is `none` when the event cannot be delivered, or when handling it ends
the program.  This module supplies runs from the initial state, the induction
rules for invariants of all runs and of guarded runs, the list of states that a
run visits, and the interleaved product of several systems.
-/

namespace EvhtpHttp.Support

/-- A deterministic partial transition system with one initial state. -/
structure System (σ ε : Type*) where
  init : σ
  step : ε → σ → Option σ

namespace System

variable {σ ε : Type*} (T : System σ ε)

/-- The state after the events `es`, when every one of them can be taken. -/
def runFrom : List ε → σ → Option σ
  | [], s => some s
  | e :: es, s => (T.step e s).bind (runFrom es)

/-- The state after the events `es` from the initial state. -/
def run (es : List ε) : Option σ :=
  T.runFrom es T.init

/-- The states that some run reaches. -/
def Reachable (s : σ) : Prop :=
  ∃ es, T.run es = some s

theorem runFrom_append (es fs : List ε) (s : σ) :
    T.runFrom (es ++ fs) s = (T.runFrom es s).bind (T.runFrom fs) := by
  induction es generalizing s with
  | nil => rfl
  | cons e es ih =>
      simp only [List.cons_append, runFrom, Option.bind_assoc]
      congr 1
      funext s'
      exact ih s'

theorem run_append (es fs : List ε) :
    T.run (es ++ fs) = (T.run es).bind (T.runFrom fs) :=
  T.runFrom_append es fs T.init

theorem run_concat (es : List ε) (e : ε) :
    T.run (es ++ [e]) = (T.run es).bind (T.step e) := by
  rw [run_append]
  congr 1
  funext s
  cases h : T.step e s <;> simp [runFrom, h]

theorem run_concat_eq_some {es : List ε} {e : ε} {s' : σ} :
    T.run (es ++ [e]) = some s' ↔
      ∃ s, T.run es = some s ∧ T.step e s = some s' := by
  rw [run_concat, Option.bind_eq_some_iff]

theorem exists_run_of_run_append {es fs : List ε} {s : σ}
    (h : T.run (es ++ fs) = some s) :
    ∃ s₀, T.run es = some s₀ ∧ T.runFrom fs s₀ = some s := by
  rw [run_append, Option.bind_eq_some_iff] at h
  exact h

theorem Reachable.init : T.Reachable T.init :=
  ⟨[], rfl⟩

variable {T}

theorem Reachable.step {s s' : σ} {e : ε}
    (hs : T.Reachable s) (h : T.step e s = some s') : T.Reachable s' := by
  obtain ⟨es, hes⟩ := hs
  exact ⟨es ++ [e], T.run_concat_eq_some.mpr ⟨s, hes, h⟩⟩

theorem Reachable.runFrom {s s' : σ} {es : List ε}
    (hs : T.Reachable s) (h : T.runFrom es s = some s') : T.Reachable s' := by
  obtain ⟨pre, hpre⟩ := hs
  exact ⟨pre ++ es, by rw [run_append, hpre, Option.bind_some, h]⟩

variable (T)

/-! ## Induction over runs -/

/-- A property of the events so far and the present state holds along every
run once it holds at the start and every step of a run keeps it. -/
theorem run_induction {P : List ε → σ → Prop}
    (hinit : P [] T.init)
    (hstep : ∀ es e s s', T.run es = some s → P es s →
      T.step e s = some s' → P (es ++ [e]) s') :
    ∀ es s, T.run es = some s → P es s := by
  intro es
  induction es using List.reverseRecOn with
  | nil =>
      intro s hs
      cases hs
      exact hinit
  | append_singleton es e ih =>
      intro s' hs'
      obtain ⟨s, hs, hse⟩ := T.run_concat_eq_some.mp hs'
      exact hstep es e s s' hs (ih s hs) hse

/-- A state invariant holds in every reachable state. -/
theorem invariant {P : σ → Prop} (hinit : P T.init)
    (hstep : ∀ s e s', P s → T.step e s = some s' → P s') :
    ∀ s, T.Reachable s → P s := by
  rintro s ⟨es, hes⟩
  exact T.run_induction (P := fun _ s => P s) hinit
    (fun _ e s s' _ hs h => hstep s e s' hs h) es s hes

/-- A reflexive and transitive relation kept by the steps out of invariant
states relates the ends of every run out of such a state. -/
theorem runFrom_rel {P : σ → Prop} {R : σ → σ → Prop}
    (hrefl : ∀ s, R s s) (htrans : ∀ a b c, R a b → R b c → R a c)
    (hstep : ∀ s e s', P s → T.step e s = some s' → P s' ∧ R s s') :
    ∀ es s s', P s → T.runFrom es s = some s' → P s' ∧ R s s' := by
  intro es
  induction es with
  | nil =>
      intro s s' hs h
      cases h
      exact ⟨hs, hrefl s⟩
  | cons e es ih =>
      intro s s' hs h
      obtain ⟨t, ht, hts⟩ := Option.bind_eq_some_iff.mp h
      obtain ⟨hPt, hRt⟩ := hstep s e t hs ht
      obtain ⟨hPs', hRs'⟩ := ih t s' hPt hts
      exact ⟨hPs', htrans _ _ _ hRt hRs'⟩

/-- Every event of the run `es` is taken in a state, and after a history, that
the guard `G` admits. -/
def Guarded (G : List ε → ε → σ → Prop) (es : List ε) : Prop :=
  ∀ pre e post s, es = pre ++ e :: post → T.run pre = some s → G pre e s

theorem Guarded.of_concat {G : List ε → ε → σ → Prop} {es : List ε} {e : ε}
    (h : T.Guarded G (es ++ [e])) : T.Guarded G es := by
  intro pre d post s hsplit hs
  exact h pre d (post ++ [e]) s (by simp [hsplit]) hs

theorem guarded_nil (G : List ε → ε → σ → Prop) : T.Guarded G [] := by
  intro pre e post s hsplit
  simp at hsplit

theorem Guarded.concat {G : List ε → ε → σ → Prop} {es : List ε} {e : ε}
    (h : T.Guarded G es) (he : ∀ s, T.run es = some s → G es e s) :
    T.Guarded G (es ++ [e]) := by
  intro pre d post s hsplit hs
  rcases List.eq_nil_or_concat post with rfl | ⟨post, x, rfl⟩
  · obtain ⟨rfl, hlast⟩ := List.append_inj' hsplit rfl
    cases hlast
    exact he s hs
  · rw [List.concat_eq_append, ← List.cons_append, ← List.append_assoc] at hsplit
    obtain ⟨rfl, -⟩ := List.append_inj' hsplit rfl
    exact h pre d post s rfl hs

/-- The induction rule for runs all of whose steps meet a guard. -/
theorem guarded_induction {G : List ε → ε → σ → Prop}
    {P : List ε → σ → Prop} (hinit : P [] T.init)
    (hstep : ∀ es e s s', T.run es = some s → G es e s → P es s →
      T.step e s = some s' → P (es ++ [e]) s') :
    ∀ es s, T.Guarded G es → T.run es = some s → P es s := by
  intro es
  induction es using List.reverseRecOn with
  | nil =>
      intro s _ hs
      cases hs
      exact hinit
  | append_singleton es e ih =>
      intro s' hguard hs'
      obtain ⟨s, hs, hse⟩ := T.run_concat_eq_some.mp hs'
      have hG : G es e s := hguard es e [] s rfl hs
      exact hstep es e s s' hs hG (ih s hguard.of_concat hs) hse

/-- Every state that the run `es` goes through satisfies `P`. -/
def Throughout (P : σ → Prop) (es : List ε) : Prop :=
  ∀ pre s, pre <+: es → T.run pre = some s → P s

theorem Guarded.of_prefix {G : List ε → ε → σ → Prop} {pre es : List ε}
    (h : T.Guarded G es) (hpre : pre <+: es) : T.Guarded G pre := by
  obtain ⟨rest, rfl⟩ := hpre
  intro before e after s hsplit hs
  exact h before e (after ++ rest) s (by simp [hsplit]) hs

/-- The rule for guarded runs, from a state in the middle of one on. -/
theorem guarded_runFrom {G : List ε → ε → σ → Prop} {P : σ → Prop}
    (hstep : ∀ es e s s', T.run es = some s → G es e s → P s → T.step e s = some s' → P s')
    {pre es : List ε} {s s' : σ} (hguard : T.Guarded G (pre ++ es)) (hpre : T.run pre = some s)
    (hs : P s) (h : T.runFrom es s = some s') : P s' := by
  induction es generalizing pre s with
  | nil =>
      obtain rfl : s = s' := Option.some.inj h
      exact hs
  | cons e es ih =>
      obtain ⟨t, ht, hrest⟩ := Option.bind_eq_some_iff.mp h
      have hnext : T.run (pre ++ [e]) = some t := T.run_concat_eq_some.mpr ⟨s, hpre, ht⟩
      have hG : G pre e s := hguard pre e es s rfl hpre
      rw [List.append_cons] at hguard
      exact ih hguard hnext (hstep pre e s t hpre hG hs ht) hrest

/-- A run goes through states with `P` only, when `P` holds at the start and
every step that the guard admits keeps it. -/
theorem throughout_of_guarded {G : List ε → ε → σ → Prop} {P : σ → Prop}
    (hinit : P T.init)
    (hstep : ∀ es e s s', T.run es = some s → G es e s → P s → T.step e s = some s' → P s')
    {es : List ε} (h : T.Guarded G es) : T.Throughout P es := by
  intro pre s hpre hs
  exact T.guarded_induction (P := fun _ s => P s) hinit hstep pre s (h.of_prefix T hpre) hs

/-- A run that goes through states with `P` only meets every guard that a step
between two such states has to meet. -/
theorem guarded_of_throughout {G : List ε → ε → σ → Prop} {P : σ → Prop}
    (hstep : ∀ es e s s', T.run es = some s → P s → T.step e s = some s' → P s' → G es e s)
    {es : List ε} {m : σ} (hes : T.run es = some m) (h : T.Throughout P es) :
    T.Guarded G es := by
  rintro pre e post s rfl hs
  obtain ⟨s₀, hs₀, hrest⟩ := T.exists_run_of_run_append hes
  obtain rfl : s = s₀ := Option.some.inj (hs.symm.trans hs₀)
  obtain ⟨s', hs', -⟩ := Option.bind_eq_some_iff.mp hrest
  have hnext : T.run (pre ++ [e]) = some s' := T.run_concat_eq_some.mpr ⟨s, hs, hs'⟩
  have hafter : P s' := h (pre ++ [e]) s' ⟨post, by simp⟩ hnext
  exact hstep pre e s s' hs (h pre s ⟨e :: post, rfl⟩ hs) hs' hafter

/-! ## What a run shows -/

/-- What is seen of the steps of a run, in their order. -/
def observedFrom {α : Type*} (f : ε → σ → Option α) : List ε → σ → List α
  | [], _ => []
  | e :: es, s =>
      (f e s).toList ++ match T.step e s with
        | some s' => observedFrom f es s'
        | none => []

/-- What is seen of the steps of a run from the initial state. -/
def observed {α : Type*} (f : ε → σ → Option α) (es : List ε) : List α :=
  T.observedFrom f es T.init

/-- What the steps of a run put out, in their order. -/
def emittedFrom {α : Type*} (f : ε → σ → List α) : List ε → σ → List α
  | [], _ => []
  | e :: es, s =>
      f e s ++ match T.step e s with
        | some s' => emittedFrom f es s'
        | none => []

/-- What the steps of a run from the initial state put out. -/
def emitted {α : Type*} (f : ε → σ → List α) (es : List ε) : List α :=
  T.emittedFrom f es T.init

theorem emittedFrom_concat {α : Type*} (f : ε → σ → List α) {es : List ε} {e : ε} {s₀ s : σ}
    (h : T.runFrom es s₀ = some s) :
    T.emittedFrom f (es ++ [e]) s₀ = T.emittedFrom f es s₀ ++ f e s := by
  induction es generalizing s₀ with
  | nil =>
      obtain rfl : s₀ = s := Option.some.inj h
      cases hstep : T.step e s₀ with
      | none => simp [emittedFrom, hstep]
      | some s' => simp [emittedFrom, hstep]
  | cons d es ih =>
      obtain ⟨s₁, hs₁, hrest⟩ := Option.bind_eq_some_iff.mp h
      simp only [List.cons_append, emittedFrom, hs₁, List.append_assoc]
      rw [ih hrest]

theorem emitted_concat {α : Type*} (f : ε → σ → List α) {es : List ε} {e : ε} {s : σ}
    (h : T.run es = some s) : T.emitted f (es ++ [e]) = T.emitted f es ++ f e s :=
  T.emittedFrom_concat f h

/-- To see at most one thing of each step is to collect lists of at most one. -/
theorem observedFrom_eq_emittedFrom {α : Type*} (f : ε → σ → Option α) (es : List ε) (s : σ) :
    T.observedFrom f es s = T.emittedFrom (fun e s => (f e s).toList) es s := by
  induction es generalizing s with
  | nil => rfl
  | cons e es ih =>
      cases hstep : T.step e s with
      | none => simp [observedFrom, emittedFrom, hstep]
      | some s' => simp [observedFrom, emittedFrom, hstep, ih]

theorem observed_concat {α : Type*} (f : ε → σ → Option α) {es : List ε} {e : ε} {s : σ}
    (h : T.run es = some s) :
    T.observed f (es ++ [e]) = T.observed f es ++ (f e s).toList := by
  rw [observed, observed, observedFrom_eq_emittedFrom, observedFrom_eq_emittedFrom]
  exact T.emitted_concat _ h

theorem observedFrom_append {α : Type*} (f : ε → σ → Option α) {es fs : List ε} {s₀ s : σ}
    (h : T.runFrom es s₀ = some s) :
    T.observedFrom f (es ++ fs) s₀ = T.observedFrom f es s₀ ++ T.observedFrom f fs s := by
  induction es generalizing s₀ with
  | nil =>
      obtain rfl : s₀ = s := Option.some.inj h
      rfl
  | cons e es ih =>
      obtain ⟨s₁, hs₁, hrest⟩ := Option.bind_eq_some_iff.mp h
      simp only [List.cons_append, observedFrom, hs₁, List.append_assoc]
      rw [ih hrest]

/-- The step of which something was seen last. -/
theorem exists_last_observed {α : Type*} {f : ε → σ → Option α} {es : List ε} {s : σ} {x : α}
    (h : T.run es = some s) (hlast : (T.observed f es).getLast? = some x) :
    ∃ pre e post t, es = pre ++ e :: post ∧ T.run pre = some t ∧ f e t = some x ∧
      T.observed f es = T.observed f (pre ++ [e]) := by
  revert hlast
  refine T.run_induction (P := fun es _ => (T.observed f es).getLast? = some x →
    ∃ pre e post t, es = pre ++ e :: post ∧ T.run pre = some t ∧ f e t = some x ∧
      T.observed f es = T.observed f (pre ++ [e])) ?_ ?_ es s h
  · intro hlast
    simp [observed, observedFrom] at hlast
  · intro es e s s' hrun ih _ hlast
    rw [T.observed_concat f hrun] at hlast ⊢
    cases hseen : f e s with
    | none =>
        rw [hseen, Option.toList_none, List.append_nil] at hlast
        obtain ⟨pre, d, post, t, rfl, hpre, hd, hsame⟩ := ih hlast
        refine ⟨pre, d, post ++ [e], t, by simp, hpre, hd, ?_⟩
        rw [Option.toList_none, List.append_nil, hsame]
    | some y =>
        rw [hseen, Option.toList_some, List.getLast?_concat] at hlast
        refine ⟨es, e, [], s, rfl, hrun, hseen.trans hlast, ?_⟩
        rw [T.observed_concat f hrun, hseen]

/-! ## Seeing less of the states -/

section Map

variable {σ' ε' : Type*} {T' : System σ' ε'} {f : σ → σ'} {g : ε → ε'}

/-- A system whose steps are those of another one, seen through `f` and `g`, has its runs
as well. -/
theorem runFrom_map (hstep : ∀ e s, T'.step (g e) (f s) = (T.step e s).map f) (es : List ε)
    (s : σ) : T'.runFrom (es.map g) (f s) = (T.runFrom es s).map f := by
  induction es generalizing s with
  | nil => rfl
  | cons e es ih =>
      rw [List.map_cons, runFrom, runFrom, hstep]
      cases hs : T.step e s with
      | none => rfl
      | some t => exact ih t

theorem observedFrom_map {α β : Type*} {seen : ε → σ → Option α} {seen' : ε' → σ' → Option β}
    {h : α → β} (hstep : ∀ e s, T'.step (g e) (f s) = (T.step e s).map f)
    (hseen : ∀ e s, seen' (g e) (f s) = (seen e s).map h) (es : List ε) (s : σ) :
    T'.observedFrom seen' (es.map g) (f s) = (T.observedFrom seen es s).map h := by
  induction es generalizing s with
  | nil => rfl
  | cons e es ih =>
      rw [List.map_cons, observedFrom, observedFrom, hstep, hseen, List.map_append,
        Option.toList_map]
      cases hs : T.step e s with
      | none => rfl
      | some t =>
          simp only [Option.map_some]
          rw [ih]

end Map

/-! ## The states a run visits -/

/-- The states at the event boundaries of a run, the first one included.  The
list ends where an event cannot be taken. -/
def visitedFrom : List ε → σ → List σ
  | [], s => [s]
  | e :: es, s =>
      s :: match T.step e s with
        | some s' => visitedFrom es s'
        | none => []

/-- The states at the event boundaries of a run from the initial state. -/
def visited (es : List ε) : List σ :=
  T.visitedFrom es T.init

theorem visitedFrom_eq_cons (es : List ε) (s : σ) :
    ∃ rest, T.visitedFrom es s = s :: rest := by
  cases es with
  | nil => exact ⟨[], rfl⟩
  | cons e es => exact ⟨_, rfl⟩

theorem visitedFrom_isChain {P : σ → Prop} {R : σ → σ → Prop}
    (hstep : ∀ s e s', P s → T.step e s = some s' → P s' ∧ R s s') :
    ∀ es s, P s → (T.visitedFrom es s).IsChain R := by
  intro es
  induction es with
  | nil => intro s _; exact List.isChain_singleton s
  | cons e es ih =>
      intro s hs
      cases h : T.step e s with
      | none => simp [visitedFrom, h]
      | some s' =>
          obtain ⟨hs', hR⟩ := hstep s e s' hs h
          obtain ⟨rest, hrest⟩ := T.visitedFrom_eq_cons es s'
          have hchain := ih s' hs'
          rw [hrest] at hchain
          simp only [visitedFrom, h, hrest]
          exact List.isChain_cons_cons.mpr ⟨hR, hchain⟩

end System

/-! ## Walking a list of phases in order -/

/-- From the phase `a` of `phases` one may stay or move to the next entry. -/
def StaysOrAdvances {β : Type*} (phases : List β) (a b : β) : Prop :=
  b = a ∨ ∃ i : ℕ, phases[i]? = some a ∧ phases[i + 1]? = some b

theorem StaysOrAdvances.eq_or_eq {β : Type*} {phases : List β} (hnodup : phases.Nodup)
    {a b c : β} {i : ℕ} (ha : phases[i]? = some a) (hb : phases[i + 1]? = some b)
    (h : StaysOrAdvances phases a c) : c = a ∨ c = b := by
  rcases h with heq | ⟨j, hj, hj'⟩
  · exact Or.inl heq
  · obtain ⟨hilt, hia⟩ := List.getElem?_eq_some_iff.mp ha
    obtain ⟨hjlt, hja⟩ := List.getElem?_eq_some_iff.mp hj
    obtain rfl : i = j := (hnodup.getElem_inj_iff).mp (hia.trans hja.symm)
    exact Or.inr (Option.some.inj (hj'.symm.trans hb))

theorem drop_eq_cons_of_getElem? {β : Type*} {l : List β} {i : ℕ} {a : β}
    (h : l[i]? = some a) : l.drop i = a :: l.drop (i + 1) := by
  obtain ⟨hi, rfl⟩ := List.getElem?_eq_some_iff.mp h
  exact List.drop_eq_getElem_cons hi

theorem destutter'_isPrefix_drop {β : Type*} [DecidableEq β]
    {phases : List β} (hnodup : phases.Nodup) :
    ∀ (v : List β) (a : β) (i : ℕ), phases[i]? = some a →
      (a :: v).IsChain (StaysOrAdvances phases) →
        List.destutter' (· ≠ ·) a v <+: phases.drop i := by
  intro v
  induction v with
  | nil =>
      intro a i hi _
      rw [drop_eq_cons_of_getElem? hi]
      simp
  | cons b v ih =>
      intro a i hi hchain
      obtain ⟨hab, hrest⟩ := List.isChain_cons_cons.mp hchain
      by_cases hne : a = b
      · subst hne
        rw [List.destutter'_cons_neg _ (by simp)]
        exact ih a i hi hrest
      · rw [List.destutter'_cons_pos _ hne, drop_eq_cons_of_getElem? hi]
        rcases hab with heq | ⟨j, hj, hj'⟩
        · exact absurd heq.symm hne
        · have hij : i = j := by
            obtain ⟨hilt, hia⟩ := List.getElem?_eq_some_iff.mp hi
            obtain ⟨hjlt, hja⟩ := List.getElem?_eq_some_iff.mp hj
            exact (hnodup.getElem_inj_iff).mp (hia.trans hja.symm)
          subst hij
          exact List.cons_prefix_cons.mpr ⟨rfl, ih b (i + 1) hj' hrest⟩

/-- A walk that starts at the first phase and only stays or advances enters the
phases in their order, without skipping one and each at most once: with
repetitions removed it is an initial part of the list of phases. -/
theorem destutter_isPrefix_of_isChain {β : Type*} [DecidableEq β]
    {first : β} {others : List β} (hnodup : (first :: others).Nodup)
    {v : List β}
    (hchain : (first :: v).IsChain (StaysOrAdvances (first :: others))) :
    (first :: v).destutter (· ≠ ·) <+: first :: others := by
  have h := destutter'_isPrefix_drop hnodup v first 0 rfl hchain
  simpa [List.destutter] using h

/-! ## Interleaving -/

namespace System

variable {ι σ ε : Type*} [DecidableEq ι]

/-- Several systems side by side: an event names the component that takes it
and leaves every other component as it is. -/
def interleave (T : ι → System σ ε) : System (ι → σ) (ι × ε) where
  init i := (T i).init
  step e s := ((T e.1).step e.2 (s e.1)).map (Function.update s e.1)

theorem interleave_step_eq_some {T : ι → System σ ε} {i : ι} {e : ε}
    {s s' : ι → σ} :
    (interleave T).step (i, e) s = some s' ↔
      ∃ t, (T i).step e (s i) = some t ∧ Function.update s i t = s' := by
  simp [interleave]

/-- What every component reaches on its own is all it reaches when the
components are interleaved. -/
theorem interleave_component_reachable {T : ι → System σ ε} {s : ι → σ}
    (h : (interleave T).Reachable s) (i : ι) : (T i).Reachable (s i) := by
  revert i
  refine (interleave T).invariant
    (P := fun s => ∀ i, (T i).Reachable (s i)) ?_ ?_ s h
  · intro i
    exact Reachable.init (T i)
  · rintro s ⟨j, e⟩ s' hs hstep i
    obtain ⟨t, ht, rfl⟩ := interleave_step_eq_some.mp hstep
    by_cases hij : i = j
    · subst hij
      simpa using (hs i).step ht
    · simpa [Function.update_of_ne hij] using hs i

theorem interleave_runFrom {T : ι → System σ ε} {i : ι} {es : List ε} {s : ι → σ} {t : σ}
    (h : (T i).runFrom es (s i) = some t) :
    (interleave T).runFrom (es.map fun e => (i, e)) s = some (Function.update s i t) := by
  induction es generalizing s with
  | nil =>
      obtain rfl : s i = t := Option.some.inj h
      simp [runFrom]
  | cons e es ih =>
      obtain ⟨u, hu, hrest⟩ := Option.bind_eq_some_iff.mp h
      have hstep : (interleave T).step (i, e) s = some (Function.update s i u) :=
        interleave_step_eq_some.mpr ⟨u, hu, rfl⟩
      rw [List.map_cons, runFrom, hstep, Option.bind_some]
      have hnext := ih (s := Function.update s i u) (by simpa using hrest)
      rw [hnext, Function.update_idem]

/-- Whatever finitely many components reach on their own they reach together
when they are interleaved. -/
theorem interleave_reachable_iff [Fintype ι] {T : ι → System σ ε} {s : ι → σ} :
    (interleave T).Reachable s ↔ ∀ i, (T i).Reachable (s i) := by
  constructor
  · exact interleave_component_reachable
  · intro h
    have hpart : ∀ S : Finset ι, (interleave T).Reachable
        fun i => if i ∈ S then s i else (T i).init := by
      intro S
      induction S using Finset.induction_on with
      | empty => exact Reachable.init (interleave T)
      | insert i S hi ih =>
          obtain ⟨es, hes⟩ := h i
          have hcomponent : (T i).runFrom es (if i ∈ S then s i else (T i).init) =
              some (s i) := by
            rw [if_neg hi]
            exact hes
          have hrun := interleave_runFrom (s := fun j => if j ∈ S then s j else (T j).init)
            hcomponent
          have hsame : Function.update (fun j => if j ∈ S then s j else (T j).init) i (s i) =
              fun j => if j ∈ insert i S then s j else (T j).init := by
            funext j
            by_cases hj : j = i
            · subst hj
              simp
            · simp [hj]
          rw [← hsame]
          exact ih.runFrom hrun
    have hall := hpart Finset.univ
    simpa using hall

end System

end EvhtpHttp.Support

import Mathlib.Data.Int.Basic

/-!
# libevent events

The part of libevent that the client relies on.  Every event the client makes
is non-persistent and carries no descriptor, so what matters about one is
whether it is pending, which here covers a timer that has not expired, a timer
that has expired and an event made active by hand.  A pending event may be
delivered at any moment; delivery and `event_del` end the pending state, and
adding an event again while it is pending leaves one delivery to come.

An event pointer is `none` when `event_new` failed.  The operations of libevent
dereference the pointer, so on `none` the process dies and the result is
`none`.
-/

namespace EvhtpHttp.Client

/-- `struct event`. -/
structure Event where
  pending : Bool
deriving Repr, DecidableEq

/-- `struct event *`. -/
abbrev EventPtr := Option Event

/-- A new event is not pending; `ok` is the outcome of its allocation. -/
def eventNew (ok : Bool) : EventPtr :=
  if ok then some ⟨false⟩ else none

/-- `event_add`, `evtimer_add`: the event as it is afterwards. -/
def eventAdd : EventPtr → Option EventPtr
  | none => none
  | some _ => some (some ⟨true⟩)

def eventActive : EventPtr → Option EventPtr
  | none => none
  | some _ => some (some ⟨true⟩)

/-- `event_del`, `evtimer_del`. -/
def eventDel : EventPtr → Option EventPtr
  | none => none
  | some _ => some (some ⟨false⟩)

/-- `event_free` deletes the event before it releases the memory. -/
def eventFree (ev : EventPtr) : Option EventPtr :=
  eventDel ev

/-- Is the event of this pointer pending? -/
def isPending : EventPtr → Bool
  | none => false
  | some ev => ev.pending

@[simp] theorem isPending_none : isPending none = false := rfl

@[simp] theorem isPending_some (ev : Event) : isPending (some ev) = ev.pending := rfl

theorem eventAdd_eq_some {ev ev' : EventPtr} :
    eventAdd ev = some ev' ↔ ev ≠ none ∧ ev' = some ⟨true⟩ := by
  cases ev with
  | none => simp [eventAdd]
  | some ev => simp [eventAdd, eq_comm]

theorem eventActive_eq_some {ev ev' : EventPtr} :
    eventActive ev = some ev' ↔ ev ≠ none ∧ ev' = some ⟨true⟩ := by
  cases ev with
  | none => simp [eventActive]
  | some ev => simp [eventActive, eq_comm]

theorem eventDel_eq_some {ev ev' : EventPtr} :
    eventDel ev = some ev' ↔ ev ≠ none ∧ ev' = some ⟨false⟩ := by
  cases ev with
  | none => simp [eventDel]
  | some ev => simp [eventDel, eq_comm]

theorem eventFree_eq_some {ev ev' : EventPtr} :
    eventFree ev = some ev' ↔ ev ≠ none ∧ ev' = some ⟨false⟩ :=
  eventDel_eq_some

/-- An event that is about to be delivered is no longer pending. -/
def delivered : EventPtr → EventPtr
  | none => none
  | some _ => some ⟨false⟩

@[simp] theorem isPending_delivered (ev : EventPtr) :
    isPending (delivered ev) = false := by
  cases ev <;> rfl

end EvhtpHttp.Client

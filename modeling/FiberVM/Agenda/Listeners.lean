import FiberVM.Agenda.Continuation

/-!
# Listeners

Continuations that wait for events, in the order in which they came, with the events that were
posted and not yet handed out. An event wakes only continuations that were armed before the tick in
which it is handed out, so one that is registered while events are handed out does not see them.
-/

namespace FiberVM

/-- A continuation that waits for an event. -/
structure Listener where
  /-- The event that it waits for. -/
  discriminator : String
  /-- The continuation. -/
  id : ContinuationId
  /-- The latest tick when it was armed. -/
  armed : Nat
  deriving DecidableEq, Repr

/-- Continuations that wait for events. -/
structure Listeners where
  /-- Those that wait, in the order in which they came. -/
  waiting : List Listener := []
  /-- The events to hand out, in the order in which they were posted. -/
  events : List String := []
  /-- The tick in which events were last handed out. -/
  tick : Nat := 0
  deriving DecidableEq, Repr, Inhabited

namespace Listeners

/-- Puts a continuation behind the others. -/
def insert (l : Listeners) (discriminator : String) (id : ContinuationId) : Listeners :=
  { l with waiting := l.waiting ++ [⟨discriminator, id, l.tick⟩] }

/-- Takes a continuation out. -/
def remove (l : Listeners) (id : ContinuationId) : Listeners :=
  { l with waiting := l.waiting.filter (·.id ≠ id) }

/-- Posts an event. -/
def post (l : Listeners) (event : String) : Listeners := { l with events := l.events ++ [event] }

/-- Whether an event wakes a listener in a tick. -/
def Matches (tick : Nat) (event : String) (x : Listener) : Bool :=
  x.armed < tick && x.discriminator = event

/-- Hands out events one after the other: the continuations that each of them wakes, and those that
go on waiting. -/
def dispatch (tick : Nat) : List String → List Listener → List ContinuationId × List Listener
  | [], waiting => ([], waiting)
  | event :: events, waiting =>
    let woken := (waiting.filter (Matches tick event)).map (·.id)
    let (later, waiting) := dispatch tick events (waiting.filter (!Matches tick event ·))
    (woken ++ later, waiting)

/-- Hands out all posted events in a tick. -/
def takeReady (l : Listeners) (tick : Nat) : List ContinuationId × Listeners :=
  let (ready, waiting) := dispatch tick l.events l.waiting
  (ready, ⟨waiting, [], tick⟩)

end Listeners

end FiberVM

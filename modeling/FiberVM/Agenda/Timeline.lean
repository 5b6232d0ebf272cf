import FiberVM.Agenda.Continuation
import FiberVM.Data.Partition

/-!
# Timelines

Continuations in the order of their expiry. Those with equal expiries keep the order in which they
came.
-/

namespace FiberVM

/-- Continuations that wait for points in time. -/
structure Timeline where
  /-- The expiries with their continuations, the earliest first. -/
  queue : List (Binary64 × ContinuationId) := []
  deriving DecidableEq, Repr, Inhabited

namespace Timeline

/-- The number of continuations that expire no later than a point in time. -/
def reached (t : Timeline) (time : Binary64) : Nat := partitionPoint (·.1.le time) t.queue

/-- Puts a continuation behind those that expire no later. -/
def insert (t : Timeline) (expiry : Binary64) (id : ContinuationId) : Timeline :=
  ⟨t.queue.take (t.reached expiry) ++ (expiry, id) :: t.queue.drop (t.reached expiry)⟩

/-- Takes a continuation out. -/
def remove (t : Timeline) (id : ContinuationId) : Timeline := ⟨t.queue.filter (·.2 ≠ id)⟩

/-- Takes out the continuations that have expired, the earliest first. -/
def takeReady (t : Timeline) (now : Binary64) : List ContinuationId × Timeline :=
  ((t.queue.take (t.reached now)).map (·.2), ⟨t.queue.drop (t.reached now)⟩)

/-- The earliest expiry. -/
def next? (t : Timeline) : Option Binary64 := t.queue.head?.map (·.1)

end Timeline

end FiberVM

import FiberVM.Fault

/-!
# Continuations

A continuation is a place where a fiber goes on once something happens: a point in time is reached,
or an event is posted. One that was registered while another one ran is a child of that other one.
-/

namespace FiberVM

/-- The identity of a continuation. -/
structure ContinuationId where
  /-- The number issued when the continuation was registered. -/
  id : Nat
  deriving DecidableEq, Repr, Inhabited

/-- What wakes a continuation. -/
inductive Wake where
  /-- The clock reaches a time. -/
  | at (expiry : Binary64)
  /-- An event with this discriminator is posted to the list of the continuation. -/
  | on (discriminator : String)
  deriving DecidableEq, Repr

/-- A place where a fiber goes on. -/
structure Continuation where
  /-- The fiber. -/
  fiber : FiberId
  /-- A strong reference to the cell of the fiber. -/
  cell : Ref
  /-- The continuation that ran when this one was registered. -/
  parent : Option ContinuationId
  /-- The continuations that were registered while this one ran. -/
  children : List ContinuationId
  /-- The address where the fiber goes on. -/
  pc : Nat
  /-- What it waits for. -/
  wake : Wake
  /-- How many times it is armed again: `0` not at all, a negative number for ever. -/
  recurrence : Int64
  /-- What is added to the expiry when it is armed again. -/
  delta : Binary64
  /-- The name of the list where it waits. -/
  list : String
  deriving DecidableEq, Repr

/-- Why the agenda refuses something. -/
inductive AgendaError where
  /-- The fiber does not exist. -/
  | unknownFiber
  /-- There is no list of the name. -/
  | unknownList (name : String)
  /-- The continuation has fired for the last time or was cancelled. -/
  | unknownContinuation
  /-- The list of the name does not take events. -/
  | eventsUnsupported (name : String)
  deriving DecidableEq, Repr

namespace AgendaError

/-- The short name of an error. -/
def kind : AgendaError → String
  | unknownFiber => "unknown_fiber"
  | unknownList _ => "unknown_list"
  | unknownContinuation => "unknown_continuation"
  | eventsUnsupported _ => "events_unsupported"

/-- The description of an error; a fiber itself has no written form. -/
def message : AgendaError → String
  | unknownFiber => "unknown fiber <fiber>"
  | unknownList name => s!"unknown continuation list {name}"
  | unknownContinuation => "unknown continuation"
  | eventsUnsupported name => s!"continuation list {name} does not accept events"

/-- The fault of a fiber that met the error. -/
def toFault : AgendaError → Fault
  | unknownList name => .unknownList name
  | eventsUnsupported name => .unknownList name
  | unknownFiber => .fiberDestroyed
  | unknownContinuation => .fiberDestroyed

end AgendaError

end FiberVM

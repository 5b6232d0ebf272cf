import FiberVM.Engine.Session

/-!
# The host's interface

What a host can ask of an engine. Launching, advancing the clock and resuming run fibers, so they
start a session; the rest is done at once.
-/

namespace FiberVM.Engine

/-- Launches a machine. The engine keeps the fiber until it fails, and the first one is the main
fiber. -/
def launch (e : Engine) (name : String) : Progress :=
  match spawn name [] e with
  | .error err e => .done e (.launched (.error err))
  | .ok s e => Session.start s.fiber 0 s.entry (.launch s.fiber s.cell) e

/-- Advances the clock and runs what is due. -/
def update (e : Engine) (dt : Binary64) : Progress :=
  let now := e.now.add dt
  let (ready, agenda) := e.agenda.takeReady now
  .running (.fire ready { e with now, agenda })

/-- Resumes a suspended fiber. -/
def resume (e : Engine) (fiber : FiberId) : Progress :=
  match e.fiber? fiber with
  | none => .done e (.resumed (.error (.agenda .unknownFiber)))
  | some f =>
    match f.suspended with
    | none => .done e (.resumed (.error (.fault .notSuspended)))
    | some pc => Session.start fiber 0 pc .resume (e.setFiber fiber { f with suspended := none })

/-- Posts an event to a list. -/
def post (e : Engine) (list event : String) : Except AgendaError Unit × Engine :=
  match e.agenda.post list event with
  | .ok agenda => (.ok (), { e with agenda })
  | .error err => (.error err, e)

/-- Takes a strong reference to the cell of a fiber. -/
def retainFiber (e : Engine) (fiber : FiberId) : Option (Ref × Engine) := do
  let f ← e.fiber? fiber
  let cell ← f.cell
  let heap ← e.heap.retain? cell
  return (cell, { e with heap })

/-- Registers a continuation that waits for a condition. -/
def register (e : Engine) (parent : Option ContinuationId) (fiber : FiberId)
    (condition : Condition) (pc : Nat) : Except AgendaError ContinuationId × Engine :=
  match e.retainFiber fiber with
  | none => (.error .unknownFiber, e)
  | some (cell, e) =>
    match e.agenda.register parent fiber cell condition pc e.now with
    | .ok (id, agenda) => (.ok id, { e with agenda })
    | .error err => (.error err, e.release cell)

/-- Registers a continuation that waits for a point in time. -/
def registerAt (e : Engine) (parent : Option ContinuationId) (fiber : FiberId)
    (expiry : Binary64) (pc : Nat) (recurrence : Int64) (delta : Binary64) :
    Except AgendaError ContinuationId × Engine :=
  match e.retainFiber fiber with
  | none => (.error .unknownFiber, e)
  | some (cell, e) =>
    let (id, agenda) := e.agenda.registerAt parent fiber cell expiry pc recurrence delta
    (.ok id, { e with agenda })

/-- Cancels a continuation and what is registered beneath it. -/
def cancel (e : Engine) (id : ContinuationId) : Except AgendaError Unit × Engine :=
  match e.agenda.get? id with
  | none => (.error .unknownContinuation, e)
  | some _ =>
    let (cells, agenda) := e.agenda.cancel id
    (.ok (), ({ e with agenda }.releaseAll cells).reap)

/-- Sets a global variable, which is declared if it does not exist. -/
def declareGlobal (name : String) (v : Value) : HeapM Unit := do
  match (← get).lookup? .global (.name name) with
  | some r => Heap.store r v
  | none =>
    let _ ← Heap.declare .global name v
    return

/-- Hands over the recorded faults. -/
def takeFaults (e : Engine) : Array ExecutionError × Engine := (e.faults, { e with faults := #[] })

/-- Adds a native function that belongs to no library. -/
def addFunction (e : Engine) (f : Native) : Engine := { e with catalog := e.catalog.addFunction f }

/-- Adds a library of native functions. -/
def addLibrary (e : Engine) (l : Library) : Engine := { e with catalog := e.catalog.addLibrary l }

/-- Prints a line. -/
def print (e : Engine) (line : String) : Engine := { e with output := line :: e.output }

end FiberVM.Engine

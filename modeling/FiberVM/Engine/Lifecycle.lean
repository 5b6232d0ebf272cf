import FiberVM.Engine.State

/-!
# How fibers begin and end

A machine is loaded when its name is first used: its image is checked and its shared variables are
declared. A fiber gets a cell of its own and its variables; it exists as long as that cell does, or
until it fails. Ending a fiber cancels what it waits for and gives up everything that it holds.
-/

namespace FiberVM.Engine

/-- An operation on an engine that may be refused; what it did before stays done. -/
abbrev RequestM := EStateM EngineError Engine

/-- Runs an operation that may fail with a fault. -/
def RequestM.ofFault {α : Type} (m : EngineM α) : RequestM α := fun e =>
  match m e with
  | .ok a e => .ok a e
  | .error fault e => .error (.fault fault) e

/-- Runs an operation on the heap. -/
def RequestM.onHeap {α : Type} (m : HeapM α) : RequestM α := .ofFault (EngineM.onHeap m)

/-- The name and the type of a variable of an image. -/
def describe (image : Image) (v : Variable) : RequestM (String × VariableType) :=
  match image.describe v with
  | .ok d => return d
  | .error d => throw (.image d)

/-- Declares shared variables and takes weak references to them. If one cannot be declared, all are
given up again. -/
def declareShared (name : String) (image : Image) (declared : List Ref) :
    List Variable → RequestM (List Ref)
  | [], e => .ok declared e
  | v :: rest, e =>
    let declareOne : RequestM Ref := do
      let (variableName, type) ← describe image v
      let r ← RequestM.onHeap (Heap.declare (.machine name) variableName type.initial)
      RequestM.onHeap (Heap.downgrade r)
      return r
    match declareOne e with
    | .ok r e => declareShared name image (declared ++ [r]) rest e
    | .error err e =>
      let heap := declared.foldl Heap.releaseWeak e.heap
      .error err { e with heap := heap.releaseOwner (.machine name) }

/-- The machine of a name, loaded if it was not yet. -/
def load (name : String) : RequestM Machine := do
  match (← get).machines.find? name with
  | some m => return m
  | none =>
    match (← get).source name with
    | none => throw (.fault (.unknownMachine name))
    | some image =>
      match image.defect? with
      | some d => throw (.image d)
      | none =>
        let shared ← declareShared name image [] image.shared
        let m : Machine := ⟨name, image, shared⟩
        modify fun e => { e with machines := e.machines.insert name m }
        return m

/-- Ends a fiber: cancels what it waits for and gives up what it holds. -/
def teardown (e : Engine) (id : FiberId) : Engine :=
  match e.fiber? id with
  | none => e
  | some f =>
    let (cells, agenda) := e.agenda.cancelFiber id
    let heap := e.heap.releaseAll cells
    let heap := heap.releaseAll (f.stack.reverse.filterMap (·))
    let heap := heap.releaseAll f.receivers.reverse
    let heap := heap.releaseAll f.arguments
    let heap := (f.cache.values.filterMap Target.ref?).foldl Heap.releaseWeak heap
    let heap := heap.releaseOwner (.fiber id)
    let heap := match e.roots.find? id with
      | some root => heap.release root
      | none => heap
    { e with
      fibers := e.fibers.erase id.id
      agenda
      heap
      roots := e.roots.erase id
      main := if e.main = some id then none else e.main }

/-- Ends the orphans that still exist. -/
def reapOrphans (e : Engine) : Engine :=
  let (orphans, heap) := e.heap.takeOrphans
  orphans.foldl teardown { e with heap }

/-- Ends orphans, and those that become orphans by it, for so many rounds at most. -/
def reapRounds : Nat → Engine → Engine
  | 0, e => e
  | n + 1, e => if e.heap.orphans = [] then e else reapRounds n e.reapOrphans

/-- Ends the fibers whose cell is gone. Each round but the last ends a fiber, so the number of
fibers bounds the rounds. -/
def reap (e : Engine) : Engine := reapRounds (e.fibers.size + 1) e

/-- Records a fault and ends its fiber. -/
def recordFault (e : Engine) (id : FiberId) (pc : Nat) (fault : Fault) : ExecutionError × Engine :=
  let machine := ((e.fiber? id).map (·.machine)).getD ""
  let err : ExecutionError := ⟨machine, id, pc, fault⟩
  (err, { e with faults := e.faults.push err }.teardown id)

/-- Declares the variables of a fiber. -/
def declareLocals (id : FiberId) (image : Image) : List Variable → RequestM Unit
  | [] => return
  | v :: rest => do
    let (variableName, type) ← describe image v
    let _ ← RequestM.onHeap (Heap.declare (.fiber id) variableName type.initial)
    declareLocals id image rest

/-- Gives a fiber its own cell and its variables; the reference to the cell is returned. -/
def materialize (id : FiberId) (image : Image) : RequestM Ref := fun e =>
  match RequestM.onHeap (Heap.alloc (.fiber id) (.instance id)) e with
  | .error err e => .error err e
  | .ok cell e =>
    let e := match e.fiber? id with
      | some f => e.setFiber id { f with cell := some cell }
      | none => e
    match declareLocals id image image.locals e with
    | .ok _ e => .ok cell e
    | .error err e => .error err (e.release cell)

/-- A fiber that is ready to run. -/
structure Spawned where
  /-- The fiber. -/
  fiber : FiberId
  /-- A strong reference to its cell. -/
  cell : Ref
  /-- The address where it starts. -/
  entry : Nat
  deriving DecidableEq, Repr

/-- Makes a fiber of a machine. The arguments are strong references that the fiber takes over, or
that are given up if it cannot be made. -/
def spawn (name : String) (arguments : List Ref) : RequestM Spawned := fun e =>
  match load name e with
  | .error err e => .error err (e.releaseAll arguments)
  | .ok m e =>
    let id : FiberId := ⟨e.fibers.next⟩
    let f : Fiber := { machine := m.name, image := m.image, arguments }
    let e := { e with fibers := e.fibers.insert f }
    match materialize id m.image e with
    | .error err e => .error err (e.teardown id)
    | .ok cell e =>
      match m.image.entry? with
      | none => .error (.fault .unknownState) ((e.teardown id).release cell)
      | some entry => .ok ⟨id, cell, entry⟩ e

end FiberVM.Engine

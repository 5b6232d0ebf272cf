import FiberVM.Agenda.Basic
import FiberVM.Heap.Directory
import FiberVM.Image.Soundness
import FiberVM.Native.Catalog

/-!
# The state of an engine

An engine loads machines by name, runs fibers of them, and keeps what they share: the heap with all
variables, the catalog of native functions, the agenda, the clock, the faults and the printed lines.
-/

namespace FiberVM

/-- The settings of an engine. -/
structure Config where
  /-- The largest number of heap cells in use, if there is a limit. -/
  heapCapacity : Option Nat := none
  /-- How deep loops and launches may be nested. -/
  maxDepth : Nat := 64
  /-- How many instructions one run may execute, if there is a limit. -/
  stepBudget : Option Nat := none
  /-- The names of the lists that hand out events. -/
  eventLists : List String := ["pointer"]
  deriving DecidableEq, Repr, Inhabited

/-- What a name denotes. The reference in it is strong while the target is in use, and weak while it
is kept for later calls. -/
inductive Target where
  /-- A variable or a fiber. -/
  | value (cell : Ref)
  /-- A native function, perhaps with the cell that it is called on. -/
  | function (f : Native) (receiver : Option Ref)
  /-- A library. -/
  | library (name : String)
  deriving DecidableEq, Repr

/-- The reference of a target. -/
def Target.ref? : Target → Option Ref
  | value cell => some cell
  | function _ receiver => receiver
  | library _ => none

/-- A running instance of a machine. -/
structure Fiber where
  /-- The name under which the machine was loaded. -/
  machine : String
  /-- The image of the machine. -/
  image : Image
  /-- The fiber's own cell. -/
  cell : Option Ref := none
  /-- The index of the state entered last. -/
  state : Nat := 0
  /-- The operands, the top first; `none` marks the start of an argument list. -/
  stack : List (Option Ref) := []
  /-- The receivers of dynamic calls, the latest first. -/
  receivers : List Ref := []
  /-- The arguments given at the launch. -/
  arguments : List Ref := []
  /-- What the names at call sites denote, by the index of the name. -/
  cache : Table Nat Target := .empty
  /-- Where the host resumes the fiber, if it is suspended. -/
  suspended : Option Nat := none
  deriving DecidableEq, Repr

/-- A machine that was loaded. -/
structure Machine where
  /-- The name under which it was loaded. -/
  name : String
  /-- Its image. -/
  image : Image
  /-- Weak references to its shared variables, in the order of declaration. -/
  shared : List Ref
  deriving DecidableEq, Repr

/-- Why the engine refuses something. -/
inductive EngineError where
  /-- A fault outside of a run. -/
  | fault (f : Fault)
  /-- An image is defective. -/
  | image (d : Defect)
  /-- The agenda refuses. -/
  | agenda (a : AgendaError)
  /-- A run has failed. -/
  | execution (e : ExecutionError)
  deriving DecidableEq, Repr

/-- The state of an engine. -/
structure Engine where
  /-- The settings. -/
  config : Config
  /-- Where images come from. -/
  source : String → Option Image
  /-- The heap. -/
  heap : Heap
  /-- The native functions. -/
  catalog : Catalog
  /-- The machines loaded so far. -/
  machines : Table String Machine := .empty
  /-- The fibers that exist. -/
  fibers : Arena Fiber := .empty
  /-- What the fibers wait for. -/
  agenda : Agenda
  /-- The fiber launched first by the host. -/
  main : Option FiberId := none
  /-- The references by which the host keeps the fibers that it has launched. -/
  roots : Table FiberId Ref := .empty
  /-- The clock, in seconds. -/
  now : Binary64 := .zero
  /-- How many times a name was looked up. -/
  searches : Nat := 0
  /-- The faults recorded so far. -/
  faults : Array ExecutionError := #[]
  /-- The lines printed so far, the latest first. -/
  output : List String := []

/-- An operation on an engine that may fail with a fault; what it did before it failed stays
done. -/
abbrev EngineM := EStateM Fault Engine

namespace Engine

/-- An engine with the built-in functions and no machine loaded. -/
def create (source : String → Option Image) (config : Config) : Engine where
  config
  source
  heap := { capacity := config.heapCapacity }
  catalog := .builtins
  agenda := .ofLists config.eventLists

/-- The fiber of an identity. -/
def fiber? (e : Engine) (id : FiberId) : Option Fiber := e.fibers.get? id.id

/-- Replaces a fiber. -/
def setFiber (e : Engine) (id : FiberId) (f : Fiber) : Engine :=
  { e with fibers := e.fibers.set id.id f }

/-- Changes the heap. -/
def mapHeap (e : Engine) (f : Heap → Heap) : Engine := { e with heap := f e.heap }

/-- Gives up one strong reference, if there is one. -/
def release (e : Engine) (r : Ref) : Engine := e.mapHeap (·.release r)

/-- Gives up strong references one after the other. -/
def releaseAll (e : Engine) (rs : List Ref) : Engine := e.mapHeap (·.releaseAll rs)

end Engine

namespace EngineM

/-- Runs an operation on the heap. -/
def onHeap {α : Type} (m : HeapM α) : EngineM α := fun e =>
  match m e.heap with
  | .ok a heap => .ok a { e with heap }
  | .error fault heap => .error fault { e with heap }

/-- Runs an operation and then makes a change, whether it failed or not. -/
def ensure {α : Type} (m : EngineM α) (f : Engine → Engine) : EngineM α := fun e =>
  match m e with
  | .ok a e => .ok a (f e)
  | .error fault e => .error fault (f e)

/-- Runs an operation and makes a change if it failed. -/
def onFault {α : Type} (m : EngineM α) (f : Engine → Engine) : EngineM α := fun e =>
  match m e with
  | .ok a e => .ok a e
  | .error fault e => .error fault (f e)

/-- The value of an option, or a fault. -/
def orFault {α : Type} (x : Option α) (fault : Fault) : EngineM α :=
  match x with
  | some a => return a
  | none => throw fault

/-- The fiber of an identity, which must exist. -/
def fiber (id : FiberId) : EngineM Fiber := fun e =>
  match e.fiber? id with
  | some f => .ok f e
  | none => .error .fiberDestroyed e

end EngineM

end FiberVM

import FiberVM.Engine.State
import FiberVM.Text.Name

/-!
# What names denote

A qualified name is looked up one segment at a time. The first segment may be `main`, a shared
variable of the calling machine or a variable of the calling fiber; a later one is looked up in what
the segment before it denotes: the variables of a fiber, the functions of a library or the methods
of a value. In any place, globals, libraries and functions without a library come last.

A target that is found owns one strong reference to its cell, and whatever was found on the way has
been given up.
-/

namespace FiberVM

/-- Where a segment is looked up. -/
inductive Receiver where
  /-- In the variables of a fiber. -/
  | fiber (id : FiberId)
  /-- In the methods of a value, to whose cell a strong reference is held. -/
  | cell (r : Ref)
  /-- In the functions of a library. -/
  | library (name : String)
  deriving DecidableEq, Repr

namespace Lookup

/-- A variable as a target. -/
def retained (r : Ref) : EngineM (Option Target) := do
  EngineM.onHeap (Heap.retain r)
  return some (.value r)

/-- Gives up the reference of a target. -/
def discard (t : Target) (e : Engine) : Engine :=
  match t.ref? with
  | some r => e.release r
  | none => e

/-- The receiver that a target is for the next segment. Of a target's reference, only that to a
plain value is kept. -/
def receiverOf (t : Target) : EngineM (Option Receiver) := fun e =>
  match t with
  | .library name => .ok (some (.library name)) e
  | .function .. => .ok none (discard t e)
  | .value r =>
    match e.heap.get? r with
    | none => .ok none (e.release r)
    | some (.instance id) => .ok (some (.fiber id)) (e.release r)
    | some (.fiber cell) =>
      match e.heap.get? cell with
      | some (.instance id) => .ok (some (.fiber id)) (e.release r)
      | _ => .ok none (e.release r)
    | some (.library name) => .ok (some (.library name)) (e.release r)
    | some _ => .ok (some (.cell r)) e

/-- The cell of the main fiber, if it exists. -/
def mainCell? (e : Engine) : Option Ref := do
  let id ← e.main
  let f ← e.fiber? id
  f.cell

/-- Looks a segment up where only the first segment of a name is looked up. -/
def searchFirst (caller : FiberId) (segment : String) : EngineM (Option Target) := do
  let e ← get
  match if segment = "main" then mainCell? e else none with
  | some cell => retained cell
  | none =>
    let f ← EngineM.fiber caller
    match (← get).heap.lookup? (.machine f.machine) (.name segment) with
    | some r => retained r
    | none => return none

/-- Looks a segment up in a receiver. -/
def searchReceiver (receiver : Receiver) (segment : String) : EngineM (Option Target) := do
  match receiver with
  | .fiber id =>
    match (← get).heap.lookup? (.fiber id) (.name segment) with
    | some r => retained r
    | none => return none
  | .library name =>
    return ((← get).catalog.library? name).bind (·.function? segment) |>.map (.function · none)
  | .cell r =>
    let v ← EngineM.onHeap (Heap.read r)
    match (← get).catalog.method? v.kind segment with
    | some f =>
      EngineM.onHeap (Heap.retain r)
      return some (.function f (some r))
    | none => return none

/-- Looks a segment up among globals, libraries and functions without a library. -/
def searchEverywhere (segment : String) : EngineM (Option Target) := do
  match (← get).heap.lookup? .global (.name segment) with
  | some r => retained r
  | none =>
    match (← get).catalog.library? segment with
    | some _ => return some (.library segment)
    | none => return ((← get).catalog.function? segment).map (.function · none)

/-- Looks a segment up. -/
def search (caller : FiberId) (receiver : Receiver) (segment : String) (first : Bool) :
    EngineM (Option Target) := do
  match ← if first then searchFirst caller segment else pure none with
  | some t => return some t
  | none =>
    match ← searchReceiver receiver segment with
    | some t => return some t
    | none => searchEverywhere segment

/-- Gives up the reference that a receiver holds. -/
def leave (receiver : Receiver) (e : Engine) : Engine :=
  match receiver with
  | .cell r => e.release r
  | _ => e

/-- Looks a segment up in a receiver, which is given up; a segment that denotes nothing is a fault
about the whole name. -/
def find (caller : FiberId) (name : String) (receiver : Receiver) (segment : String)
    (first : Bool) : EngineM Target := do
  let found ← (search caller receiver segment first).ensure (leave receiver)
  EngineM.orFault found (.unknownIdentifier name)

/-- Follows segments from a target. -/
def follow (caller : FiberId) (name : String) : Target → List String → EngineM Target
  | t, [] => return t
  | t, segment :: rest => do
    let receiver ← EngineM.orFault (← receiverOf t) (.unknownIdentifier name)
    follow caller name (← find caller name receiver segment false) rest

/-- Looks a name up for a fiber. A receiver, if one is given, is a strong reference that is handed
over, and the first segment is looked up in it. -/
def resolve (caller : FiberId) (name : String) (receiver : Option Ref) : EngineM Target := do
  modify fun e => { e with searches := e.searches + 1 }
  match receiver, Name.segments name with
  | some r, segments => follow caller name (.value r) segments
  | none, [] => throw (.unknownIdentifier name)
  | none, segment :: rest =>
    follow caller name (← find caller name (.fiber caller) segment true) rest

/-- What a name denoted when it was last looked up, if that still exists. A target that was dropped
is forgotten. -/
def known (caller : FiberId) (index : Nat) : EngineM (Option Target) := fun e =>
  match e.fiber? caller with
  | none => .ok none e
  | some f =>
    match f.cache.find? index with
    | none => .ok none e
    | some t =>
      match t.ref? with
      | none => .ok (some t) e
      | some r =>
        match e.heap.retain? r with
        | some heap => .ok (some t) { e with heap }
        | none =>
          let e := e.setFiber caller { f with cache := f.cache.erase index }
          .ok none (e.mapHeap (·.releaseWeak r))

/-- Keeps a target for later calls, by a weak reference. -/
def remember (caller : FiberId) (index : Nat) (t : Target) : EngineM Unit := do
  match t.ref? with
  | some r => EngineM.onHeap (Heap.downgrade r)
  | none => pure ()
  let f ← EngineM.fiber caller
  modify (·.setFiber caller { f with cache := f.cache.insert index t })
  match (f.cache.find? index).bind Target.ref? with
  | some r => modify (·.mapHeap (·.releaseWeak r))
  | none => pure ()

/-- What the name with an index denotes, looked up only if it is not known yet. -/
def resolveCached (caller : FiberId) (image : Image) (index : Nat) : EngineM Target := do
  match ← known caller index with
  | some t => return t
  | none =>
    let name ← EngineM.orFault (image.string? index) .outOfBounds
    let t ← resolve caller name none
    remember caller index t
    return t

end Lookup

end FiberVM

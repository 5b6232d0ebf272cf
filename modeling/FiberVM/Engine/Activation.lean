import FiberVM.Engine.Lifecycle
import FiberVM.Engine.Lookup
import FiberVM.Engine.Operand

/-!
# Activations

An activation is one run of a fiber: from the entry of a state, from a continuation that has fired
or from where the host resumes it, until the run ends, suspends or fails. While it lasts it keeps
the fiber's cell and its local frame alive. Loops are part of it: each one that is being run
remembers the elements that are left and the frame outside of it.

Executing one instruction changes the engine and tells how the activation goes on.
-/

namespace FiberVM

/-- How a run ends. -/
inductive RunEnd where
  /-- The end of a state was reached. -/
  | stateEnd
  /-- The end of a body was reached. -/
  | bodyEnd
  /-- The fiber has suspended. -/
  | suspended
  deriving DecidableEq, Repr

/-- The elements that a loop has yet to run over. -/
inductive Generator where
  /-- Cells, with a strong reference to each. -/
  | elements (refs : List Ref)
  /-- The integers from `next` up to `limit`, without `limit`. -/
  | count (next limit : Nat)
  deriving DecidableEq, Repr

/-- The references that a generator holds. -/
def Generator.refs : Generator → List Ref
  | elements refs => refs
  | count .. => []

/-- A loop that is being run. -/
structure Loop where
  /-- The elements that are left. -/
  rest : Generator
  /-- The frame outside of the loop. -/
  outer : List Ref
  /-- The address of the body. -/
  body : Nat
  /-- The address after the body. -/
  exit : Nat
  deriving DecidableEq, Repr

/-- One run of a fiber. -/
structure Activation where
  /-- The fiber. -/
  fiber : FiberId
  /-- The name of its machine. -/
  machine : String
  /-- The image that it executes. -/
  image : Image
  /-- A strong reference to the fiber's cell. -/
  cell : Ref
  /-- The continuation that has fired, until the fiber changes its state. -/
  continuation : Option ContinuationId
  /-- The local frame: the arguments, or the element of the innermost loop. -/
  frame : List Ref
  /-- The loops that are being run, the innermost first. -/
  loops : List Loop
  /-- How deep the run itself is nested. -/
  base : Nat
  /-- How many instructions may still be executed, if there is a limit. -/
  budget : Option Nat
  /-- The address of the instruction executed last. -/
  pc : Nat
  /-- The address of the instruction to be executed next. -/
  next : Nat
  deriving DecidableEq, Repr

/-- A call of a function of the host. -/
structure HostCall where
  /-- The function. -/
  native : Native
  /-- The number that the host knows the function by. -/
  number : Nat
  /-- The fiber that calls. -/
  fiber : FiberId
  /-- A strong reference to the cell that the function is called on. -/
  receiver : Option Ref
  /-- The arguments, which own their references. -/
  args : List Value
  deriving DecidableEq, Repr

/-- How an activation goes on after an instruction. -/
inductive Control where
  /-- With the instruction that follows. -/
  | advance
  /-- At an address. -/
  | jump (address : Nat)
  /-- With the first instruction of a state, outside of all loops. -/
  | enter (address : Nat)
  /-- With the first element of a loop. -/
  | loop (elements : Generator) (exit : Nat)
  /-- At the end of a body. -/
  | endBody
  /-- Not at all. -/
  | finish (how : RunEnd)
  /-- After another fiber has run. -/
  | launch (s : Engine.Spawned)
  /-- After the host has answered a call. -/
  | await (call : HostCall)

namespace Activation

/-- How deep loops and launches are nested. -/
def depth (a : Activation) : Nat := a.base + a.loops.length

/-- Begins a run of a fiber. -/
def begin (fiber : FiberId) (continuation : Option ContinuationId) (depth start : Nat) :
    EngineM Activation := do
  let f ← EngineM.fiber fiber
  let cell ← EngineM.orFault f.cell .fiberDestroyed
  EngineM.onHeap (Heap.retain cell)
  (EngineM.onHeap (Heap.retainAll [] f.arguments)).onFault (·.release cell)
  return {
    fiber
    machine := f.machine
    image := f.image
    cell
    continuation
    frame := f.arguments
    loops := []
    base := depth
    budget := (← get).config.stepBudget
    pc := start
    next := start }

/-- Gives up what loops hold: for each of them the frame inside of it and the elements that are
left. The frame outside of all of them remains. -/
def unwindLoops : List Loop → List Ref → Engine → List Ref × Engine
  | [], frame, e => (frame, e)
  | l :: loops, frame, e =>
    unwindLoops loops l.outer ((e.releaseAll frame).releaseAll l.rest.refs)

/-- The activation outside of all loops. -/
def leaveLoops (a : Activation) (e : Engine) : Activation × Engine :=
  let (frame, e) := unwindLoops a.loops a.frame e
  ({ a with frame, loops := [] }, e)

/-- Ends an activation and gives up what it holds. -/
def finish (a : Activation) (e : Engine) : Engine :=
  let (frame, e) := unwindLoops a.loops a.frame e
  (e.releaseAll frame).release a.cell

/-- The operand word of the instruction being executed. -/
def operand (a : Activation) : EngineM Word :=
  EngineM.orFault a.image.words[a.pc + 1]? .invalidInstructionAddress

/-- The address operand of the instruction being executed. -/
def address (a : Activation) : EngineM Nat := return (← a.operand).toNat

/-- The string with an inline index. -/
def string (a : Activation) (index : Nat) : EngineM String :=
  EngineM.orFault (if index < Word.indexCount then a.image.string? index else none) .outOfBounds

/-- Enters a state that is popped: what the fiber waits for is cancelled. The address of the state
is returned. -/
def gotoState (a : Activation) : EngineM Nat := do
  let view : Value → Option (Option Nat) := fun
    | .string name => some (a.image.stateIndex? name)
    | v => some v.toIndex?
  let index ← Operand.popAs a.fiber view .unknownState
  let index ← EngineM.orFault index .unknownState
  let address ← EngineM.orFault (a.image.stateAddress? index) .unknownState
  modify fun e =>
    let (cells, agenda) := e.agenda.cancelFiber a.fiber
    { e with agenda }.releaseAll cells
  let f ← EngineM.fiber a.fiber
  modify (·.setFiber a.fiber { f with state := index, suspended := none })
  return address

/-- The elements that a value is looped over: those of an array as it is now, or the integers below
a count. -/
def generator (v : Value) : HeapM Generator := do
  match v with
  | .array elements =>
    Heap.retainAll [] elements.toList
    return .elements elements.toList
  | .int n => return .count 0 n.toInt.toNat
  | _ => throw .expectedArray

/-- Pops what is to be looped over. -/
def popGenerator (a : Activation) : EngineM Generator := do
  let r ← Operand.pop a.fiber
  let make : HeapM Generator := do generator (← Heap.read r)
  (EngineM.onHeap make).ensure (·.release r)

/-- Registers a continuation of the fiber. -/
def register (a : Activation) (condition : Condition) (pc : Nat) : EngineM Unit := do
  EngineM.onHeap (Heap.retain a.cell)
  let e ← get
  match e.agenda.register a.continuation a.fiber a.cell condition pc e.now with
  | .ok (_, agenda) => set { e with agenda }
  | .error err =>
    modify (·.release a.cell)
    throw err.toFault

/-- Pops a machine name and arguments and makes a fiber. -/
def spawn (a : Activation) : EngineM Engine.Spawned := do
  let name ← Operand.popString a.fiber
  let arguments ← Operand.popArguments a.fiber
  if (← get).config.maxDepth ≤ a.depth then
    modify (·.releaseAll arguments)
    throw .stackOverflow
  fun e =>
    match Engine.spawn name arguments e with
    | .ok s e => .ok s e
    | .error (.fault fault) e => .error fault e
    | .error _ e => .error (.invalidMachine name) e

/-- Gives up what was kept for a call, and pushes its results. -/
def finishCall (fiber : FiberId) (receiver : Option Ref) (args : List Value)
    (results : EngineM (List Value)) : EngineM Unit := do
  let results ← results.ensure fun e =>
    (e.mapHeap (·.releaseValues args)).releaseAll receiver.toList
  Operand.pushValues fiber results

/-- Carries out a built-in function under the signatures of a native function. -/
def callBuiltin (f : Native) (b : Builtin) (receiver : Option Ref) (args : List Value) :
    EngineM (List Value) := do
  let (results, line) ← EngineM.onHeap (f.runBuiltin b ⟨receiver, (← get).now⟩ args)
  modify fun e => { e with output := line.toList ++ e.output }
  return results

/-- Calls a native function with copies of the arguments, or leaves the call to the host. -/
def callNative (a : Activation) (f : Native) (receiver : Option Ref) (arguments : List Ref) :
    EngineM Control := do
  let args ← ((EngineM.onHeap (Heap.copyAll [] arguments)).ensure (·.releaseAll arguments)).onFault
    (·.releaseAll receiver.toList)
  match f.args.fault? args, f.body with
  | some fault, _ =>
    finishCall a.fiber receiver args (throw fault)
    return .advance
  | none, .host number => return .await ⟨f, number, a.fiber, receiver, args⟩
  | none, .builtin b =>
    finishCall a.fiber receiver args (callBuiltin f b receiver args)
    return .advance

/-- The elements of the argument array in a cell, each with a strong reference; the cell is given
up. -/
def takeArguments (cell : Ref) : EngineM (List Ref) := do
  match ← (EngineM.onHeap (Heap.copy cell)).ensure (·.release cell) with
  | .array arguments => return arguments.toList
  | v =>
    modify (·.mapHeap (·.releaseValue v))
    throw .expectedArray

/-- Calls a target with the argument array in a cell. A variable that is called without arguments is
pushed. -/
def invoke (a : Activation) (t : Target) (cell : Ref) : EngineM Control := do
  let arguments ← (takeArguments cell).onFault (Lookup.discard t)
  match t with
  | .value r =>
    if arguments = [] then
      Operand.push a.fiber r
      return .advance
    else
      modify fun e => (e.releaseAll arguments).release r
      throw .notAFunction
  | .library _ =>
    modify (·.releaseAll arguments)
    throw .notAFunction
  | .function f receiver => a.callNative f receiver arguments

/-- Pops the arguments and calls what the string with an inline index names. -/
def call (a : Activation) (index : Nat) : EngineM Control := do
  if Word.indexCount ≤ index then throw .outOfBounds
  let cell ← Operand.pop a.fiber
  let t ← (Lookup.resolveCached a.fiber a.image index).onFault (·.release cell)
  a.invoke t cell

/-- Pops the arguments and the latest receiver and calls what the string with an inline index names
in that receiver. -/
def callDynamic (a : Activation) (index : Nat) : EngineM Control := do
  let name ← a.string index
  let cell ← Operand.pop a.fiber
  let f ← (EngineM.fiber a.fiber)
  match f.receivers with
  | [] =>
    modify (·.release cell)
    throw .stackUnderflow
  | receiver :: rest =>
    modify (·.setFiber a.fiber { f with receivers := rest })
    let t ← (Lookup.resolve a.fiber name (some receiver)).onFault (·.release cell)
    a.invoke t cell

/-- Moves the top of the stack to the receivers. -/
def moveToReceivers (a : Activation) : EngineM Unit := do
  let r ← Operand.pop a.fiber
  let f ← EngineM.fiber a.fiber
  modify (·.setFiber a.fiber { f with receivers := r :: f.receivers })

/-- Pushes the top of the stack once more. -/
def duplicate (a : Activation) : EngineM Unit := do
  let f ← EngineM.fiber a.fiber
  match f.stack with
  | some r :: _ => Operand.pushRetained a.fiber r
  | _ => throw .stackUnderflow

/-- Marks the fiber as suspended until the host resumes it. -/
def suspend (a : Activation) : EngineM Unit := do
  let f ← EngineM.fiber a.fiber
  modify (·.setFiber a.fiber { f with suspended := some (a.pc + 1) })

/-- Executes the instruction at `a.pc`. -/
def execute (a : Activation) (op : Opcode) (inline : Nat) : EngineM Control := do
  match op with
  | .nop => return .advance
  | .pushNil => Operand.pushValue a.fiber .nil; return .advance
  | .pushInt => Operand.pushValue a.fiber (.int (← a.operand).toInt64); return .advance
  | .pushReal => Operand.pushValue a.fiber (.real ⟨← a.operand⟩); return .advance
  | .pushString => Operand.pushValue a.fiber (.string (← a.string inline)); return .advance
  | .pop =>
    let r ← Operand.pop a.fiber
    modify (·.release r)
    return .advance
  | .dup => a.duplicate; return .advance
  | .getSelf => Operand.getVariable a.fiber (.fiber a.fiber); return .advance
  | .getShared => Operand.getVariable a.fiber (.machine a.machine); return .advance
  | .getGlobal => Operand.getVariable a.fiber .global; return .advance
  | .setSelf => Operand.setVariable a.fiber (.fiber a.fiber); return .advance
  | .setShared => Operand.setVariable a.fiber (.machine a.machine); return .advance
  | .setGlobal => Operand.setVariable a.fiber .global; return .advance
  | .getFrame =>
    Operand.pushRetained a.fiber (← EngineM.orFault a.frame[inline]? .unknownVariable)
    return .advance
  | .paramsStart => Operand.openList a.fiber; return .advance
  | .paramsEnd => Operand.closeList a.fiber; return .advance
  | .call => a.call inline
  | .dot => a.moveToReceivers; return .advance
  | .callDynamic => a.callDynamic inline
  | .ifEqual | .ifZero | .ifNonzero | .ifNegative | .ifPositive | .ifAtMostZero
  | .ifAtLeastZero =>
    -- A test that holds skips the jump after it, which has two words.
    if ← Operand.test a.fiber op then return .jump (a.pc + 3) else return .jump (a.pc + 1)
  | .add | .sub | .mul | .div | .mod => Operand.applyBinary a.fiber op; return .advance
  | .neg => Operand.applyNegation a.fiber; return .advance
  | .gotoState => return .enter (← a.gotoState)
  | .goto => return .jump (← a.address)
  | .forEach =>
    let exit ← a.address
    return .loop (← a.popGenerator) exit
  | .on =>
    let body ← a.address
    a.register (← Operand.popCondition a.fiber) body
    return .advance
  | .wait =>
    if a.loops ≠ [] then throw .suspendInLoop
    a.register (← Operand.popCondition a.fiber) (a.pc + 1)
    return .finish .suspended
  | .endState => return .finish .stateEnd
  | .endBody => return .endBody
  | .suspend =>
    if a.loops ≠ [] then throw .suspendInLoop
    a.suspend
    return .finish .suspended
  | .launch => return .launch (← a.spawn)

/-- The instruction to be executed next, charged to the budget. -/
def fetch (a : Activation) : Except Fault (Opcode × Nat × Option Nat) :=
  match a.image.words[a.next]? with
  | none => .error .invalidInstructionAddress
  | some w =>
    match w.opcode? with
    | none => .error (.invalidOpcode w.code)
    | some op =>
      match a.budget with
      | none => .ok (op, w.inline, none)
      | some 0 => .error .noBudget
      | some (n + 1) => .ok (op, w.inline, some n)

/-- Goes on with the next element of a loop, which is run by the activation outside of it, or after
the loop if there is none. -/
def iterate (a : Activation) (l : Loop) : EngineM Activation := do
  let enter (r : Ref) (rest : Generator) : EngineM Activation := do
    if (← get).config.maxDepth ≤ a.depth then
      modify fun e => (e.release r).releaseAll rest.refs
      throw .stackOverflow
    return { a with frame := [r], loops := { l with rest } :: a.loops, next := l.body }
  match l.rest with
  | .elements [] => return { a with next := l.exit }
  | .elements (r :: refs) => enter r (.elements refs)
  | .count n limit =>
    if n < limit then
      let r ← EngineM.onHeap (Heap.allocTemporary (.int (Int64.ofNat n)))
      enter r (.count (n + 1) limit)
    else return { a with next := l.exit }

end Activation

end FiberVM

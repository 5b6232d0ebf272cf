import FiberVM.Engine.State

/-!
# Operands

The operand stack of a fiber holds strong references to cells, and markers where argument lists
start. What is pushed is a cell; what is popped has to be above the latest marker.
-/

namespace FiberVM.Operand

/-- Pushes a reference, which the stack takes over. -/
def push (id : FiberId) (r : Ref) : EngineM Unit := do
  let f ← EngineM.fiber id
  modify (·.setFiber id { f with stack := some r :: f.stack })

/-- Pushes a value in a new cell. -/
def pushValue (id : FiberId) (v : Value) : EngineM Unit := do
  let r ← EngineM.onHeap (Heap.allocTemporary v)
  (push id r).onFault (·.release r)

/-- Pushes values one after the other. -/
def pushValues (id : FiberId) : List Value → EngineM Unit
  | [] => return
  | v :: rest => do
    pushValue id v
    pushValues id rest

/-- Takes a reference of one's own and pushes it. -/
def pushRetained (id : FiberId) (r : Ref) : EngineM Unit := do
  EngineM.onHeap (Heap.retain r)
  push id r

/-- Pops a reference, which the caller takes over. -/
def pop (id : FiberId) : EngineM Ref := do
  let f ← EngineM.fiber id
  match f.stack with
  | some r :: rest =>
    modify (·.setFiber id { f with stack := rest })
    return r
  | _ => throw .stackUnderflow

/-- Pops a cell and reads something off its value. -/
def popAs {α : Type} (id : FiberId) (view : Value → Option α) (fault : Fault) : EngineM α := do
  let r ← pop id
  let look : EngineM α := do
    let v ← EngineM.onHeap (Heap.read r)
    EngineM.orFault (view v) fault
  look.ensure (·.release r)

/-- Pops a number. -/
def popNumber (id : FiberId) : EngineM Binary64 := popAs id Value.toReal? .expectedNumber

/-- Pops a condition. -/
def popCondition (id : FiberId) : EngineM Condition :=
  popAs id Value.toCondition? .expectedCondition

/-- Pops a string. -/
def popString (id : FiberId) : EngineM String := popAs id Value.toString? .expectedString

/-- Pops a cell and copies its value. -/
def popValue (id : FiberId) : EngineM Value := do
  let r ← pop id
  (EngineM.onHeap (Heap.copy r)).ensure (·.release r)

/-- Pops the arguments of a launch: an array, or nil for none. -/
def popArguments (id : FiberId) : EngineM (List Ref) := do
  match ← popValue id with
  | .array elements => return elements.toList
  | .nil => return []
  | v =>
    modify (·.mapHeap (·.releaseValue v))
    throw .expectedArray

/-- Opens an argument list. -/
def openList (id : FiberId) : EngineM Unit := do
  let f ← EngineM.fiber id
  modify (·.setFiber id { f with stack := none :: f.stack })

/-- Collects what is above the latest marker into an array, in the order in which it was pushed. -/
def closeList (id : FiberId) : EngineM Unit := do
  let f ← EngineM.fiber id
  match f.stack.dropWhile Option.isSome with
  | [] => throw .stackUnderflow
  | _ :: below =>
    let params := (f.stack.takeWhile Option.isSome).filterMap (·)
    modify (·.setFiber id { f with stack := below })
    pushValue id (.array params.reverse.toArray)

/-- Pops a key and pushes the variable of an owner. -/
def getVariable (id : FiberId) (owner : Owner) : EngineM Unit := do
  let key ← popAs id Value.toKey? .unknownVariable
  let r ← EngineM.orFault ((← get).heap.lookup? owner key) .unknownVariable
  pushRetained id r

/-- Stores a copy of the value of a cell in the variable of an owner. A global that does not exist
is declared. -/
def assign (owner : Owner) (key value : Ref) : HeapM Unit := do
  let k ← Heap.read key
  match k.toKey? with
  | none => throw .unknownVariable
  | some varKey =>
    let target := (← get).lookup? owner varKey
    let copy ← Heap.copy value
    match target, owner, k with
    | some r, _, _ => Heap.store r copy
    | none, .global, .string name =>
      let _ ← Heap.declare .global name copy
      return
    | none, _, _ =>
      modify (·.releaseValue copy)
      throw .unknownVariable

/-- Pops a key and a value and stores a copy in the variable of an owner. -/
def setVariable (id : FiberId) (owner : Owner) : EngineM Unit := do
  let key ← pop id
  let value ← (pop id).onFault (·.release key)
  (EngineM.onHeap (assign owner key value)).ensure fun e => (e.release key).release value

/-- The result of an operation on two integers. -/
def intResult (op : Opcode) (a b : Int64) : Except Fault Int64 :=
  match op with
  | .add => .ok (a + b)
  | .sub => .ok (a - b)
  | .mul => .ok (a * b)
  | .div => if b = 0 then .error .divideByZero else .ok (a / b)
  | .mod => if b = 0 then .error .divideByZero else .ok (a % b)
  | op => .error (.invalidOpcode op.code)

/-- The result of an operation on two reals. -/
def realResult (op : Opcode) (a b : Binary64) : Except Fault Binary64 :=
  match op with
  | .add => .ok (a.add b)
  | .sub => .ok (a.sub b)
  | .mul => .ok (a.mul b)
  | .div => .ok (a.div b)
  | .mod => .ok (a.rem b)
  | op => .error (.invalidOpcode op.code)

/-- The result of an operation on two values: integers stay integers, strings are joined, and other
numbers are reals. -/
def binary (op : Opcode) (a b : Value) : Except Fault Value :=
  match op, a, b with
  | op, .int m, .int n => return .int (← intResult op m n)
  | .add, .string s, .string t => .ok (.string (s ++ t))
  | op, a, b =>
    match a.toReal?, b.toReal? with
    | some x, some y => return .real (← realResult op x y)
    | _, _ => .error .expectedNumber

/-- The number with the other sign. -/
def negated : Value → Except Fault Value
  | .int n => .ok (.int (-n))
  | .real x => .ok (.real x.neg)
  | _ => .error .expectedNumber

/-- Pops two values and pushes the result of an operation on them. -/
def applyBinary (id : FiberId) (op : Opcode) : EngineM Unit := do
  let b ← popValue id
  let a ← (popValue id).onFault (·.mapHeap (·.releaseValue b))
  modify (·.mapHeap fun h => (h.releaseValue a).releaseValue b)
  match binary op a b with
  | .ok v => pushValue id v
  | .error fault => throw fault

/-- Pops a number and pushes it with the other sign. -/
def applyNegation (id : FiberId) : EngineM Unit := do
  let v ← popValue id
  modify (·.mapHeap (·.releaseValue v))
  match negated v with
  | .ok v => pushValue id v
  | .error fault => throw fault

/-- Pops what a test needs and tells its outcome. -/
def test (id : FiberId) (op : Opcode) : EngineM Bool := do
  let x ← popNumber id
  match op with
  | .ifEqual => return (← popNumber id).eq x
  | .ifZero => return x.eq .zero
  | .ifNonzero => return !x.eq .zero
  | .ifNegative => return x.lt .zero
  | .ifPositive => return Binary64.zero.lt x
  | .ifAtMostZero => return x.le .zero
  | .ifAtLeastZero => return Binary64.zero.le x
  | op => throw (.invalidOpcode op.code)

end FiberVM.Operand

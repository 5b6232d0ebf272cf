import FiberVM.Heap.Render
import FiberVM.Heap.Store

/-!
# Built-in functions

What the functions do that every engine knows: printing, conditions of time and of the pointer,
arithmetic, and the methods of arrays and strings. They work on the heap, the clock and the receiver
of the call; a printed line is returned beside the results.
-/

namespace FiberVM

/-- A function that every engine knows. -/
inductive Builtin where
  /-- Prints the arguments. -/
  | print
  /-- A condition that holds once, after so many seconds. -/
  | timeAfter
  /-- A condition that holds every so many seconds. -/
  | timeEvery
  /-- A condition that holds every so many seconds, a number of times more. -/
  | timeRecur
  /-- The clock. -/
  | timeNow
  /-- A condition that holds at the next pointer event of a name. -/
  | pointerNext (event : String)
  /-- A condition that holds at every pointer event of a name. -/
  | pointerEvery
  /-- The absolute value. -/
  | abs
  /-- The least number. -/
  | min
  /-- The greatest number. -/
  | max
  /-- The greatest integer that is not above a number. -/
  | floor
  /-- The square root. -/
  | sqrt
  /-- The length of an array. -/
  | arrayLength
  /-- An element of an array. -/
  | arrayElement
  /-- Puts an element at the end of an array. -/
  | arrayPush
  /-- The length of a string. -/
  | stringLength
  deriving DecidableEq, Repr

/-- What a call sees of its surroundings. -/
structure CallContext where
  /-- The cell that the function is called on. -/
  receiver : Option Ref
  /-- The clock. -/
  now : Binary64
  deriving DecidableEq, Repr, Inhabited

namespace Builtin

/-- A number of seconds: finite and not negative. -/
def seconds (v : Value) : Except Fault Binary64 :=
  match v.toReal? with
  | none => .error .expectedNumber
  | some x => if x.isFinite && Binary64.zero.le x then .ok x else .error .unexpectedArgument

/-- A number of seconds that is not zero. -/
def interval (v : Value) : Except Fault Binary64 := do
  let x ← seconds v
  if x.le .zero then .error .unexpectedArgument else .ok x

/-- The best of some numbers: a later one takes the place of the best so far unless that is to be
kept. -/
def extreme (keep : Binary64 → Binary64 → Bool) (best : Value) :
    List Value → Except Fault Value
  | [] =>
    match best with
    | .int n => .ok (.int n)
    | v =>
      match v.toReal? with
      | some x => .ok (.real x)
      | none => .error .expectedNumber
  | candidate :: rest =>
    match best.toReal?, candidate.toReal? with
    | some a, some b => extreme keep (if keep a b then best else candidate) rest
    | _, _ => .error .expectedNumber

/-- The result of a function on numbers and texts alone. -/
def pureResult (b : Builtin) (now : Binary64) : List Value → Except Fault Value
  | args =>
    match b, args with
    | timeAfter, [v] => return .condition (.after (← seconds v))
    | timeEvery, [v] => return .condition (.every (← interval v))
    | timeRecur, [v, w] => do
      let x ← seconds v
      match w.toInt? with
      | none => .error .expectedInteger
      | some n => if n.toInt < -1 then .error .unexpectedArgument else .ok (.condition (.recur x n))
    | timeNow, [] => .ok (.real now)
    | pointerNext event, [] => .ok (.condition (.onEvent "pointer" event))
    | pointerEvery, [v] =>
      match v.toString? with
      | none => .error .expectedString
      | some event => .ok (.condition ((Condition.onEvent "pointer" event).withRecurrence (-1)))
    | abs, [.int n] => .ok (.int n.abs)
    | abs, [v] =>
      match v.toReal? with
      | none => .error .expectedNumber
      | some x => .ok (.real x.abs)
    | min, v :: rest => extreme (fun a b => a.le b) v rest
    | max, v :: rest => extreme (fun a b => b.le a) v rest
    | floor, [.int n] => .ok (.int n)
    | floor, [v] =>
      match v.toReal? with
      | none => .error .expectedNumber
      | some x =>
        match x.floorInt64? with
        | none => .error .unexpectedArgument
        | some n => .ok (.int n)
    | sqrt, [v] =>
      match v.toReal? with
      | none => .error .expectedNumber
      | some x => .ok (.real x.sqrt)
    | _, _ => .error .incorrectNumberOfArguments

/-- The cell that a method is called on. -/
def receiver (context : CallContext) : HeapM Ref :=
  match context.receiver with
  | none => throw .notAFunction
  | some r => return r

/-- The elements of the array that a method is called on. -/
def receiverElements (context : CallContext) : HeapM (Array Ref) := do
  match ← Heap.read (← receiver context) with
  | .array elements => return elements
  | _ => throw .expectedArray

/-- A count as a value. -/
def count (n : Nat) : HeapM Value :=
  if n < 0x8000000000000000 then return .int (Int64.ofNat n) else throw .outOfBounds

/-- Puts a copy of a value at the end of an array. -/
def push (context : CallContext) (v : Value) : HeapM Unit := do
  let r ← receiver context
  match ← Heap.read r with
  | .array _ =>
    let element ← Heap.allocTemporary (← Heap.copyValue v)
    match (← get).get? r with
    | some (.array elements) => modify (·.overwrite r (.array (elements.push element)))
    | _ =>
      modify (·.release element)
      throw .expectedArray
  | _ => throw .expectedArray

/-- Runs a built-in function: its results, and the line that it prints if it prints one. -/
def run (b : Builtin) (context : CallContext) (args : List Value) :
    HeapM (List Value × Option String) := do
  match b, args with
  | print, args => return ([], some (" ".intercalate (args.map (← get).render)))
  | arrayLength, [] => return ([← count (← receiverElements context).size], none)
  | arrayElement, [v] =>
    match v.toIndex? with
    | none => throw .outOfBounds
    | some index =>
      match (← receiverElements context)[index]? with
      | none => throw .outOfBounds
      | some element => return ([← Heap.copy element], none)
  | arrayPush, [v] =>
    push context v
    return ([], none)
  | stringLength, [] =>
    match ← Heap.read (← receiver context) with
    | .string s => return ([← count s.length], none)
    | _ => throw .expectedString
  | b, args =>
    match b.pureResult context.now args with
    | .ok v => return ([v], none)
    | .error fault => throw fault

end Builtin

end FiberVM

import FiberVM.Binary64.Arith

/-!
# Values and conditions

The dynamic values of the machine. Arrays and fibers refer to cells of the heap, so a value with
references owns one strong reference for each of its occurrences.
-/

namespace FiberVM

/-- The identity of a heap cell. -/
structure Ref where
  /-- The number issued when the cell was allocated. -/
  id : Nat
  deriving DecidableEq, Repr, Inhabited

/-- The identity of a fiber. -/
structure FiberId where
  /-- The number issued when the fiber was made. -/
  id : Nat
  deriving DecidableEq, Repr, Inhabited

/-- What a continuation waits for. A recurrence of `0` fires once, `n > 0` fires `n` more times and
a negative one fires for ever. -/
inductive Condition where
  /-- A delay, then intervals, in seconds. -/
  | time (delay : Binary64) (recurrence : Int64) (interval : Binary64)
  /-- An event with the given discriminator, posted to the named list. -/
  | event (list : String) (discriminator : String) (recurrence : Int64)
  deriving DecidableEq, Repr

namespace Condition

/-- Fires once, after a delay. -/
def after (delay : Binary64) : Condition := .time delay 0 .zero

/-- Fires at every interval. -/
def every (interval : Binary64) : Condition := .time interval (-1) interval

/-- Fires at an interval, once and then so many times more. -/
def recur (interval : Binary64) (repeats : Int64) : Condition := .time interval repeats interval

/-- Fires once, for an event. -/
def onEvent (list discriminator : String) : Condition := .event list discriminator 0

/-- The recurrence of a condition. -/
def recurrence : Condition → Int64
  | .time _ n _ => n
  | .event _ _ n => n

/-- The condition with another recurrence. -/
def withRecurrence (c : Condition) (n : Int64) : Condition :=
  match c with
  | .time delay _ interval => .time delay n interval
  | .event list discriminator _ => .event list discriminator n

end Condition

/-- The kind of a value, as signatures see it. -/
inductive Kind where
  | nil
  | int
  | real
  | string
  | array
  | fiber
  | library
  | condition
  deriving DecidableEq, Repr, Inhabited

namespace Kind

/-- Every kind. -/
def all : List Kind := [nil, int, real, string, array, fiber, library, condition]

/-- The written name of a kind. -/
def name : Kind → String
  | nil => "nil"
  | int => "int"
  | real => "real"
  | string => "string"
  | array => "array"
  | fiber => "fiber"
  | library => "library"
  | condition => "condition"

end Kind

/-- A value of the machine. -/
inductive Value where
  /-- No value. -/
  | nil
  /-- A 64-bit integer; its arithmetic wraps. -/
  | int (n : Int64)
  /-- A real number. -/
  | real (x : Binary64)
  /-- An immutable string. -/
  | string (s : String)
  /-- Heap cells in order. -/
  | array (elements : Array Ref)
  /-- A reference to the cell of a fiber. -/
  | fiber (cell : Ref)
  /-- What the cell of a fiber holds. -/
  | instance (id : FiberId)
  /-- A library, as a receiver of calls. -/
  | library (name : String)
  /-- A condition. -/
  | condition (c : Condition)
  deriving DecidableEq, Repr, Inhabited

namespace Value

/-- The kind of a value. -/
def kind : Value → Kind
  | nil => .nil
  | int _ => .int
  | real _ => .real
  | string _ => .string
  | array _ => .array
  | fiber _ => .fiber
  | .instance _ => .fiber
  | library _ => .library
  | condition _ => .condition

/-- A number as a real. -/
def toReal? : Value → Option Binary64
  | int n => some (.ofInt64 n)
  | real x => some x
  | _ => none

/-- A number without a fractional part as an integer. -/
def toInt? : Value → Option Int64
  | int n => some n
  | real x => x.toInt64?
  | _ => none

/-- A number as an index. -/
def toIndex? (v : Value) : Option Nat :=
  v.toInt?.bind fun n => if 0 ≤ n.toInt then some n.toInt.toNat else none

/-- The text of a string value. -/
def toString? : Value → Option String
  | string s => some s
  | _ => none

/-- The condition of a condition value. -/
def toCondition? : Value → Option Condition
  | condition c => some c
  | _ => none

/-- The cells that a value refers to, with one entry for each reference that it owns. -/
def refs : Value → List Ref
  | array elements => elements.toList
  | fiber cell => [cell]
  | _ => []

/-- Whether a value stands for itself: it neither refers to cells nor is a fiber's own. -/
def isPlain : Value → Bool
  | array _ | fiber _ | .instance _ => false
  | _ => true

end Value

end FiberVM

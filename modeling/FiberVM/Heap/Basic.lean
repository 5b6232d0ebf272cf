import FiberVM.Data.Arena
import FiberVM.Data.Table
import FiberVM.Fault

/-!
# The counted heap

Every variable, stack entry and argument is a heap cell with a strong and a weak count. A cell's
value is dropped when the strong count reaches zero, and the cell itself is freed when both counts
are zero. Dropping a value gives up the references that it owns, which may drop further values.

Variables are cells with a name and an owner, which holds one strong reference to each of them. The
heap also remembers which fibers have lost their own cell.
-/

namespace FiberVM

/-- Whose variable a cell is. -/
inductive Owner where
  /-- The engine. -/
  | global
  /-- All fibers of a machine. -/
  | machine (name : String)
  /-- One fiber. -/
  | fiber (id : FiberId)
  /-- Nobody: an unnamed cell, such as a stack entry. -/
  | temporary
  deriving DecidableEq, Repr, Inhabited

/-- A heap cell. -/
structure Cell where
  /-- The value, until the last strong reference is given up. -/
  value : Option Value
  /-- The owner for whom the cell was allocated. -/
  owner : Owner
  /-- The number of strong references. -/
  strong : Nat
  /-- The number of weak references. -/
  weak : Nat
  deriving DecidableEq, Repr, Inhabited

/-- The counted heap. -/
structure Heap where
  /-- The cells in use. -/
  cells : Arena Cell := .empty
  /-- The largest number of cells in use, if there is a limit. -/
  capacity : Option Nat := none
  /-- The variables of each owner, in the order of declaration. -/
  directory : Table Owner (List (String × Ref)) := .empty
  /-- The fibers whose own cell was dropped, in that order. -/
  orphans : List FiberId := []
  deriving Inhabited

/-- An operation on the heap that may fail; what it did before it failed stays done. -/
abbrev HeapM := EStateM Fault Heap

namespace Heap

/-- The number of cells in use, those included that have lost their value and are still weakly
referenced. -/
def size (h : Heap) : Nat := h.cells.size

/-- The cell of a reference. -/
def cell? (h : Heap) (r : Ref) : Option Cell := h.cells.get? r.id

/-- The value of a reference. -/
def get? (h : Heap) (r : Ref) : Option Value := (h.cell? r).bind (·.value)

/-- The strong and the weak count of a cell. -/
def counts? (h : Heap) (r : Ref) : Option (Nat × Nat) := (h.cell? r).map fun c => (c.strong, c.weak)

/-- The owner for whom a cell was allocated. -/
def owner? (h : Heap) (r : Ref) : Option Owner := (h.cell? r).map (·.owner)

/-- Replaces a cell. -/
def setCell (h : Heap) (r : Ref) (c : Cell) : Heap := { h with cells := h.cells.set r.id c }

/-- Frees a cell. -/
def free (h : Heap) (r : Ref) : Heap := { h with cells := h.cells.erase r.id }

/-- Whether no further cell may be allocated. -/
def isFull (h : Heap) : Bool := h.capacity.any (· ≤ h.size)

/-- Takes one more strong reference; the cell must have its value. -/
def retain? (h : Heap) (r : Ref) : Option Heap :=
  match h.cell? r with
  | some c => if c.value.isSome then some (h.setCell r { c with strong := c.strong + 1 }) else none
  | none => none

/-- Takes one more weak reference. -/
def retainWeak? (h : Heap) (r : Ref) : Option Heap :=
  (h.cell? r).map fun c => h.setCell r { c with weak := c.weak + 1 }

/-- Gives up one weak reference. -/
def releaseWeak? (h : Heap) (r : Ref) : Option Heap :=
  match h.cell? r with
  | none => none
  | some c =>
    if c.weak = 0 then none
    else if c.weak = 1 ∧ c.strong = 0 then some (h.free r)
    else some (h.setCell r { c with weak := c.weak - 1 })

/-- Gives up one weak reference, if there is one. -/
def releaseWeak (h : Heap) (r : Ref) : Heap := (h.releaseWeak? r).getD h

/-- Gives up one strong reference, without dropping further values: with the last reference goes the
value, which is returned. -/
def decrement? (h : Heap) (r : Ref) : Option (Option Value × Heap) :=
  match h.cell? r with
  | none => none
  | some c =>
    if c.strong = 0 then none
    else if 1 < c.strong then some (none, h.setCell r { c with strong := c.strong - 1 })
    else if c.weak = 0 then some (c.value, h.free r)
    else some (c.value, h.setCell r { c with value := none, strong := 0 })

end Heap

end FiberVM

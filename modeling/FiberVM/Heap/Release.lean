import FiberVM.Heap.Basic

/-!
# Giving up references

A dropped value gives up the references that it owns, and this may drop the values of further cells.
The dropped values wait in a list, the latest first, so that deep nesting needs no deep recursion. A
fiber whose own cell is dropped becomes an orphan.
-/

namespace FiberVM.Heap

/-- Gives up references one after the other. The values that are dropped by it are put in front of
those that wait already. A reference that was given up before is passed over. -/
def decrementAll : List Ref → List Value → Heap → List Value × Heap
  | [], pending, h => (pending, h)
  | r :: rest, pending, h =>
    match h.decrement? r with
    | some (some v, h) => decrementAll rest (v :: pending) h
    | some (none, h) => decrementAll rest pending h
    | none => decrementAll rest pending h

/-- Gives up what the waiting values own, for so many values at most. -/
def settle : Nat → List Value → Heap → Heap
  | _, [], h => h
  | 0, _ :: _, h => h
  | n + 1, .instance f :: pending, h => settle n pending { h with orphans := h.orphans ++ [f] }
  | n + 1, v :: pending, h =>
    let (pending, h) := decrementAll v.refs pending h
    settle n pending h

/-- Gives up what a value owns. Every value that is dropped by it was the value of a cell, so the
number of cells bounds the work. -/
def releaseValue (h : Heap) (v : Value) : Heap := settle (h.size + 1) [v] h

/-- Gives up what the values own, one after the other. -/
def releaseValues (h : Heap) (vs : List Value) : Heap := vs.foldl releaseValue h

/-- Gives up one strong reference; the cell must have one. -/
def release? (h : Heap) (r : Ref) : Option Heap :=
  match h.decrement? r with
  | none => none
  | some (none, h) => some h
  | some (some v, h) => some (h.releaseValue v)

/-- Gives up one strong reference, if there is one. -/
def release (h : Heap) (r : Ref) : Heap := (h.release? r).getD h

/-- Gives up strong references one after the other. -/
def releaseAll (h : Heap) (rs : List Ref) : Heap := rs.foldl release h

/-- Hands over the orphans, in the order in which they became so. -/
def takeOrphans (h : Heap) : List FiberId × Heap := (h.orphans, { h with orphans := [] })

end FiberVM.Heap

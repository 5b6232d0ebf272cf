import FiberVM.Heap.Store

/-!
# Variables

The variables of an owner are numbered in the order of their declaration. They are found by number
or by name, and of several with one name the first is found.
-/

namespace FiberVM

/-- How a variable is asked for. -/
inductive Key where
  /-- By its number. -/
  | index (n : Nat)
  /-- By its name. -/
  | name (s : String)
  deriving DecidableEq, Repr

/-- The key that a value is: a string is a name and an integral number an index. -/
def Value.toKey? : Value → Option Key
  | .string s => some (.name s)
  | v => v.toIndex?.map .index

namespace Heap

/-- The variables of an owner, in the order of declaration. -/
def entries (h : Heap) (owner : Owner) : List (String × Ref) := (h.directory.find? owner).getD []

/-- The names of the variables of an owner, in the order of declaration. -/
def names (h : Heap) (owner : Owner) : List String := (h.entries owner).map (·.1)

/-- The cell of a variable. No reference is taken. -/
def lookup? (h : Heap) (owner : Owner) (key : Key) : Option Ref :=
  match key with
  | .index n => ((h.entries owner)[n]?).map (·.2)
  | .name s => ((h.entries owner).find? (·.1 = s)).map (·.2)

/-- Declares a variable after the others of its owner. -/
def declare (owner : Owner) (name : String) (v : Value) : HeapM Ref := fun h =>
  match alloc owner v h with
  | .ok r h =>
    .ok r { h with directory := h.directory.insert owner (h.entries owner ++ [(name, r)]) }
  | .error fault h => .error fault h

/-- Forgets the variables of an owner and gives up its references to them. -/
def releaseOwner (h : Heap) (owner : Owner) : Heap :=
  let refs := (h.entries owner).map (·.2)
  { h with directory := h.directory.erase owner }.releaseAll refs

end Heap

end FiberVM

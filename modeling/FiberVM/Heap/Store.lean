import FiberVM.Heap.Release

/-!
# Allocating, copying and storing values

A copy owns references of its own. Copying is all or nothing: if one of the references cannot be
taken, those taken before are given up again. The value of a fiber's own cell is never copied; its
copy is a reference to that cell.
-/

namespace FiberVM.Heap

/-- A cell with one strong reference. A full heap gives up what the value owns and fails. -/
def alloc (owner : Owner) (v : Value) : HeapM Ref := fun h =>
  if h.isFull then .error .heapExhausted (h.releaseValue v)
  else .ok ⟨h.cells.next⟩ { h with cells := h.cells.insert ⟨some v, owner, 1, 0⟩ }

/-- An unnamed cell with one strong reference. -/
def allocTemporary (v : Value) : HeapM Ref := alloc .temporary v

/-- Takes references one after the other; if one cannot be taken, gives up the ones before it. Those
taken so far are listed with the latest first. -/
def retainAll (taken : List Ref) : List Ref → HeapM Unit
  | [], h => .ok () h
  | r :: rest, h =>
    match h.retain? r with
    | some h => retainAll (r :: taken) rest h
    | none => .error .valueFreed (h.releaseAll taken.reverse)

/-- A copy of a value. -/
def copyValue (v : Value) : HeapM Value :=
  match v with
  | .instance _ => throw .expectedFiber
  | v => do
    retainAll [] v.refs
    return v

/-- A copy of the value of a cell. -/
def copy (r : Ref) : HeapM Value := fun h =>
  match h.get? r with
  | none => .error .valueFreed h
  | some (.instance _) => copyValue (.fiber r) h
  | some v => copyValue v h

/-- Copies of the values of cells, in order. If one cannot be made, the copies before it are given
up again. The copies so far are listed with the latest first. -/
def copyAll (copies : List Value) : List Ref → HeapM (List Value)
  | [], h => .ok copies.reverse h
  | r :: rest, h =>
    match copy r h with
    | .ok v h => copyAll (v :: copies) rest h
    | .error fault h => .error fault (h.releaseValues copies.reverse)

/-- Replaces the value of a cell and gives up what the former value owns; if the cell has lost its
value, gives up what the new one owns and fails. -/
def store (r : Ref) (v : Value) : HeapM Unit := fun h =>
  match h.cell? r with
  | some c =>
    match c.value with
    | some former => .ok () ((h.setCell r { c with value := some v }).releaseValue former)
    | none => .error .valueFreed (h.releaseValue v)
  | none => .error .valueFreed (h.releaseValue v)

/-- Replaces the value of a cell as it stands: no reference is taken or given up. -/
def overwrite (h : Heap) (r : Ref) (v : Value) : Heap :=
  match h.cell? r with
  | some c => if c.value.isSome then h.setCell r { c with value := some v } else h
  | none => h

/-- Takes a weak reference. -/
def downgrade (r : Ref) : HeapM Unit := fun h =>
  match h.retainWeak? r with
  | some h => .ok () h
  | none => .error .valueFreed h

/-- Takes a strong reference. -/
def retain (r : Ref) : HeapM Unit := fun h =>
  match h.retain? r with
  | some h => .ok () h
  | none => .error .valueFreed h

/-- The value of a cell. -/
def read (r : Ref) : HeapM Value := fun h =>
  match h.get? r with
  | some v => .ok v h
  | none => .error .valueFreed h

end FiberVM.Heap

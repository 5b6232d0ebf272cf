import Std.Data.TreeMap.Lemmas

/-!
# Arenas

An arena keeps values under identifiers that it hands out itself. Identifiers are issued in
increasing order and none is issued twice, so an identifier whose value was taken out stays unknown
for good: a stale identifier can never reach a later value. Only the values present take up room.

Every operation is described by what it does to `Arena.get?`.
-/

namespace FiberVM

/-- Values stored under identifiers that are handed out in increasing order and never reissued. -/
structure Arena (α : Type) where
  /-- The values present, by identifier. -/
  cells : Std.TreeMap Nat α
  /-- The identifier that the next insertion issues. -/
  next : Nat
  /-- Only identifiers that were issued have a value. -/
  lt_next : ∀ id ∈ cells, id < next

namespace Arena

variable {α : Type}

/-- The arena that has issued no identifier. -/
def empty : Arena α := ⟨∅, 0, fun _ h => absurd h Std.TreeMap.not_mem_emptyc⟩

instance : Inhabited (Arena α) := ⟨empty⟩

/-- The number of values present. -/
def size (a : Arena α) : Nat := a.cells.size

/-- The value stored under an identifier. -/
def get? (a : Arena α) (id : Nat) : Option α := a.cells[id]?

/-- Whether an identifier has a value. -/
def contains (a : Arena α) (id : Nat) : Bool := a.cells.contains id

/-- Stores a value under the next identifier. -/
def insert (a : Arena α) (x : α) : Arena α where
  cells := a.cells.insert a.next x
  next := a.next + 1
  lt_next id h := by
    rcases Std.TreeMap.mem_insert.1 h with h | h
    · have := Std.LawfulEqOrd.eq_of_compare h
      omega
    · have := a.lt_next id h
      omega

/-- Replaces the value of an identifier; an identifier without a value is left alone. -/
def set (a : Arena α) (id : Nat) (x : α) : Arena α :=
  if present : id ∈ a.cells then
    { cells := a.cells.insert id x
      next := a.next
      lt_next := fun other h => by
        rcases Std.TreeMap.mem_insert.1 h with h | h
        · exact Std.LawfulEqOrd.eq_of_compare h ▸ a.lt_next id present
        · exact a.lt_next other h }
  else a

/-- Takes out the value of an identifier. -/
def erase (a : Arena α) (id : Nat) : Arena α where
  cells := a.cells.erase id
  next := a.next
  lt_next other h := a.lt_next other (Std.TreeMap.mem_erase.1 h).2

/-- The values present with their identifiers, in the order of issue. -/
def toList (a : Arena α) : List (Nat × α) := a.cells.toList

@[simp] theorem get?_empty (id : Nat) : (empty : Arena α).get? id = none :=
  Std.TreeMap.getElem?_emptyc

/-- An insertion gives the next identifier its value and touches no other. -/
theorem get?_insert (a : Arena α) (x : α) (id : Nat) :
    (a.insert x).get? id = if id = a.next then some x else a.get? id := by
  simp only [get?, insert, Std.TreeMap.getElem?_insert, Std.LawfulEqOrd.compare_eq_iff_eq]
  by_cases h : id = a.next
  · simp [h]
  · simp [h, Ne.symm h]

@[simp] theorem next_insert (a : Arena α) (x : α) : (a.insert x).next = a.next + 1 := rfl

/-- The next identifier has no value yet, nor has any later one. -/
theorem get?_of_next_le (a : Arena α) {id : Nat} (h : a.next ≤ id) : a.get? id = none := by
  apply Std.TreeMap.getElem?_eq_none
  intro present
  have := a.lt_next id present
  omega

/-- Setting changes the value of that identifier alone, and only if it has one. -/
theorem get?_set (a : Arena α) (id : Nat) (x : α) (other : Nat) :
    (a.set id x).get? other =
      if other = id ∧ (a.get? id).isSome then some x else a.get? other := by
  unfold set
  split
  case isTrue present =>
    have held : a.cells[id]?.isSome := Std.TreeMap.mem_iff_isSome_getElem?.1 present
    simp only [get?, Std.TreeMap.getElem?_insert, Std.LawfulEqOrd.compare_eq_iff_eq, held]
    by_cases h : other = id
    · simp [h]
    · simp [h, Ne.symm h]
  case isFalse absent =>
    have : a.get? id = none := Std.TreeMap.getElem?_eq_none absent
    simp [this]

@[simp] theorem next_set (a : Arena α) (id : Nat) (x : α) : (a.set id x).next = a.next := by
  unfold set
  split <;> rfl

/-- Erasing forgets the value of that identifier alone. -/
theorem get?_erase (a : Arena α) (id other : Nat) :
    (a.erase id).get? other = if other = id then none else a.get? other := by
  simp only [get?, erase, Std.TreeMap.getElem?_erase, Std.LawfulEqOrd.compare_eq_iff_eq]
  by_cases h : other = id
  · simp [h]
  · simp [h, Ne.symm h]

@[simp] theorem next_erase (a : Arena α) (id : Nat) : (a.erase id).next = a.next := rfl

end Arena

end FiberVM

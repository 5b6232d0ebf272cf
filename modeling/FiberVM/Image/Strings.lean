import FiberVM.Instruction.Word

/-!
# String tables

The strings of an image stand in one run of bytes, each ended by a zero byte, and are named by their
index in a table of offsets. A table read from outside may hold anything, so reading a string can
fail: the offset may be past the end, the zero byte may be missing, or the bytes may not be UTF-8.

Indices and offsets are 32-bit numbers, so a table that is too large takes no further string.
-/

namespace FiberVM

/-- Strings ended by zero bytes, with the offset of each. -/
structure Strings where
  /-- The bytes of all strings. -/
  blob : Array UInt8 := #[]
  /-- Where each string starts. -/
  offsets : Array Nat := #[]
  deriving DecidableEq, Repr, Inhabited

namespace Strings

/-- The table without strings. -/
def empty : Strings := {}

/-- The number of strings. -/
def size (t : Strings) : Nat := t.offsets.size

/-- Where the first zero byte stands among so many bytes from a place on. -/
def zeroWithin? (blob : Array UInt8) (start : Nat) : Nat → Option Nat
  | 0 => none
  | n + 1 =>
    match blob[start]? with
    | none => none
    | some b => if b = 0 then some start else zeroWithin? blob (start + 1) n

/-- Where the first zero byte from a place on stands. -/
def zeroFrom? (blob : Array UInt8) (start : Nat) : Option Nat :=
  zeroWithin? blob start (blob.size - start)

/-- The bytes of a text. -/
def encode (s : String) : Array UInt8 := s.toUTF8.data

/-- The text with the given bytes, if they are UTF-8. -/
def decode? (bytes : Array UInt8) : Option String := String.fromUTF8? ⟨bytes⟩

/-- The string with an index. -/
def get? (t : Strings) (index : Nat) : Option String := do
  let start ← t.offsets[index]?
  let stop ← zeroFrom? t.blob start
  decode? (t.blob.extract start stop)

/-- The first index of a string. -/
def find? (t : Strings) (s : String) : Option Nat :=
  (List.range (min t.size Word.indexCount)).find? fun index => t.get? index = some s

/-- Whether no further string can be added, because its offset or its index would not fit. -/
def isFull (t : Strings) : Bool := Word.indexCount ≤ t.blob.size ∨ Word.indexCount ≤ t.size

/-- The index of a string, which is added at the end if the table does not have it. A string with a
zero byte cannot be added. -/
def intern? (t : Strings) (s : String) : Option (Nat × Strings) :=
  match t.find? s with
  | some index => some (index, t)
  | none =>
    if s.toList.contains (Char.ofNat 0) ∨ t.isFull then none
    else some (t.size, ⟨(t.blob ++ encode s).push 0, t.offsets.push t.blob.size⟩)

end Strings

end FiberVM

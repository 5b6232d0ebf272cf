/-!
# Binary64 numbers

The real numbers of the machine are IEEE-754 binary64 values, carried by their 64 bits. Whatever
only moves a number keeps every bit of it. A finite number is `±m · 2^q` for the significand `m` and
the scale `q` read off its bits, and comparison is comparison of words, so the order laws of non-NaN
numbers are facts about `UInt64`.
-/

namespace FiberVM

/-- An IEEE-754 binary64 value. -/
structure Binary64 where
  /-- The sign bit, the eleven exponent bits and the 52 fraction bits. -/
  bits : UInt64
  deriving DecidableEq, Repr

namespace Binary64

/-- Positive zero. -/
def zero : Binary64 := ⟨0⟩

instance : Inhabited Binary64 := ⟨zero⟩

/-- A quiet NaN. -/
def nan : Binary64 := ⟨0x7ff8000000000000⟩

/-- The place value of the sign bit. -/
def signPlace : Nat := 0x8000000000000000

/-- The place value of the lowest exponent bit. -/
def exponentPlace : Nat := 0x10000000000000

/-- Whether the sign bit is set. -/
def isNegative (x : Binary64) : Bool := 0x8000000000000000 ≤ x.bits

/-- The bits below the sign bit, as a number. It grows with the absolute value. -/
def magnitude (x : Binary64) : Nat := (x.bits % 0x8000000000000000).toNat

/-- The exponent bits. -/
def exponent (x : Binary64) : Nat := x.magnitude / exponentPlace

/-- The fraction bits. -/
def fraction (x : Binary64) : Nat := x.magnitude % exponentPlace

/-- Neither infinite nor a NaN. -/
def isFinite (x : Binary64) : Bool := x.exponent < 2047

/-- One of the two infinities. -/
def isInfinite (x : Binary64) : Bool := x.magnitude = 2047 * exponentPlace

/-- Not a number. -/
def isNaN (x : Binary64) : Bool := 2047 * exponentPlace < x.magnitude

/-- Positive or negative zero. -/
def isZero (x : Binary64) : Bool := x.magnitude = 0

/-- The integer `m` of a finite number `±m · 2^q`. -/
def significand (x : Binary64) : Nat :=
  if x.exponent = 0 then x.fraction else x.fraction + exponentPlace

/-- The power `q` of a finite number `±m · 2^q`. -/
def scale (x : Binary64) : Int := (max x.exponent 1 : Nat) - 1075

/-- The position of a number in the order of the reals. Both zeros are in the middle, at the place
value of the sign bit, and negative numbers count down from there. -/
def key (x : Binary64) : UInt64 :=
  if x.isNegative then -x.bits else 0x8000000000000000 + x.bits

/-- Equality of numbers: the zeros are equal and a NaN equals nothing. -/
def eq (x y : Binary64) : Bool := !x.isNaN && !y.isNaN && x.key = y.key

/-- The order of numbers; a NaN is below nothing. -/
def lt (x y : Binary64) : Bool := !x.isNaN && !y.isNaN && x.key < y.key

/-- The order of numbers with equality; a NaN is below nothing, itself included. -/
def le (x y : Binary64) : Bool := !x.isNaN && !y.isNaN && x.key ≤ y.key

/-- The order is reflexive on numbers. -/
theorem le_refl {x : Binary64} (h : x.isNaN = false) : x.le x = true := by
  simp [le, h]

/-- The order is transitive. -/
theorem le_trans {x y z : Binary64} (hxy : x.le y = true) (hyz : y.le z = true) :
    x.le z = true := by
  simp only [le, Bool.and_eq_true, Bool.not_eq_true', decide_eq_true_eq] at *
  exact ⟨⟨hxy.1.1, hyz.1.2⟩, UInt64.le_trans hxy.2 hyz.2⟩

/-- Any two numbers are comparable. -/
theorem le_total {x y : Binary64} (hx : x.isNaN = false) (hy : y.isNaN = false) :
    x.le y = true ∨ y.le x = true := by
  simpa [le, hx, hy] using UInt64.le_total x.key y.key

/-- The sign as a factor. -/
def sign (x : Binary64) : Int := if x.isNegative then -1 else 1

/-- The greatest integer that is not above a finite number. -/
def floor? (x : Binary64) : Option Int :=
  if x.isFinite then
    some (x.sign * (x.significand * Nat.pow 2 x.scale.toNat : Nat) / Nat.pow 2 (-x.scale).toNat)
  else none

/-- The integer that a finite number without a fractional part is. -/
def integer? (x : Binary64) : Option Int :=
  if x.isFinite && x.significand * Nat.pow 2 x.scale.toNat % Nat.pow 2 (-x.scale).toNat = 0 then
    x.floor?
  else none

end Binary64

end FiberVM

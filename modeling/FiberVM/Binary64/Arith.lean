import FiberVM.Binary64.Basic

/-!
# Arithmetic on binary64 numbers

Sums, differences, products, quotients and square roots round to nearest, ties to even. Sign
changes, absolute values and remainders are exact, so they are computed on the bits.
-/

namespace FiberVM.Binary64

/-- The value in the machine's own floating-point registers. -/
def toFloat (x : Binary64) : Float := Float.ofBits x.bits

/-- The bits of a floating-point register. -/
def ofFloat (f : Float) : Binary64 := ⟨f.toBits⟩

/-- The number nearest to a 64-bit integer. -/
def ofInt64 (n : Int64) : Binary64 := ofFloat n.toFloat

/-- The rounded sum. -/
def add (x y : Binary64) : Binary64 := ofFloat (x.toFloat + y.toFloat)

/-- The rounded difference. -/
def sub (x y : Binary64) : Binary64 := ofFloat (x.toFloat - y.toFloat)

/-- The rounded product. -/
def mul (x y : Binary64) : Binary64 := ofFloat (x.toFloat * y.toFloat)

/-- The rounded quotient; a division by zero gives an infinity or a NaN. -/
def div (x y : Binary64) : Binary64 := ofFloat (x.toFloat / y.toFloat)

/-- The rounded square root. -/
def sqrt (x : Binary64) : Binary64 := ofFloat x.toFloat.sqrt

/-- The number with the other sign. -/
def neg (x : Binary64) : Binary64 := ⟨x.bits ^^^ 0x8000000000000000⟩

/-- The number without its sign. -/
def abs (x : Binary64) : Binary64 := ⟨x.bits &&& 0x7fffffffffffffff⟩

/-- The number `±m · 2^q`, for `m` below `2^53` and `q` not below `-1074`. -/
def ofParts (negative : Bool) (m : Nat) (q : Int) : Binary64 :=
  let shift := min (52 - m.log2) (q + 1074).toNat
  let m' := m * Nat.pow 2 shift
  let magnitude :=
    if m = 0 then 0
    else if m' < exponentPlace then m'
    else (q - shift + 1074).toNat * exponentPlace + m'
  ⟨(magnitude + if negative then signPlace else 0).toUInt64⟩

/-- The exact remainder `x - n · y`, for the integer `n` nearest to `x / y` towards zero. It has the
sign of `x`. -/
def rem (x y : Binary64) : Binary64 :=
  if x.isNaN || y.isNaN || x.isInfinite || y.isZero then nan
  else if y.isInfinite then x
  else
    let q := min x.scale y.scale
    let a := x.significand * Nat.pow 2 (x.scale - q).toNat
    let b := y.significand * Nat.pow 2 (y.scale - q).toNat
    ofParts x.isNegative (a % b) q

/-- The nearest 64-bit integer of an integral number: one out of range becomes the closer bound. -/
def toInt64? (x : Binary64) : Option Int64 :=
  x.integer?.map fun n => Int64.ofInt (max (-signPlace) (min n (signPlace - 1)))

/-- The greatest 64-bit integer that is not above the number, if it is in range. -/
def floorInt64? (x : Binary64) : Option Int64 :=
  x.floor?.bind fun n => if -signPlace ≤ n ∧ n < signPlace then some (Int64.ofInt n) else none

end FiberVM.Binary64

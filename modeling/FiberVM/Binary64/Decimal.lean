import FiberVM.Binary64.Basic

/-!
# The decimal text of a binary64 number

A finite number is written with the fewest digits that read back as it, always in positional form.
The reals that round to a number form an interval; of the decimals in that interval with the fewest
digits, the one nearest to the number is taken, and of two equally near ones the larger.

All arithmetic is exact. The interval is kept as quarter units of the number's own scale, so its
ends are integers over a common denominator.
-/

namespace FiberVM.Binary64

/-- The reals that round to one positive binary64 number, as multiples of `unit / denominator`. -/
structure Interval where
  /-- The lower end. -/
  low : Nat
  /-- The number itself. -/
  mid : Nat
  /-- The upper end. -/
  high : Nat
  /-- What all three are divided by. -/
  denominator : Nat
  /-- Whether the ends belong to the interval. -/
  closed : Bool
  deriving Repr

/-- The interval of the reals that round to a finite positive number. Below a power of two the
neighbour is half as far away, and the ends round to an even significand. -/
def interval (x : Binary64) : Interval :=
  let m := x.significand
  let unit := Nat.pow 2 (x.scale - 2).toNat
  let low := if x.fraction = 0 ∧ 1 < x.exponent then 4 * m - 1 else 4 * m - 2
  { low := low * unit
    mid := 4 * m * unit
    high := (4 * m + 2) * unit
    denominator := Nat.pow 2 (2 - x.scale).toNat
    closed := m % 2 = 0 }

/-- Whether `n / d` lies in the interval. -/
def Interval.contains (i : Interval) (n d : Nat) : Bool :=
  if i.closed then i.low * d ≤ n * i.denominator ∧ n * i.denominator ≤ i.high * d
  else i.low * d < n * i.denominator ∧ n * i.denominator < i.high * d

/-- A decimal `digits · 10^exponent`. -/
structure Decimal where
  /-- The digits, read as one number. -/
  digits : Nat
  /-- The power of ten. -/
  exponent : Int
  deriving Repr, DecidableEq

/-- The decimal with the given exponent that lies in the interval nearest to its number, if one
does. Only the two neighbours of the number on the grid of that exponent can be the nearest. -/
def Interval.onGrid (i : Interval) (exponent : Int) : Option Decimal :=
  let up := Nat.pow 10 exponent.toNat
  let down := Nat.pow 10 (-exponent).toNat
  let d := i.mid * down / (i.denominator * up)
  let below := i.contains (d * up) down
  let above := i.contains ((d + 1) * up) down
  let nearerBelow := 2 * i.mid * down < (2 * d + 1) * up * i.denominator
  if below && (!above || nearerBelow) then some ⟨d, exponent⟩
  else if above then some ⟨d + 1, exponent⟩
  else none

/-- The least `k` with the interval's number below `10^k`, for a number that is at least
`10^-400`. -/
def Interval.decimalPoint (i : Interval) : Int :=
  (Nat.toDigits 10 (i.mid * Nat.pow 10 400 / i.denominator)).length - 400

/-- The decimal of the interval with the fewest digits. Seventeen digits always suffice. -/
def Interval.shortest (i : Interval) : Decimal :=
  let k := i.decimalPoint
  ((List.range 17).findSome? fun n => i.onGrid (k - (n + 1 : Nat))).getD ⟨0, 0⟩

/-- A decimal in positional form, without zeros at the end of its fraction. -/
def Decimal.positional (d : Decimal) : String :=
  let kept := ((Nat.toDigits 10 d.digits).reverse.dropWhile (· = '0')).reverse
  let exponent := d.exponent + ((Nat.toDigits 10 d.digits).length - kept.length : Nat)
  if 0 ≤ exponent then String.ofList (kept ++ List.replicate exponent.toNat '0')
  else
    let whole := kept.length + exponent
    if 0 < whole then
      String.ofList (kept.take whole.toNat ++ '.' :: kept.drop whole.toNat)
    else
      String.ofList ('0' :: '.' :: List.replicate (-whole).toNat '0' ++ kept)

/-- The text of a number without its sign. -/
def magnitudeText (x : Binary64) : String :=
  if x.isInfinite then "inf"
  else if x.isZero then "0"
  else x.interval.shortest.positional

/-- The text of a number. -/
def text (x : Binary64) : String :=
  if x.isNaN then "NaN"
  else if x.isNegative then "-" ++ x.magnitudeText
  else x.magnitudeText

end FiberVM.Binary64

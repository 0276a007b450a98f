/-!
# Shortest decimals

A finite binary number is `m · 2 ^ e`.  Every real number that lies nearer to it than to its two
neighbours reads back as it, and so does the middle between two neighbours when `m` is even.  Among
the decimals of that interval the shortest one is the one with the fewest digits, and of those with
equally many digits the nearest.

The search goes through the decimal grids from one digit to seventeen.  If a grid has a point in
the interval, then one of the two grid points around the number itself lies in the interval, so
only those two are compared, in exact arithmetic.
-/

namespace TreeQuery

/-- The decimal number `digits · 10 ^ exponent`. -/
structure Decimal where
  /-- All significant digits, as one natural number. -/
  digits : Nat
  /-- The power of ten of the last digit. -/
  exponent : Int
deriving Repr, DecidableEq

/-- The positive binary number `significand · 2 ^ exponent`, with what is needed to know its
neighbours. -/
structure Binary where
  /-- The significand with its leading bit. -/
  significand : Nat
  /-- The power of two of the last bit. -/
  exponent : Int
  /-- Whether the neighbour below is half as far away as the one above: the number begins a
  binade. -/
  narrowBelow : Bool
deriving Repr, DecidableEq

namespace Binary

/-- The magnitude of a finite double-precision number, given by its bits: eleven bits of exponent
above fifty-two bits of significand. -/
def ofBits (bits : UInt64) : Binary :=
  let fraction : Nat := bits.toNat % Nat.pow 2 52
  let biased : Nat := bits.toNat / Nat.pow 2 52 % Nat.pow 2 11
  if biased = 0 then ⟨fraction, -1074, false⟩
  else ⟨Nat.pow 2 52 + fraction, (biased : Int) - 1075, fraction == 0 && 1 < biased⟩

/-- The number of decimal digits of a natural number. -/
def digitCount (n : Nat) : Nat := (Nat.toDigits 10 n).length

/-- The power of ten of the leading digit. -/
def magnitude (x : Binary) : Int :=
  let above := x.significand * Nat.pow 2 x.exponent.toNat
  let below := Nat.pow 2 (-x.exponent).toNat
  if below ≤ above then (digitCount (above / below) : Int) - 1
  else
    let places := digitCount (below / above)
    if above * Nat.pow 10 (places - 1) = below then 1 - (places : Int) else -(places : Int)

/-- The scale that makes comparison on the grid of multiples of `10 ^ grid` exact: `d · 10 ^ grid`
against `b · 2 ^ (x.exponent - 2)` is `d · first` against `b · second`. -/
def scale (x : Binary) (grid : Int) : Nat × Nat :=
  (Nat.pow 10 grid.toNat * Nat.pow 2 (2 - x.exponent).toNat,
    Nat.pow 10 (-grid).toNat * Nat.pow 2 (x.exponent - 2).toNat)

/-- The nearest multiple of `10 ^ grid` that reads back as `x`, counted in that unit; of two
equally near ones the even one. -/
def onGrid? (x : Binary) (grid : Int) : Option Nat :=
  let (unit, quarter) := x.scale grid
  let center := 4 * x.significand * quarter
  let low := (4 * x.significand - (if x.narrowBelow then 1 else 2)) * quarter
  let high := (4 * x.significand + 2) * quarter
  let ends := x.significand % 2 = 0
  let inside (d : Nat) : Bool :=
    (low < d * unit || (ends && low = d * unit)) && (d * unit < high || (ends && d * unit = high))
  let d := center / unit
  let down := center - d * unit
  let up := (d + 1) * unit - center
  match inside d, inside (d + 1) with
  | false, false => none
  | true, false => some d
  | false, true => some (d + 1)
  | true, true =>
    if down < up then some d
    else if up < down then some (d + 1)
    else some (if d % 2 = 0 then d else d + 1)

/-- The shortest decimal that reads back as `x`.  Seventeen digits always suffice; a grid point
that carries into the next power of ten has one digit. -/
def shortest (x : Binary) : Decimal :=
  let top := x.magnitude
  let found := (List.range 17).findSome? fun (n : Nat) =>
    (x.onGrid? (top - (n : Int))).map fun d =>
      if d = Nat.pow 10 (n + 1) then (⟨1, top + 1⟩ : Decimal) else ⟨d, top - n⟩
  found.getD ⟨x.significand, x.exponent⟩

end Binary

end TreeQuery

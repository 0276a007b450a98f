import TreeQuery.Decimal.Shortest

/-!
# Reading decimals

A decimal text is a sign, digits with at most one point among them, and a power of ten after an
`e`.  `Decimal.toFloat` gives the nearest binary number to a decimal, so that a text reads as what
it says whatever its length.
-/

namespace TreeQuery

/-- The value of a digit in base `base`, which is at most sixteen. -/
def digitValue? (base : Nat) (c : Char) : Option Nat :=
  let value? : Option Nat :=
    if '0' ≤ c && c ≤ '9' then some (c.toNat - '0'.toNat)
    else if 'a' ≤ c && c ≤ 'f' then some (c.toNat - 'a'.toNat + 10)
    else if 'A' ≤ c && c ≤ 'F' then some (c.toNat - 'A'.toNat + 10)
    else none
  value?.filter (· < base)

/-- Whether a character is one of the ten decimal digits. -/
def isDigit (c : Char) : Bool := '0' ≤ c && c ≤ '9'

/-- The number that digits write in base `base`; a character that is no digit counts as zero. -/
def ofDigits (base : Nat) (digits : List Char) : Nat :=
  digits.foldl (fun n c => n * base + (digitValue? base c).getD 0) 0

/-- The number that a non-empty text of digits writes in base `base`. -/
def natural? (base : Nat) (s : List Char) : Option Nat :=
  if s.isEmpty || s.any (fun c => (digitValue? base c).isNone) then none
  else some (ofDigits base s)

/-- Splits one leading sign off; the flag says whether it was a minus. -/
def splitSign : List Char → Bool × List Char
  | '-' :: s => (true, s)
  | '+' :: s => (false, s)
  | s => (false, s)

namespace Decimal

/-- The nearest double-precision number, an exact middle going to the even neighbour.  A decimal
beyond the largest finite number by far is infinite, and one below the least by far is zero. -/
def toFloat (x : Decimal) : Float :=
  if x.digits = 0 then 0.0
  else
    let top := (Binary.digitCount x.digits : Int) + x.exponent
    if 400 < top then 1.0 / 0.0
    else if top < -400 then 0.0
    else if 0 ≤ x.exponent then Float.ofScientific x.digits false x.exponent.toNat
    else Float.ofScientific x.digits true (-x.exponent).toNat

/-- The power of ten after an `e`: a sign and at least one digit. -/
def exponent? (s : List Char) : Option Int :=
  let (minus, digits) := splitSign s
  (natural? 10 digits).map fun n => if minus then -(n : Int) else n

/-- Reads digits with at most one point among them, at least one digit in all, and then possibly
a power of ten. -/
def ofText? (s : List Char) : Option Decimal :=
  let whole := s.takeWhile isDigit
  let (places, rest) : List Char × List Char :=
    match s.dropWhile isDigit with
    | '.' :: t => (t.takeWhile isDigit, t.dropWhile isDigit)
    | t => ([], t)
  if whole.isEmpty && places.isEmpty then none
  else
    let digits := ofDigits 10 (whole ++ places)
    match rest with
    | [] => some ⟨digits, -(places.length : Int)⟩
    | c :: t =>
      if c == 'e' || c == 'E' then
        (exponent? t).map fun e => ⟨digits, e - places.length⟩
      else none

end Decimal

/-- Reads a decimal with an optional sign, or `inf`, `infinity` or `nan` in letters of any case
with an optional sign. -/
def floatOfText? (s : List Char) : Option Float :=
  let (minus, digits) := splitSign s
  let magnitude? : Option Float :=
    let word := String.ofList (digits.map Char.toLower)
    if word == "inf" || word == "infinity" then some (1.0 / 0.0)
    else if word == "nan" then some (0.0 / 0.0)
    else (Decimal.ofText? digits).map Decimal.toFloat
  magnitude?.map fun x => if minus then -x else x

end TreeQuery

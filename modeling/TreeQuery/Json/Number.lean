import TreeQuery.Decimal.Reading
import TreeQuery.Json.Basic

/-!
# Numbers in values

A whole number within sixty-four bits is read as it stands.  Any other number is kept as a
significand of sixty-four bits and a power of ten: digits that no longer fit count as zeros before
the point and are dropped after it.  Its value is the rounded significand, multiplied or divided by
a rounded power of ten, and a number too large for that is refused.

A number with a fraction is written with the fewest digits that read back, positionally from
`0.00001` up to `10 ^ 16`, with at least one digit after the point.  Elsewhere an exponent with a
sign follows the digits.
-/

namespace TreeQuery.Json

/-- The bound below which whole numbers and significands stay. -/
def wordBound : Nat := Nat.pow 2 64

/-- Multiplies or divides by a power of ten, three hundred and eight powers at a time where one
step does not reach; `none` if the result is too large. -/
def timesPowerOfTen (steps : Nat) (x : Float) (e : Int) : Option Float :=
  let power (n : Nat) : Float := Float.ofScientific 1 false n
  if e.natAbs ≤ 308 then
    if 0 ≤ e then
      let y := x * power e.natAbs
      if y.isInf then none else some y
    else some (x / power e.natAbs)
  else if x == 0.0 then some x
  else if 0 ≤ e then none
  else match steps with
    | 0 => some 0.0
    | steps + 1 => timesPowerOfTen steps (x / power 308) (e + 308)

/-- The parts of a number: the significand, and the power of ten before its exponent is added. -/
structure NumberParts where
  /-- The digits that fit into a word. -/
  significand : Nat
  /-- The power of ten of the last kept digit. -/
  exponent : Int
deriving Repr

/-- Takes digits into the significand as long as it fits; the result says how many were left. -/
def NumberParts.take (significand : Nat) : List Char → Nat × Nat
  | [] => (significand, 0)
  | c :: digits =>
    let next := significand * 10 + (digitValue? 10 c).getD 0
    if next < wordBound then take next digits else (significand, digits.length + 1)

/-- The parts of the number with digits `whole` before the point and `places` after it. -/
def NumberParts.ofDigits (whole places : List Char) : NumberParts :=
  let (kept, left) := take 0 whole
  let (all, dropped) := take kept places
  ⟨all, (left : Int) - (places.length - dropped : Nat)⟩

/-- The exponent digits of a number, with `true` for a minus; `none` without digits. -/
def exponentDigits? (s : List Char) : Option (Bool × List Char) :=
  let (minus, digits) := splitSign s
  if digits.isEmpty || digits.any (fun c => !isDigit c) then none else some (minus, digits)

/-- The value of a number with a fraction or an exponent.  An exponent beyond thirty-two bits makes
the number zero, or too large if it is positive and some digit is not zero. -/
def NumberParts.toFloat? (parts : NumberParts) (minus : Bool)
    (exponent : Option (Bool × List Char)) : Option Float :=
  let signed (x : Float) : Float := if minus then -x else x
  let scaled (e : Int) : Option Float :=
    (timesPowerOfTen (e.natAbs / 308 + 1) (Float.ofNat parts.significand) e).map signed
  match exponent with
  | none => scaled parts.exponent
  | some (negative, digits) =>
    let e : Nat := TreeQuery.ofDigits 10 digits
    if e < Nat.pow 2 31 then
      scaled (if negative then parts.exponent - e else parts.exponent + e)
    else if parts.significand ≠ 0 && !negative then none
    else some (signed 0.0)

/-- Reads a number: a minus or none, digits without a needless leading zero, then possibly a point
and digits, then possibly an exponent. -/
def number? (s : List Char) : Option Json :=
  let (minus, s) : Bool × List Char := match s with
    | '-' :: t => (true, t)
    | t => (false, t)
  let whole := s.takeWhile isDigit
  let needlessZero := whole.head? == some '0' && whole.length ≠ 1
  if whole.isEmpty || needlessZero then none
  else
    let fraction? : Option (Option (List Char) × List Char) := match s.dropWhile isDigit with
      | '.' :: t =>
        let places := t.takeWhile isDigit
        if places.isEmpty then none else some (some places, t.dropWhile isDigit)
      | t => some (none, t)
    fraction?.bind fun (places, rest) =>
      let parts := NumberParts.ofDigits whole (places.getD [])
      match rest with
      | [] =>
        let n := TreeQuery.ofDigits 10 whole
        let fits := if minus then 0 < n && n ≤ Nat.pow 2 63 else n < wordBound
        if places.isNone && fits then some (.int (if minus then -(n : Int) else n))
        else (parts.toFloat? minus none).map .float
      | c :: t =>
        if c == 'e' || c == 'E' then
          (exponentDigits? t).bind fun e => (parts.toFloat? minus (some e)).map .float
        else none

/-- The text of a number with a fraction: infinity and not-a-number do not occur in values. -/
def floatText (x : Float) : String :=
  let bits := x.toBits
  let sign := if bits.toNat / Nat.pow 2 63 = 0 then [] else ['-']
  let zeros (n : Nat) : List Char := List.replicate n '0'
  let magnitude : List Char :=
    if x == 0.0 then ['0', '.', '0']
    else
      let d := (Binary.ofBits bits).shortest
      let digits := Nat.toDigits 10 d.digits
      let point : Int := digits.length + d.exponent
      if 0 ≤ d.exponent && point ≤ 16 then digits ++ zeros d.exponent.toNat ++ ['.', '0']
      else if 0 < point && point ≤ 16 then
        digits.take point.toNat ++ '.' :: digits.drop point.toNat
      else if -5 < point && point ≤ 0 then '0' :: '.' :: zeros (-point).toNat ++ digits
      else
        let fraction := if digits.length = 1 then [] else '.' :: digits.drop 1
        let plus := if 0 < point then ['+'] else []
        digits.take 1 ++ fraction ++ 'e' :: plus ++ (toString (point - 1)).toList
  String.ofList (sign ++ magnitude)

end TreeQuery.Json

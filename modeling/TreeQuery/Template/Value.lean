import TreeQuery.Json.Number

/-!
# Values in templates

How a value is written, when it counts as true, and how two values compare.  A text that writes a
number compares with a number as that number.  Whole numbers compare exactly, also with numbers that
have a fraction.
-/

namespace TreeQuery.Json

mutual

/-- A value as a template writes it: texts without quotes, null as nothing, an array by its items
between brackets, and an object by a fixed word. -/
def display : Json → String
  | .null => ""
  | .bool b => if b then "true" else "false"
  | .int n => toString n
  | .float x => floatText x
  | .str s => s
  | .arr items => displayItems "[" true items ++ "]"
  | .obj _ => "[object]"

/-- Items behind what was written, with a comma and a space between two of them. -/
def displayItems (done : String) (first : Bool) : List Json → String
  | [] => done
  | v :: rest => displayItems ((if first then done else done ++ ", ") ++ v.display) false rest

end

/-- Whether a number with a fraction is neither zero nor too near to zero nor without bounds: its
exponent field is neither all zeros nor all ones. -/
def isNormal (x : Float) : Bool :=
  let biased := x.toBits.toNat / Nat.pow 2 52 % Nat.pow 2 11
  biased != 0 && biased != Nat.pow 2 11 - 1

/-- Whether a value counts as true.  Empty texts, arrays and objects do not; zero does only if
`includeZero` says so. -/
def isTruthy (includeZero : Bool) : Json → Bool
  | .null => false
  | .bool b => b
  | .int n => includeZero || n != 0
  | .float x => if includeZero then !x.isNaN else isNormal x
  | .str s => !s.isEmpty
  | .arr items => !items.isEmpty
  | .obj members => !members.isEmpty

mutual

/-- Whether two values are equal.  A whole number is never equal to one with a fraction. -/
def equals : Json → Json → Bool
  | .null, .null => true
  | .bool a, .bool b => a == b
  | .int m, .int n => m == n
  | .float x, .float y => x == y
  | .str s, .str t => s == t
  | .arr items, .arr others => equalItems items others
  | .obj members, .obj others => equalMembers members others
  | _, _ => false

/-- Whether two lists of values are equal item by item. -/
def equalItems : List Json → List Json → Bool
  | [], [] => true
  | v :: rest, w :: others => equals v w && equalItems rest others
  | _, _ => false

/-- Whether two lists of members are equal member by member. -/
def equalMembers : List (String × Json) → List (String × Json) → Bool
  | [], [] => true
  | (a, v) :: rest, (b, w) :: others => a == b && equals v w && equalMembers rest others
  | _, _ => false

end

/-- The order of two numbers with a fraction, if they have one. -/
def compareFloats (x y : Float) : Option Ordering :=
  if x < y then some .lt else if y < x then some .gt else if x == y then some .eq else none

/-- The order of a whole number and a finite number with a fraction, in exact arithmetic. -/
def compareWithFloat (n : Int) (x : Float) : Ordering :=
  let b := Binary.ofBits x.toBits
  let significand : Int :=
    if x.toBits.toNat / Nat.pow 2 63 = 0 then b.significand else -(b.significand : Int)
  let scale (e : Int) : Int := (Nat.pow 2 e.toNat : Nat)
  compare (n * scale (-b.exponent)) (significand * scale b.exponent)

/-- The order of two numbers, if both values are numbers. -/
def compareNumbers? : Json → Json → Option Ordering
  | .int m, .int n => some (compare m n)
  | .int m, .float y => some (compareWithFloat m y)
  | .float x, .int n => some (compareWithFloat n x).swap
  | .float x, .float y => compareFloats x y
  | _, _ => none

/-- The order of two values, if they have one. -/
def compare? : Json → Json → Option Ordering
  | .str s, .str t => some (if s < t then .lt else if s == t then .eq else .gt)
  | .bool a, .bool b => some (compare a b)
  | .str s, w => (number? s.toList).bind fun v => compareNumbers? v w
  | v, .str t => (number? t.toList).bind fun w => compareNumbers? v w
  | v, w => compareNumbers? v w

end TreeQuery.Json

import TreeQuery.Json.Basic
import TreeQuery.Yaml.Event

/-!
# Types of scalars

A plain scalar without a type stands for what it looks like: nothing, a truth value, a whole number
in one of four bases, a number with a fraction, and else a text.  Digits behind a needless zero are
a text.  Five types can be given by tags; every other type makes a scalar a text, except that types
of the document's own are refused.
-/

namespace TreeQuery.Yaml

/-- A type of the format. -/
def coreTag (name : String) : List Char := ("tag:yaml.org,2002:" ++ name).toList

/-- Whether a text is one of the words for null. -/
def isNullWord (s : List Char) : Bool :=
  ["null", "Null", "NULL", "~"].any fun w => w.toList == s

/-- The truth value that a text writes. -/
def truth? (s : List Char) : Option Bool :=
  if ["true", "True", "TRUE"].any fun w => w.toList == s then some true
  else if ["false", "False", "FALSE"].any fun w => w.toList == s then some false
  else none

/-- Whether a text is digits behind a needless zero, possibly with a sign. -/
def hasNeedlessZero (s : List Char) : Bool :=
  let digits := (splitSign s).2
  1 < digits.length && digits.head? == some '0' && digits.all isDigit

/-- The number behind a mark of a base, or in decimal digits. -/
def basedNumber? : List Char → Option Nat
  | '0' :: 'x' :: digits => natural? 16 digits
  | '0' :: 'o' :: digits => natural? 8 digits
  | '0' :: 'b' :: digits => natural? 2 digits
  | digits => natural? 10 digits

/-- The whole number that a text writes, with a sign or none. -/
def whole? (s : List Char) : Option Int :=
  if hasNeedlessZero s then none
  else match s with
    | '-' :: digits => (basedNumber? digits).map fun n => -(n : Int)
    | '+' :: digits => (basedNumber? digits).map fun n => (n : Int)
    | digits => (basedNumber? digits).map fun n => (n : Int)

/-- Whether a whole number lies within the given number of bits, with or without a sign. -/
def fitsBits (bits : Nat) (n : Int) : Bool :=
  -(Nat.pow 2 (bits - 1) : Int) ≤ n && n < Nat.pow 2 bits

/-- The number with a fraction that a text writes; infinity and not-a-number have words of their
own, and a decimal that is too large is no number. -/
def fraction? (s : List Char) : Option Float :=
  let unsigned := match s with
    | '+' :: digits => digits
    | digits => digits
  let is (words : List String) (s : List Char) : Bool := words.any fun w => w.toList == s
  if s.head? == some '+' && unsigned.head?.any fun c => c == '+' || c == '-' then none
  else if is [".inf", ".Inf", ".INF"] unsigned then some (1.0 / 0.0)
  else if is ["-.inf", "-.Inf", "-.INF"] s then some (-1.0 / 0.0)
  else if is [".nan", ".NaN", ".NAN"] s then some (0.0 / 0.0)
  else (floatOfText? unsigned).filter Float.isFinite

/-- A number with a fraction as a value; what has no decimal text becomes null. -/
def floatValue (x : Float) : Json := if x.isFinite then .float x else .null

/-- A whole number as a value, if it is not too large. -/
def wholeValue? (n : Int) : Option Json := if fitsBits 64 n then some (.int n) else none

/-- What a plain text without a type stands for.  A whole number beyond sixty-four bits is refused,
and one beyond twice as many bits counts as a number with a fraction. -/
def plainValue? (s : List Char) : Option Json :=
  if s.isEmpty || isNullWord s then some .null
  else match truth? s with
    | some b => some (.bool b)
    | none => match (whole? s).filter (fitsBits 128) with
      | some n => wholeValue? n
      | none =>
        match if hasNeedlessZero s then none else fraction? s with
        | some x => some (floatValue x)
        | none => some (.str (String.ofList s))

namespace Scalar

/-- Whether a type is one of the document's own. -/
def isLocal (tag : Option (List Char)) : Bool := tag.any fun t => t.head? == some '!'

/-- The value of a scalar. -/
def value? (s : Scalar) : Option Json :=
  match s.tag with
  | none => if s.style == .plain then plainValue? s.text else some (.str (String.ofList s.text))
  | some tag =>
    if tag.head? == some '!' then none
    else if tag == coreTag "bool" then (truth? s.text).map .bool
    else if tag == coreTag "int" then ((whole? s.text).filter (fitsBits 128)).bind wholeValue?
    else if tag == coreTag "float" then (fraction? s.text).map floatValue
    else if tag == coreTag "null" then (if isNullWord s.text then some .null else none)
    else some (.str (String.ofList s.text))

/-- The text of a scalar that may be absent: a plain one is if it is empty or a word for null. -/
def textOrNull? (s : Scalar) : Option (Option String) :=
  if s.style != .plain then some (some (String.ofList s.text))
  else match s.tag with
    | none =>
      some (if s.text.isEmpty || isNullWord s.text then none else some (String.ofList s.text))
    | some tag =>
      if tag == coreTag "null" then (if isNullWord s.text then some none else none)
      else some (some (String.ofList s.text))

/-- The truth value of a scalar, which must be plain or a literal block of that type. -/
def truth? (s : Scalar) : Option Bool :=
  if s.style == .plain || (s.style == .literal && s.tag == some (coreTag "bool")) then
    Yaml.truth? s.text
  else none

/-- Whether a scalar stands for a collection without members. -/
def isNothing (s : Scalar) : Bool := s.text.isEmpty && s.style == .plain

end Scalar

end TreeQuery.Yaml

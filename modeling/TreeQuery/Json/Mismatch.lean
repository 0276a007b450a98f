import TreeQuery.Json.Number
import TreeQuery.Text.Quoted

/-!
# Values of the wrong shape

A record is read from an object by the names of its fields, or from an array by their positions.
A `Mismatch` says where a value fails to have the shape that is wanted; the readers here are the
ones that records are put together from.
-/

namespace TreeQuery.Json

/-- The shapes that a value can be wanted to have. -/
inductive Shape where
  | text | truth | map | list
  /-- A record of the given name. -/
  | record (name : String)
deriving Repr, DecidableEq

/-- The name of a shape in messages. -/
def Shape.name : Shape → String
  | .text => "a string"
  | .truth => "a boolean"
  | .map => "a map"
  | .list => "a sequence"
  | .record name => "struct " ++ name

/-- Where a value fails to be what is wanted. -/
inductive Mismatch where
  /-- A value of another shape. -/
  | shape (found : Json) (wanted : Shape)
  /-- An object without a field that has no default. -/
  | missing (field : String)
  /-- An array that ends before a field that has no default. -/
  | tooShort (length : Nat) (record : String) (fields : Nat)
  /-- An array with more items than fields. -/
  | tooLong (length : Nat)

/-- What a value is called in messages. -/
def described : Json → String
  | .null => "null"
  | .bool b => "boolean `" ++ (if b then "true" else "false") ++ "`"
  | .int n => "integer `" ++ toString n ++ "`"
  | .float x => "floating point `" ++ floatText x ++ "`"
  | .str s => "string " ++ Text.quoted s
  | .arr _ => "sequence"
  | .obj _ => "map"

/-- The message of a mismatch. -/
def Mismatch.message : Mismatch → String
  | .shape found wanted => "invalid type: " ++ found.described ++ ", expected " ++ wanted.name
  | .missing field => "missing field `" ++ field ++ "`"
  | .tooShort length record fields =>
    "invalid length " ++ toString length ++ ", expected struct " ++ record ++ " with "
      ++ toString fields ++ " elements"
  | .tooLong length =>
    "invalid length " ++ toString length ++ ", expected fewer elements in array"

/-- A text. -/
def readText : Json → Except Mismatch String
  | .str s => .ok s
  | v => .error (.shape v .text)

/-- A text, or null. -/
def readTextOrNull : Json → Except Mismatch (Option String)
  | .null => .ok none
  | v => (readText v).map some

/-- A truth value. -/
def readTruth : Json → Except Mismatch Bool
  | .bool b => .ok b
  | v => .error (.shape v .truth)

/-- A dictionary of arbitrary values. -/
def readMap : Json → Except Mismatch (Dict Json)
  | .obj members => .ok (Dict.ofPairs members)
  | v => .error (.shape v .map)

/-- A list whose items are read one after the other. -/
def readList {α : Type} (item : Json → Except Mismatch α) : Json → Except Mismatch (List α)
  | .arr items => items.mapM item
  | v => .error (.shape v .list)

/-- A field that may be absent. -/
def readField {α : Type} (value : Json → Except Mismatch α) :
    Option Json → Except Mismatch (Option α)
  | none => .ok none
  | some v => (value v).map some

/-- What is present, or else a mismatch. -/
def orElse {α : Type} (mismatch : Mismatch) : Option α → Except Mismatch α
  | some a => .ok a
  | none => .error mismatch

/-- Refuses an array with more than `fields` items. -/
def noMoreThan (fields : Nat) (items : List Json) : Except Mismatch Unit :=
  if fields < items.length then .error (.tooLong items.length) else .ok ()

end TreeQuery.Json

import TreeQuery.Dict

/-!
# Values

Parameters, template values and serialized plans share one kind of value.  Whole numbers and
numbers with a fraction are told apart, since `1` and `1.0` are written differently.  An object
holds its members as bindings in ascending order; `Json.object` and `Json.ofDict` make such objects.
-/

namespace TreeQuery

/-- A value of a parameter or a template. -/
inductive Json where
  | null
  | bool (b : Bool)
  | int (n : Int)
  | float (x : Float)
  | str (s : String)
  | arr (items : List Json)
  | obj (members : List (String × Json))
deriving Inhabited

namespace Json

/-- The object with the given members, of which the last for each name counts. -/
def object (members : List (String × Json)) : Json := .obj (Bindings.ofPairs members)

/-- A dictionary as an object. -/
def ofDict (d : Dict Json) : Json := .obj d.entries

/-- Texts as an array. -/
def texts (values : List String) : Json := .arr (values.map .str)

/-- A text, or null if there is none. -/
def textOrNull : Option String → Json
  | none => .null
  | some s => .str s

/-- The text that a value is, if it is one. -/
def text? : Json → Option String
  | .str s => some s
  | _ => none

/-- The texts that a value is an array of; no other member may stand among them. -/
def texts? : Json → Option (List String)
  | .arr items => items.mapM text?
  | _ => none

/-- The member of an object with the given name. -/
def member? (name : String) : Json → Option Json
  | .obj members => Bindings.find? name members
  | _ => none

end Json

end TreeQuery

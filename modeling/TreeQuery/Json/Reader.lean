import TreeQuery.Json.Token

/-!
# Reading values

The arrays and objects that are still open wait on a stack, so that reading is one fold over the
lexemes and its depth is that of a list.  Values nest at most a hundred and twenty-seven deep.
-/

namespace TreeQuery.Json

/-- An array or an object that is still open. -/
inductive Frame where
  /-- An array with its items so far in reverse. -/
  | array (done : List Json)
  /-- An object with its members so far, and the name whose value is being read. -/
  | object (done : Bindings Json) (name : String)

/-- What may follow at a point of a value text. -/
inductive Expecting where
  /-- A value. -/
  | value (outer : List Frame)
  /-- A first item, or the end of an empty array. -/
  | firstItem (outer : List Frame)
  /-- The name of a member, or the end of an object that may be closed here. -/
  | name (done : Bindings Json) (mayClose : Bool) (outer : List Frame)
  /-- The colon after a name. -/
  | colon (done : Bindings Json) (name : String) (outer : List Frame)
  /-- Whatever may follow a complete value. -/
  | rest (v : Json) (outer : List Frame)

/-- The number of arrays and objects that may be open at once. -/
def depthLimit : Nat := 127

namespace Expecting

/-- Where a value must follow. -/
def onValue (outer : List Frame) : Token → Option Expecting
  | .text s => some (.rest (.str s) outer)
  | .scalar v => some (.rest v outer)
  | .openArray =>
    if outer.length < depthLimit then some (.firstItem outer) else none
  | .openObject =>
    if outer.length < depthLimit then some (.name [] true outer) else none
  | _ => none

/-- What follows a lexeme, if it is allowed. -/
def step : Expecting → Token → Option Expecting
  | .value outer, t => onValue outer t
  | .firstItem outer, .closeArray => some (.rest (.arr []) outer)
  | .firstItem outer, t => onValue (.array [] :: outer) t
  | .name done true outer, .closeObject => some (.rest (.obj done) outer)
  | .name done _ outer, .text key => some (.colon done key outer)
  | .name _ _ _, _ => none
  | .colon done key outer, .colon => some (.value (.object done key :: outer))
  | .colon _ _ _, _ => none
  | .rest v (.array done :: outer), .comma => some (.value (.array (v :: done) :: outer))
  | .rest v (.array done :: outer), .closeArray => some (.rest (.arr (v :: done).reverse) outer)
  | .rest v (.object done key :: outer), .comma => some (.name (done.insert key v) false outer)
  | .rest v (.object done key :: outer), .closeObject =>
    some (.rest (.obj (done.insert key v)) outer)
  | .rest _ _, _ => none

end Expecting

/-- The value that a text writes, with nothing but blanks around it. -/
def ofText? (s : String) : Option Json :=
  (Token.ofText? s.toList).bind fun tokens =>
    match tokens.foldlM Expecting.step (.value []) with
    | some (.rest v []) => some v
    | _ => none

end TreeQuery.Json

import TreeQuery.Decimal.Reading
import TreeQuery.Template.Basic

/-!
# Scopes and references

A scope is what references start from: a place in the value that the template was given, or a value
of its own.  Blocks and insertions open scopes inside of each other.  A scope also has the names
that its block or its insertion gives to values, the variables of the current round of its block,
and the pieces of template that are named in it; all of these are seen from the scopes inside.

A reference that leads to a place in the given value keeps the way there, so that a block which it
is an argument of can open a scope at that place.
-/

namespace TreeQuery.Template

/-- Why a template has no text. -/
inductive Error where
  /-- The text is no template. -/
  | malformed
  /-- A value that does not exist; the reference as it was written, if there was one. -/
  | missingVariable (raw : Option String)
  /-- A helper that does not exist. -/
  | unknownHelper (name : String)
  /-- A directive that does not exist. -/
  | unknownDirective (name : String)
  /-- A piece of template that does not exist. -/
  | unknownPiece (name : String)
  /-- The contents of an insertion, where there is none around. -/
  | noContents
  /-- A helper or a directive without one of its arguments, counted from zero. -/
  | missingArgument (helper : String) (index : Nat)
  /-- A helper without a value for one of its arguments. -/
  | absentValue (helper : String)
  /-- An argument of another type than the named one. -/
  | wrongType (wanted : String)
  /-- An array that is asked for something that is no index. -/
  | badIndex (index : String)
  /-- A level of importance that does not exist. -/
  | unknownLevel (level : String)
  /-- A directive without the contents that it needs. -/
  | contentsRequired
  /-- Insertions that are nested without end. -/
  | nestedTooDeep
deriving Repr, DecidableEq

/-- What a block or an insertion calls by a name. -/
inductive Named where
  /-- The place of the scope. -/
  | place
  /-- A value. -/
  | value (v : Json)

/-- What references start from. -/
structure Scope where
  /-- The way to its place in the given value. -/
  way : List String
  /-- Its own value, if it has one. -/
  value : Option Json
  /-- The names that the block or the insertion gives. -/
  named : List (String × Named)
  /-- The variables of the current round. -/
  loop : List (String × Json)
  /-- The pieces of template that are named in it, the latest first. -/
  pieces : List (String × List Element)

namespace Scope

/-- The scope of a place or of a value, without names. -/
def of (way : List String) (value : Option Json) : Scope := ⟨way, value, [], [], []⟩

/-- The scope of a whole template. -/
def outermost : Scope := .of [] none

/-- Names a piece of template in the innermost scope. -/
def namePiece (name : String) (piece : List Element) : List Scope → List Scope
  | [] => [{ outermost with pieces := [(name, piece)] }]
  | scope :: outer => { scope with pieces := (name, piece) :: scope.pieces } :: outer

end Scope

/-- The outcome of a reference. -/
structure Found where
  /-- The value, if it exists. -/
  value : Option Json
  /-- The way to it in the given value, if it lies there. -/
  way : Option (List String)

/-- An argument: the text of the reference that it was, and what was found. -/
structure Argument where
  /-- The reference as written, if it was one. -/
  raw : Option String
  /-- What was found. -/
  found : Found

namespace Argument

/-- A value that lies nowhere. -/
def ofValue (v : Json) : Argument := ⟨none, some v, none⟩

/-- The value of an argument; what does not exist counts as null. -/
def value (a : Argument) : Json := a.found.value.getD .null

/-- Whether the argument does not exist. -/
def isMissing (a : Argument) : Bool := a.found.value.isNone

end Argument

/-- The index that a text writes; a plus sign may stand before it. -/
def index? (s : String) : Option Nat :=
  let digits := match s.toList with
    | '+' :: digits => digits
    | digits => digits
  (natural? 10 digits).filter (· < Nat.pow 2 64)

/-- Follows a way from a value.  An array has members by index only; what has no members has none
by any name. -/
def follow (v : Option Json) : List String → Except Error (Option Json)
  | [] => .ok v
  | name :: rest => match v with
    | some (.arr items) => match index? name with
      | some i => follow items[i]? rest
      | none => .error (.badIndex name)
    | some (.obj members) => follow (Bindings.find? name members) rest
    | _ => follow none rest

/-- What the scopes call by a name, the innermost one first, and the way of that scope. -/
def findNamed (scopes : List Scope) (name : String) : Option (Named × List String) :=
  scopes.findSome? fun scope => (Bindings.find? name scope.named).map (·, scope.way)

/-- The piece of template that the scopes call by a name, the innermost one first. -/
def findPiece (scopes : List Scope) (name : String) : Option (List Element) :=
  scopes.findSome? fun scope => scope.pieces.lookup name

/-- The names of a reference. -/
def names (segments : List Segment) : List String :=
  segments.filterMap fun segment => match segment with
    | .name s => some s
    | _ => none

/-- The steps up that a reference begins with. -/
def leadingUps (segments : List Segment) : Nat := (segments.takeWhile (· == .up)).length

/-- The value of a reference that is not a variable of a round: from what a block calls by the
reference's first name, from the given value, or from the scope that its steps up lead to.  Steps
beyond the outermost scope lead to the innermost one. -/
def resolve (data : Json) (scopes : List Scope) (segments : List Segment) :
    Except Error Found :=
  let ups := leadingUps segments
  let inData (way : List String) : Except Error Found :=
    (follow (some data) way).map fun v => ⟨v, if v.isSome then some way else none⟩
  let within (v : Json) (way : List String) : Except Error Found :=
    (follow (some v) way).map fun v => ⟨v, none⟩
  let below := names segments
  let named := match segments[ups]? with
    | some (.name name) => findNamed scopes name
    | _ => none
  match named with
  | some (.value v, _) => within v (names (segments.drop (ups + 1)))
  | some (.place, way) => inData (way ++ names (segments.drop (ups + 1)))
  | none =>
    if ups = 0 && segments.head? == some .root then inData below
    else match (if ups = 0 then scopes.head? else scopes[ups]?.or scopes.head?) with
      | none => inData below
      | some scope => match scope.value with
        | some v => within v below
        | none => inData (scope.way ++ below)

/-- The variable of a round that a reference stands for: how many scopes further out the search
for it begins, and its name. -/
def roundVariable? (segments : List Segment) : Option (Nat × String) :=
  match segments with
  | .loop :: rest =>
    let ups := leadingUps rest
    match rest[ups]? with
    | some (.name name) => some (ups, name)
    | _ => none
  | _ => none

/-- The value of a reference. -/
def find (data : Json) (scopes : List Scope) (segments : List Segment) : Except Error Found :=
  match roundVariable? segments with
  | some (ups, name) =>
    .ok ⟨(scopes.drop ups).findSome? fun scope => Bindings.find? name scope.loop, none⟩
  | none => resolve data scopes segments

end TreeQuery.Template

import TreeQuery.Template.Scope
import TreeQuery.Template.Value

/-!
# Helpers

A helper computes a value from its arguments, or judges them, or decides about the contents of a
block.  One that judges has a truth value outside of a block, and in a block it decides for the
contents or against them.  One that decides writes nothing outside of a block.

To compare values, to negate one, or to measure its length, they have to exist; all other helpers
take a missing value for null.
-/

namespace TreeQuery.Template

/-- The arguments of a helper. -/
structure Arguments where
  /-- The arguments in order. -/
  args : List Argument
  /-- The named arguments. -/
  named : List (String × Argument)

namespace Arguments

/-- An argument that a helper needs, though its value need not exist. -/
def require (a : Arguments) (helper : String) (i : Nat) : Except Error Argument :=
  match a.args[i]? with
  | some arg => .ok arg
  | none => .error (.missingArgument helper i)

/-- The value of an argument that a judging helper needs to exist. -/
def existing (a : Arguments) (helper : String) (i : Nat) : Except Error Json :=
  match a.args[i]? with
  | some arg => if arg.isMissing then .error (.missingArgument helper i) else .ok arg.value
  | none => .error (.missingArgument helper i)

/-- The value of an argument that a computing helper needs to exist. -/
def present (a : Arguments) (helper : String) (i : Nat) : Except Error Json :=
  match a.args[i]? with
  | some arg => if arg.isMissing then .error (.absentValue helper) else .ok arg.value
  | none => .error (.absentValue helper)

end Arguments

/-- What a deciding helper writes. -/
inductive Decision where
  /-- The contents, or else what stands behind `else`. -/
  | branch (condition : Bool)
  /-- The contents, in the scope of a value. -/
  | within (arg : Argument)
  /-- The contents once for every member of a value. -/
  | rounds (arg : Argument)
  /-- The contents as they are. -/
  | contents
  /-- Nothing. -/
  | nothing

/-- What a helper does. -/
inductive Outcome where
  /-- It has a value. -/
  | value (v : Json)
  /-- It judges its arguments. -/
  | truth (b : Bool)
  /-- It decides about a block. -/
  | decision (d : Decision)

/-- The number of items of an array, members of an object or bytes of a text. -/
def length : Json → Nat
  | .arr items => items.length
  | .obj members => members.length
  | .str s => s.utf8ByteSize
  | _ => 0

/-- The item of an array at an index, or the member of an object with a name. -/
def lookup? (collection index : Json) : Option Json :=
  match collection, index with
  | .arr items, .int n => if 0 ≤ n then items[n.toNat]? else none
  | .obj members, .str name => Bindings.find? name members
  | _, _ => none

/-- The levels of importance of remarks. -/
def levels : List String := ["error", "warn", "info", "debug", "trace"]

/-- The helpers that compare two values, each with its condition. -/
def comparisons : List (String × (Json → Json → Bool)) :=
  [("eq", Json.equals),
   ("ne", fun v w => !v.equals w),
   ("gt", fun v w => v.compare? w == some .gt),
   ("gte", fun v w => (v.compare? w).any (· != .lt)),
   ("lt", fun v w => v.compare? w == some .lt),
   ("lte", fun v w => (v.compare? w).any (· != .gt))]

/-- The other helpers. -/
def otherHelpers : List String :=
  ["if", "unless", "each", "with", "raw", "log", "lookup", "len", "not", "and", "or"]

/-- Whether a helper has the given name. -/
def isHelper (name : String) : Bool :=
  otherHelpers.contains name || (comparisons.lookup name).isSome

/-- What the helper of the given name does with its arguments. -/
def apply (name : String) (a : Arguments) : Except Error Outcome :=
  match comparisons.lookup name with
  | some condition => do
    let v ← a.existing name 0
    let w ← a.existing name 1
    return .truth (condition v w)
  | none => match name with
    | "not" => do
      let v ← a.existing name 0
      return .truth !(v.isTruthy false)
    | "and" => return .truth (a.args.all fun arg => arg.value.isTruthy false)
    | "or" => return .truth (a.args.any fun arg => arg.value.isTruthy false)
    | "len" => do
      let v ← a.present name 0
      return .value (.int (length v))
    | "lookup" => do
      let collection ← a.require name 0
      let index ← a.require name 1
      match lookup? collection.value index.value with
      | some v => return .value v
      | none => throw (.missingVariable none)
    | "if" | "unless" => do
      let arg ← a.require "if" 0
      let includeZero := match (a.named.lookup "includeZero").map Argument.value with
        | some (.bool b) => b
        | _ => false
      return .decision (.branch (arg.value.isTruthy includeZero != (name == "unless")))
    | "with" => do
      let arg ← a.require name 0
      return .decision (.within arg)
    | "each" => do
      let arg ← a.require name 0
      return .decision (.rounds arg)
    | "raw" => return .decision .contents
    | "log" =>
      let level := ((a.named.lookup "level").bind fun arg => arg.value.text?).getD "info"
      if levels.contains (level.map Char.toLower) then return .decision .nothing
      else throw (.unknownLevel level)
    | _ => throw (.unknownHelper name)

/-- What a helper is worth outside of a block.  One that decides is worth an empty text; still, a
scope needs a value that counts as true. -/
def Outcome.worth : Outcome → Except Error Json
  | .value v => .ok v
  | .truth b => .ok (.bool b)
  | .decision (.within arg) =>
    if arg.value.isTruthy false then .ok (.str "") else .error (.missingVariable arg.raw)
  | .decision _ => .ok (.str "")

mutual

/-- The argument that a term stands for. -/
def evaluate (data : Json) (scopes : List Scope) : Term → Except Error Argument
  | .word name => .ok ⟨some name, none, none⟩
  | .literal v => .ok (.ofValue v)
  | .reference raw segments => (find data scopes segments).map fun found => ⟨some raw, found⟩
  | .call head args named => do
    let name ← match head with
      | .word name => pure name
      | .reference raw _ => pure raw
      | .literal v => pure v.display
      | .call .. => (evaluate data scopes head).map fun arg => arg.value.display
    let args ← evaluateAll data scopes args
    let named ← evaluateNamed data scopes named
    let v ← (apply name ⟨args, named⟩).bind Outcome.worth
    return .ofValue v

/-- The arguments that terms stand for. -/
def evaluateAll (data : Json) (scopes : List Scope) : List Term → Except Error (List Argument)
  | [] => .ok []
  | t :: rest => do
    let arg ← evaluate data scopes t
    let more ← evaluateAll data scopes rest
    return arg :: more

/-- The arguments that named terms stand for. -/
def evaluateNamed (data : Json) (scopes : List Scope) :
    List (String × Term) → Except Error (List (String × Argument))
  | [] => .ok []
  | (name, t) :: rest => do
    let arg ← evaluate data scopes t
    let more ← evaluateNamed data scopes rest
    return (name, arg) :: more

end

/-- The name that the head of a call gives: as it is written, or as its value is written. -/
def headName (data : Json) (scopes : List Scope) (head : Term) : Except Error String :=
  match head.name? with
  | some name => .ok name
  | none => (evaluate data scopes head).map fun arg => arg.value.display

/-- The arguments of a call. -/
def Call.arguments (c : Call) (data : Json) (scopes : List Scope) : Except Error Arguments := do
  let args ← evaluateAll data scopes c.args
  let named ← evaluateNamed data scopes c.named
  return ⟨args, named⟩

end TreeQuery.Template

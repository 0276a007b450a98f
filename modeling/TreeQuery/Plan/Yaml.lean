import TreeQuery.Plan.Basic
import TreeQuery.Yaml.Node
import TreeQuery.Yaml.Typed

/-!
# Plans as texts

A plan text is a document whose root is a mapping of the fields of a plan.  Fields are mappings by
name only; a field may stand once, fields with a default may be left out, and what stands under
other names is not looked at.  A plain empty scalar stands for a collection without members, and any
scalar for a text.

Reading follows aliases, but not without end: collections nest a limited number of times, and
aliases may be followed a hundred times for every event of the document.
-/

namespace TreeQuery

namespace Plan

/-- Reading nodes; the state is the number of aliases that may still be followed. -/
abbrev Reading := StateT Nat Option

/-- The number of collections that may be nested. -/
def nestingLimit : Nat := 128

/-- The node itself, or the one that an alias repeats. -/
def settle (d : Yaml.Document) : Yaml.Node → Reading Yaml.Node
  | .alias slot => fun left => match left, d.node? slot with
    | left + 1, some n => some (n, left)
    | _, _ => none
  | n => pure n

/-- The text of a scalar. -/
def readText (d : Yaml.Document) (n : Yaml.Node) : Reading String := do
  match ← settle d n with
  | .scalar s => return String.ofList s.text
  | _ => failure

/-- The text of a scalar that may be absent. -/
def readTextOrNull (d : Yaml.Document) (n : Yaml.Node) : Reading (Option String) := do
  match ← settle d n with
  | .scalar s => s.textOrNull?
  | _ => failure

/-- A truth value. -/
def readTruth (d : Yaml.Document) (n : Yaml.Node) : Reading Bool := do
  match ← settle d n with
  | .scalar s => s.truth?
  | _ => failure

/-- The entries of a mapping, with the texts of their keys. -/
def readEntries (d : Yaml.Document) (n : Yaml.Node) : Reading (List (String × Yaml.Node)) := do
  match ← settle d n with
  | .mapping _ entries => entries.mapM fun (key, v) => return (← readText d key, v)
  | .scalar s => if s.isNothing then return [] else failure
  | _ => failure

/-- The items of a sequence. -/
def readItems (d : Yaml.Document) (n : Yaml.Node) : Reading (List Yaml.Node) := do
  match ← settle d n with
  | .sequence _ items => return items
  | .scalar s => if s.isNothing then return [] else failure
  | _ => failure

/-- A value whose members are read by `inner`, without which it may not be a collection. -/
def readValueWith (d : Yaml.Document) (inner : Option (Yaml.Node → Reading Json))
    (n : Yaml.Node) : Reading Json := do
  match ← settle d n, inner with
  | .scalar s, _ => s.value?
  | .sequence tag items, some inner =>
    if Yaml.Scalar.isLocal tag then failure
    return .arr (← items.mapM inner)
  | .mapping tag entries, some inner =>
    if Yaml.Scalar.isLocal tag then failure
    let members ← entries.mapM fun (key, v) => return (← readText d key, ← inner v)
    return .object members
  | _, _ => failure

/-- A value with at most the given number of nested collections. -/
def readValue (d : Yaml.Document) : Nat → Yaml.Node → Reading Json
  | 0 => readValueWith d none
  | depth + 1 => readValueWith d (some (readValue d depth))

/-- A field, if it is there; it may not be there twice. -/
def readField {α : Type} (name : String) (value : Yaml.Node → Reading α)
    (entries : List (String × Yaml.Node)) : Reading (Option α) :=
  match entries.filter (·.1 == name) with
  | [] => pure none
  | [(_, n)] => some <$> value n
  | _ => failure

/-- Options for reading a document. -/
def readOptions (d : Yaml.Document) (n : Yaml.Node) : Reading Document.Options := do
  let entries ← readEntries d n
  let strip ← readField "strip_declarations" (readTruth d) entries
  return ⟨strip.getD Document.Options.plain.stripDeclarations⟩

/-- Parameters. -/
def readParams (d : Yaml.Document) (n : Yaml.Node) : Reading (Dict Json) := do
  let entries ← readEntries d n
  let values ← entries.mapM fun (name, v) => return (name, ← readValue d (nestingLimit - 2) v)
  return Dict.ofPairs values

/-- A selection. -/
def readSelection (d : Yaml.Document) (n : Yaml.Node) : Reading Selection := do
  let entries ← readEntries d n
  let path ← readField "path" (readText d) entries
  let output ← readField "output" (readTextOrNull d) entries
  let description ← readField "description" (readTextOrNull d) entries
  match path with
  | some path => return ⟨path, output.join, description.join⟩
  | none => failure

/-- A plan. -/
def readPlan (d : Yaml.Document) (n : Yaml.Node) : Reading Plan := do
  let entries ← readEntries d n
  let name ← readField "name" (readText d) entries
  let description ← readField "description" (readTextOrNull d) entries
  let options ← readField "options" (readOptions d) entries
  let params ← readField "params" (readParams d) entries
  let selections ← readField "selections"
    (fun n => do (← readItems d n).mapM (readSelection d)) entries
  match name, selections with
  | some name, some selections =>
    return ⟨name, description.join, options.getD .plain, params.getD Dict.empty, selections⟩
  | _, _ => failure

/-- The plan that a text writes. -/
def ofYaml? (text : String) : Option Plan :=
  (Yaml.Document.ofText? text.toList).bind fun d =>
    ((readPlan d d.root).run (100 * d.size)).map Prod.fst

end Plan

end TreeQuery

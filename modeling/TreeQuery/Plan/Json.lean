import TreeQuery.Json.Mismatch
import TreeQuery.Plan.Basic

/-!
# Plans as values

A plan, its options and its selections are written as objects with all their fields.  They are read
from objects, in which fields with a default may be absent and unknown members do not count, and
from arrays that list the fields in order.

The members of an object are read in the order of their names, so of two members of a wrong shape
the first in that order is reported; a missing field is reported only if all members are in order.
-/

namespace TreeQuery

namespace Selection

/-- The selection as an object. -/
def toJson (s : Selection) : Json := .obj [
  ("description", Json.textOrNull s.description),
  ("output", Json.textOrNull s.output),
  ("path", .str s.path)]

/-- Reads a selection. -/
def ofJson : Json → Except Json.Mismatch Selection
  | .obj members => do
    let description ← Json.readField Json.readTextOrNull (Bindings.find? "description" members)
    let output ← Json.readField Json.readTextOrNull (Bindings.find? "output" members)
    let path ← Json.readField Json.readText (Bindings.find? "path" members)
    let path ← Json.orElse (.missing "path") path
    return ⟨path, output.join, description.join⟩
  | .arr items => do
    let path ← Json.readField Json.readText items[0]?
    let path ← Json.orElse (.tooShort 0 "Selection" 3) path
    let output ← Json.readField Json.readTextOrNull items[1]?
    let description ← Json.readField Json.readTextOrNull items[2]?
    Json.noMoreThan 3 items
    return ⟨path, output.join, description.join⟩
  | v => .error (.shape v (.record "Selection"))

end Selection

namespace Document.Options

/-- The options as an object. -/
def toJson (o : Options) : Json := .obj [("strip_declarations", .bool o.stripDeclarations)]

/-- Reads options. -/
def ofJson : Json → Except Json.Mismatch Options
  | .obj members => do
    let strip ← Json.readField Json.readTruth (Bindings.find? "strip_declarations" members)
    return ⟨strip.getD Options.plain.stripDeclarations⟩
  | .arr items => do
    let strip ← Json.readField Json.readTruth items[0]?
    Json.noMoreThan 1 items
    return ⟨strip.getD Options.plain.stripDeclarations⟩
  | v => .error (.shape v (.record "ParseOptions"))

end Document.Options

namespace Plan

/-- The plan as an object. -/
def toJson (p : Plan) : Json := .obj [
  ("description", Json.textOrNull p.description),
  ("name", .str p.name),
  ("options", p.options.toJson),
  ("params", Json.ofDict p.params),
  ("selections", .arr (p.selections.map Selection.toJson))]

/-- Reads a plan. -/
def ofJson : Json → Except Json.Mismatch Plan
  | .obj members => do
    let description ← Json.readField Json.readTextOrNull (Bindings.find? "description" members)
    let name ← Json.readField Json.readText (Bindings.find? "name" members)
    let options ← Json.readField Document.Options.ofJson (Bindings.find? "options" members)
    let params ← Json.readField Json.readMap (Bindings.find? "params" members)
    let selections ←
      Json.readField (Json.readList Selection.ofJson) (Bindings.find? "selections" members)
    let name ← Json.orElse (.missing "name") name
    let selections ← Json.orElse (.missing "selections") selections
    return ⟨name, description.join, options.getD .plain, params.getD Dict.empty, selections⟩
  | .arr items => do
    let name ← Json.readField Json.readText items[0]?
    let name ← Json.orElse (.tooShort 0 "Extraction" 5) name
    let description ← Json.readField Json.readTextOrNull items[1]?
    let options ← Json.readField Document.Options.ofJson items[2]?
    let params ← Json.readField Json.readMap items[3]?
    let selections ← Json.readField (Json.readList Selection.ofJson) items[4]?
    let selections ← Json.orElse (.tooShort 4 "Extraction" 5) selections
    Json.noMoreThan 5 items
    return ⟨name, description.join, options.getD .plain, params.getD Dict.empty, selections⟩
  | v => .error (.shape v (.record "Extraction"))

end Plan

end TreeQuery

import TreeQuery.Text.Blank

/-!
# Selections

A selection asks for the texts that a path reaches.  Its path may be a template, which it is taken
for if it has an opening and a closing double brace, wherever they stand; the texts may be given a
name, under which later templates find them.
-/

namespace TreeQuery

/-- A path to evaluate, and what to do with the texts that it reaches. -/
structure Selection where
  /-- The path, or a template of it. -/
  path : String
  /-- The name of the variable that takes the texts. -/
  output : Option String
  /-- A remark for readers. -/
  description : Option String
deriving Repr, DecidableEq

namespace Selection

/-- The selection of a path, without a name or a remark. -/
def ofPath (path : String) : Selection := ⟨path, none, none⟩

/-- The selection with its texts stored under a name. -/
def into (s : Selection) (output : String) : Selection := { s with output := some output }

/-- The selection with a remark. -/
def describedAs (s : Selection) (description : String) : Selection :=
  { s with description := some description }

/-- Whether the path has to be rendered before it is used. -/
def isTemplated (s : Selection) : Bool :=
  Text.occursIn ['\x7b', '\x7b'] s.path.toList && Text.occursIn ['\x7d', '\x7d'] s.path.toList

end Selection

end TreeQuery

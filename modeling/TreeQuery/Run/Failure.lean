import TreeQuery.Path
import TreeQuery.Plan.Validity
import TreeQuery.Template.Scope

/-!
# Failures

A failure has a cause, and the stages of the work in which it came up, the outermost first.
-/

namespace TreeQuery

/-- A stage of the work on a plan. -/
inductive Stage where
  /-- Reading the document of a plan. -/
  | document (plan : String)
  /-- Evaluating a selection. -/
  | selection (index : Nat) (path : String)
  /-- Rendering a path. -/
  | template (path : String)
  /-- Reading a plan from text. -/
  | planText
  /-- Reading a file. -/
  | file (name : String)
  /-- Reading a plan from the text of a file. -/
  | planFile (name : String)
deriving Repr, DecidableEq

/-- The message of a stage. -/
def Stage.message : Stage → String
  | .document plan => "Extraction " ++ plan ++ " could not parse its document"
  | .selection index path => "Selection " ++ toString index ++ " (" ++ path ++ ") failed"
  | .template path => "Failed to render path template `" ++ path ++ "`"
  | .planText => "Failed to parse extraction YAML"
  | .file name => "Failed to read extraction file: " ++ name
  | .planFile name => "Failed to parse extraction file: " ++ name

/-- The cause of a failure. -/
inductive Cause where
  /-- The text of a document is none. -/
  | document (e : Document.Error)
  /-- The text of a path is none. -/
  | path (e : Path.Error)
  /-- A template has no text. -/
  | template (e : Template.Error)
  /-- A plan that was read is not valid. -/
  | invalid (v : Plan.Violation)
  /-- A text is no plan. -/
  | unreadable
  /-- There is no file. -/
  | noFile
  /-- The bytes of a file are no text. -/
  | notText
deriving Repr, DecidableEq

/-- A failure of the work on a plan. -/
structure Failure where
  /-- The stages, the outermost first. -/
  stages : List Stage
  /-- The cause. -/
  cause : Cause
deriving Repr, DecidableEq

/-- The failure as it came up inside of a stage. -/
def Failure.during (stage : Stage) (f : Failure) : Failure :=
  { f with stages := stage :: f.stages }

/-- A failure without stages. -/
def Failure.ofCause (cause : Cause) : Failure := ⟨[], cause⟩

end TreeQuery

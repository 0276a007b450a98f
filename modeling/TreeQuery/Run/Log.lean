/-!
# Logs

A run reports its beginning, the path and the number of texts of every selection that it makes, and
its end if it comes to it.
-/

namespace TreeQuery

namespace Log

/-- An event of a run. -/
inductive Event where
  /-- A plan of the given name begins. -/
  | started (plan : String) (selections : Nat)
  /-- A selection has a path. -/
  | evaluating (selection : Nat) (path : String)
  /-- A selection has reached texts. -/
  | completed (selection matched : Nat)
  /-- The plan has come to its end. -/
  | finished (plan : String)
deriving Repr, DecidableEq

/-- How much an event matters: only the beginning and the end of a run matter to everybody. -/
def Event.level : Event → String
  | .started _ _ => "INFO"
  | .evaluating _ _ => "DEBUG"
  | .completed _ _ => "DEBUG"
  | .finished _ => "INFO"

/-- The fields of an event. -/
def Event.fields : Event → List (String × String)
  | .started plan selections =>
    [("message", "Starting extraction"), ("extraction", plan), ("selections", toString selections)]
  | .evaluating selection path =>
    [("message", "Evaluating selection"), ("selection", toString selection), ("path", path)]
  | .completed selection matched =>
    [("message", "Selection completed"), ("selection", toString selection),
     ("matched", toString matched)]
  | .finished plan => [("message", "Extraction completed"), ("extraction", plan)]

end Log

end TreeQuery

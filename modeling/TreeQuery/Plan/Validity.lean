import TreeQuery.Plan.Basic

/-!
# Valid plans

A plan that is loaded from text must have a name, at least one selection, and a path in every
selection; a name for a result must not be empty, nor that of an earlier one.  What concerns the
plan is looked at first, then selection by selection; within a selection the path comes before the
name of its result.
-/

namespace TreeQuery

namespace Plan

/-- What is wrong with a plan. -/
inductive Violation where
  /-- The plan has no name. -/
  | emptyName
  /-- The plan selects nothing. -/
  | noSelections
  /-- The path of a selection is blank. -/
  | blankPath (index : Nat)
  /-- The name of a result is empty. -/
  | emptyOutput (index : Nat)
  /-- The name of a result is that of an earlier one. -/
  | repeatedOutput (index : Nat) (output : String)
deriving Repr, DecidableEq

/-- The message of a violation. -/
def Violation.message : Violation → String
  | .emptyName => "Extraction name cannot be empty"
  | .noSelections => "Extraction must have at least one selection"
  | .blankPath index => "Selection " ++ toString index ++ " has empty path"
  | .emptyOutput index => "Selection " ++ toString index ++ " has empty output name"
  | .repeatedOutput index output =>
    "Selection " ++ toString index ++ " reuses output name '" ++ output ++ "'"

/-- The first violation among selections, the first of which has the given index; `used` are the
names of the results before it. -/
def selectionViolation? (index : Nat) (used : List String) : List Selection → Option Violation
  | [] => none
  | s :: rest =>
    if Text.allBlank s.path.toList then some (.blankPath index)
    else match s.output with
      | none => selectionViolation? (index + 1) used rest
      | some output =>
        if output.isEmpty then some (.emptyOutput index)
        else if used.contains output then some (.repeatedOutput index output)
        else selectionViolation? (index + 1) (output :: used) rest

/-- The first violation of a plan. -/
def violation? (p : Plan) : Option Violation :=
  if p.name.isEmpty then some .emptyName
  else if p.selections.isEmpty then some .noSelections
  else selectionViolation? 0 [] p.selections

end Plan

end TreeQuery

import TreeQuery.Document
import TreeQuery.Json.Basic
import TreeQuery.Plan.Selection

/-!
# Plans

A plan is a named list of selections for one document, with the options for reading the document
and the parameters that templates can use.
-/

namespace TreeQuery

/-- A named list of selections. -/
structure Plan where
  /-- The name. -/
  name : String
  /-- A remark for readers. -/
  description : Option String
  /-- How the document is read. -/
  options : Document.Options
  /-- The values that templates can use from the beginning. -/
  params : Dict Json
  /-- The selections, in the order in which they are evaluated. -/
  selections : List Selection

namespace Plan

/-- The plan that selects nothing. -/
def new (name : String) : Plan := ⟨name, none, .plain, Dict.empty, []⟩

/-- The plan with a remark. -/
def describedAs (p : Plan) (description : String) : Plan :=
  { p with description := some description }

/-- The plan for a document whose declaration lines are dropped. -/
def stripping (p : Plan) : Plan := { p with options := .stripping }

/-- The plan with one more parameter. -/
def withParam (p : Plan) (name : String) (value : Json) : Plan :=
  { p with params := p.params.insert name value }

/-- The plan with one more selection, to be evaluated last. -/
def select (p : Plan) (s : Selection) : Plan := { p with selections := p.selections ++ [s] }

end Plan

end TreeQuery

import TreeQuery.Json.Basic
import TreeQuery.Run.Failure
import TreeQuery.Template.Render

/-!
# Contexts

While a plan runs, templates see its parameters, the results that have names, and all results so
far: the list of them as `results`, the latest as `prev`.  These two names stand for the results
whatever else is bound to them, `prev` only if there is a result.
-/

namespace TreeQuery

/-- What templates see. -/
structure Context where
  /-- The parameters and the results that have names. -/
  bound : Dict Json
  /-- The results so far, in order. -/
  results : List (List String)

namespace Context

/-- The context without results. -/
def ofParams (params : Dict Json) : Context := ⟨params, []⟩

/-- The context that has nothing. -/
def empty : Context := ofParams Dict.empty

/-- Binds a variable. -/
def set (c : Context) (name : String) (value : Json) : Context :=
  { c with bound := c.bound.insert name value }

/-- The value of a variable. -/
def get? (c : Context) (name : String) : Option Json := c.bound.find? name

/-- Adds a result. -/
def push (c : Context) (values : List String) : Context :=
  { c with results := c.results ++ [values] }

/-- The latest result. -/
def prev? (c : Context) : Option (List String) := c.results.getLast?

/-- All that templates see, as a dictionary. -/
def bindings (c : Context) : Dict Json :=
  let d := match c.prev? with
    | some values => c.bound.insert "prev" (Json.texts values)
    | none => c.bound
  d.insert "results" (.arr (c.results.map Json.texts))

/-- All that templates see, as an object. -/
def toJson (c : Context) : Json := Json.ofDict c.bindings

/-- The path that a template gives. -/
def renderPath (c : Context) (template : String) : Except Failure String :=
  match Template.render template c.toJson with
  | .ok path => .ok path
  | .error e => .error ⟨[.template template], .template e⟩

end Context

end TreeQuery

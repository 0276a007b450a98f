import TreeQuery.Query
import TreeQuery.Run.Context
import TreeQuery.Run.Log

/-!
# Running plans

A plan is run against one document.  The document is read once; then every selection, in order, has
its path rendered if it is a template, read, and evaluated, and its texts are added to the context
of the selections behind it.  The first failure ends the run.
-/

namespace TreeQuery

/-- The result of one selection. -/
structure SelectionResult where
  /-- The number of the selection, counted from zero. -/
  index : Nat
  /-- The selection. -/
  selection : Selection
  /-- The path that was evaluated. -/
  path : Path
  /-- The texts that were reached. -/
  values : List String

/-- The outcome of a run. -/
structure Outcome where
  /-- The result of every selection, in order. -/
  results : List SelectionResult
  /-- The context behind the last selection. -/
  context : Context

/-- The texts of the last selection. -/
def Outcome.values (o : Outcome) : List String := o.context.prev?.getD []

/-- The texts under a name, if the variable of that name holds nothing but texts. -/
def Outcome.output? (o : Outcome) (name : String) : Option (List String) :=
  (o.context.get? name).bind Json.texts?

/-- A run: what was reported, and how it ended. -/
structure Run where
  /-- The events, in order. -/
  log : List Log.Event
  /-- The outcome. -/
  outcome : Except Failure Outcome

namespace Plan

/-- The path of a selection in a context. -/
def pathOf (context : Context) (index : Nat) (s : Selection) : Except Failure Path :=
  let rendered := if s.isTemplated then context.renderPath s.path else .ok s.path
  match rendered with
  | .error f => .error (f.during (.selection index s.path))
  | .ok text => match Path.parse text with
    | .error e => .error ⟨[.selection index s.path], .path e⟩
    | .ok path => .ok path

/-- The context behind a selection: its texts are the latest result, and the value of its name. -/
def contextBehind (context : Context) (s : Selection) (values : List String) : Context :=
  let context := context.push values
  match s.output with
  | some name => context.set name (Json.texts values)
  | none => context

/-- Runs selections, the first of which has the given index, behind the results `done` and the
events `log`, both in reverse. -/
def runSelections (root : Node) (index : Nat) (context : Context) (done : List SelectionResult)
    (log : List Log.Event) : List Selection → List Log.Event × Except Failure Outcome
  | [] => (log, .ok ⟨done.reverse, context⟩)
  | s :: rest => match pathOf context index s with
    | .error f => (log, .error f)
    | .ok path =>
      let values := path.evaluate root
      runSelections root (index + 1) (contextBehind context s values)
        (⟨index, s, path, values⟩ :: done)
        (.completed index values.length :: .evaluating index path.display :: log) rest

/-- Runs a plan against the text of a document. -/
def run (p : Plan) (document : String) : Run :=
  let started := Log.Event.started p.name p.selections.length
  match Document.parse document p.options with
  | .error e => ⟨[started], .error ⟨[.document p.name], .document e⟩⟩
  | .ok root =>
    let (log, outcome) := runSelections root 0 (.ofParams p.params) [] [started] p.selections
    match outcome with
    | .ok o => ⟨(.finished p.name :: log).reverse, .ok o⟩
    | .error f => ⟨log.reverse, .error f⟩

end Plan

end TreeQuery

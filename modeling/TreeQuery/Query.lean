import TreeQuery.Document
import TreeQuery.Path
import TreeQuery.Query.FanOut

/-!
# Queries

A path is evaluated against a root element by following its tags below the root; the result is the
list of texts that are reached, in document order.  A query checks its path before it reads its
document, so of two faults that of the path is reported.
-/

namespace TreeQuery

namespace Query

/-- Why a query has no result. -/
inductive Error where
  /-- The text of the path is no path. -/
  | path (e : Path.Error)
  /-- The text of the document is no document. -/
  | document (e : Document.Error)
deriving Repr, DecidableEq

/-- The message of an error. -/
def Error.message : Error → String
  | .path e => e.message
  | .document e => "document parse error: " ++ e.message

/-- The texts that tags reach from an element. -/
def evaluate (root : Node) (tags : List String) : List String :=
  match descend root tags with
  | .target n => n.text.toList
  | .branch siblings residual => (fanOut #[] siblings residual).toList
  | .noMatch => []

end Query

/-- The texts that a path reaches below a root element. -/
def Path.evaluate (p : Path) (root : Node) : List String := Query.evaluate root p.segments

/-- The texts that a path reaches in a document. -/
def query (document path : String) (options : Document.Options) :
    Except Query.Error (List String) :=
  match Path.parse path with
  | .error e => .error (.path e)
  | .ok p => match Document.parse document options with
    | .error e => .error (.document e)
    | .ok root => .ok (p.evaluate root)

end TreeQuery

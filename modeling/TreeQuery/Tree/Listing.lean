import TreeQuery.Tree.Node

/-!
# Listings

The listing of a tree names its elements in document order, each with its depth, so that a parent
stands before its children and the children of one parent stand in order.  A tree is determined by
its listing, and two trees are compared through it.

The elements that are still to be listed wait on a stack; their trees get smaller with every step.
-/

namespace TreeQuery

/-- One line of a listing. -/
structure Listing.Entry where
  /-- The number of ancestors. -/
  depth : Nat
  /-- The tag of the element. -/
  tag : String
  /-- The text of the element, if it has one. -/
  text : Option String
deriving Repr, DecidableEq

namespace Node

/-- The children of an element that stands at a depth, each with its own depth. -/
def childrenBelow (depth : Nat) (n : Node) : List (Nat × Node) :=
  n.children.map ((depth + 1, ·))

theorem sizes_childrenBelow (depth : Nat) (n : Node) :
    sizes ((n.childrenBelow depth).map (·.2)) < n.size := by
  simp [childrenBelow, size_eq, Function.comp_def]

/-- Lists the waiting elements, the topmost first, behind the lines `done`. -/
def listWaiting (done : Array Listing.Entry) (waiting : List (Nat × Node)) :
    Array Listing.Entry :=
  match waiting with
  | [] => done
  | (depth, n) :: rest =>
    listWaiting (done.push ⟨depth, n.tag, n.text⟩) (n.childrenBelow depth ++ rest)
termination_by sizes (waiting.map (·.2))
decreasing_by
  have := sizes_childrenBelow depth n
  simp only [List.map_append, List.map_cons, sizes_append, sizes_cons]
  omega

/-- The listing of a tree. -/
def listing (n : Node) : List Listing.Entry := (listWaiting #[] [(0, n)]).toList

/-- Whether two trees are the same, element by element. -/
def same (a b : Node) : Bool := a.listing == b.listing

end Node

end TreeQuery

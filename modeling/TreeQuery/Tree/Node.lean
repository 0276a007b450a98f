/-!
# Elements

An element has a tag, possibly a text, and child elements in document order.  Nothing else of a
document is kept: the text of an element is the first of its runs that is not blank.
-/

namespace TreeQuery

/-- An element of a document. -/
structure Node where
  /-- The tag, as written. -/
  tag : String
  /-- The child elements, in document order. -/
  children : List Node
  /-- The text, if there is one. -/
  text : Option String
deriving Inhabited

namespace Node

/-- An element with neither children nor text. -/
def new (tag : String) : Node := ⟨tag, [], none⟩

/-- The element with its text replaced. -/
def withText (n : Node) (text : String) : Node := { n with text := some text }

/-- The element with one more child behind the others. -/
def withChild (n child : Node) : Node := { n with children := n.children ++ [child] }

/-- The children with the given tag, in document order. -/
def childrenNamed (n : Node) (name : String) : List Node := n.children.filter (·.tag == name)

mutual

/-- The number of elements in a tree. -/
def size : Node → Nat
  | ⟨_, children, _⟩ => sizes children + 1

/-- The number of elements in a list of trees. -/
def sizes : List Node → Nat
  | [] => 0
  | n :: rest => n.size + sizes rest

end

theorem size_eq (n : Node) : n.size = sizes n.children + 1 := by
  cases n
  simp [size]

@[simp] theorem sizes_nil : sizes [] = 0 := by simp [sizes]

@[simp] theorem sizes_cons (n : Node) (ns : List Node) : sizes (n :: ns) = n.size + sizes ns := by
  simp [sizes]

@[simp] theorem sizes_append (ns ms : List Node) : sizes (ns ++ ms) = sizes ns + sizes ms := by
  induction ns with
  | nil => simp
  | cons n ns ih => simp [ih, Nat.add_assoc]

end Node

end TreeQuery

import TreeQuery.Tree.Listing

/-!
# The order of a listing

A listing is made by a stack of waiting elements.  `Node.preorder` lists a tree by recursion over
it: the element, then the trees of its children, one after the other and one deeper.  The two agree
(`Node.listing_eq_preorder`).
-/

namespace TreeQuery.Node

mutual

/-- The entries of a tree whose root stands at a depth. -/
def preorder (depth : Nat) : Node → List Listing.Entry
  | ⟨tag, children, text⟩ => ⟨depth, tag, text⟩ :: preorders (depth + 1) children

/-- The entries of trees whose roots stand at a depth. -/
def preorders (depth : Nat) : List Node → List Listing.Entry
  | [] => []
  | n :: rest => n.preorder depth ++ preorders depth rest

end

theorem preorder_eq (depth : Nat) (n : Node) :
    n.preorder depth = ⟨depth, n.tag, n.text⟩ :: preorders (depth + 1) n.children := by
  cases n
  rw [preorder]

theorem preorders_nil (depth : Nat) : preorders depth [] = [] := by rw [preorders]

theorem preorders_cons (depth : Nat) (n : Node) (rest : List Node) :
    preorders depth (n :: rest) = n.preorder depth ++ preorders depth rest := by rw [preorders]

/-- The entries of waiting trees, from the top of the stack down. -/
def preorderWaiting (waiting : List (Nat × Node)) : List Listing.Entry :=
  waiting.flatMap fun w => w.2.preorder w.1

theorem preorderWaiting_children (depth : Nat) (ns : List Node) :
    preorderWaiting (ns.map ((depth, ·))) = preorders depth ns := by
  induction ns with
  | nil => rw [preorders_nil]; rfl
  | cons n rest ih =>
    rw [preorders_cons, ← ih]
    rfl

theorem listWaiting_eq (done : Array Listing.Entry) (waiting : List (Nat × Node)) :
    (listWaiting done waiting).toList = done.toList ++ preorderWaiting waiting := by
  fun_induction listWaiting done waiting with
  | case1 done => simp [preorderWaiting]
  | case2 done depth n rest ih =>
    have step : preorderWaiting ((depth, n) :: rest) =
        ⟨depth, n.tag, n.text⟩ :: preorderWaiting (n.childrenBelow depth ++ rest) := by
      rw [preorderWaiting, List.flatMap_cons, preorder_eq, ← preorderWaiting_children]
      simp [preorderWaiting, childrenBelow]
    rw [ih, step]
    simp

/-- **A listing names the elements in document order.** -/
theorem listing_eq_preorder (n : Node) : n.listing = n.preorder 0 := by
  rw [listing, listWaiting_eq]
  simp [preorderWaiting]

mutual

/-- The entries of a tree stand at the depth of its root or deeper. -/
theorem le_depth_of_mem_preorder (depth : Nat) (n : Node) :
    ∀ e ∈ n.preorder depth, depth ≤ e.depth := by
  cases n with
  | mk tag children text =>
    intro e he
    rw [preorder] at he
    rcases List.mem_cons.mp he with rfl | he
    · exact Nat.le_refl depth
    · exact Nat.le_of_succ_le (le_depth_of_mem_preorders (depth + 1) children e he)

theorem le_depth_of_mem_preorders (depth : Nat) (ns : List Node) :
    ∀ e ∈ preorders depth ns, depth ≤ e.depth := by
  cases ns with
  | nil => intro e he; rw [preorders] at he; cases he
  | cons n rest =>
    intro e he
    rw [preorders] at he
    rcases List.mem_append.mp he with he | he
    · exact le_depth_of_mem_preorder depth n e he
    · exact le_depth_of_mem_preorders depth rest e he

end

end TreeQuery.Node

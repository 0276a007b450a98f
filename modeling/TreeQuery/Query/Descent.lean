import TreeQuery.Tree.Node

/-!
# Descent

A descent follows a list of tags from an element downwards for as long as each tag belongs to
exactly one child.  It ends at a target, at a tag that no child has, or at a branch point: several
children have the tag, and each of them has the remaining tags before it.

`sizes_of_descend` says that the siblings of a branch point are together smaller than the tree
that the descent started from.
-/

namespace TreeQuery

namespace Query

/-- Where a descent ends. -/
inductive Outcome where
  /-- All tags were followed. -/
  | target (n : Node)
  /-- Several children have the next tag; the tags that remain below each of them. -/
  | branch (siblings : List Node) (residual : List String)
  /-- No child has the next tag. -/
  | noMatch

/-- Follows tags from an element. -/
def descend (n : Node) : List String → Outcome
  | [] => .target n
  | tag :: rest => match n.childrenNamed tag with
    | [] => .noMatch
    | [child] => descend child rest
    | siblings => .branch siblings rest

theorem sizes_filter_le (p : Node → Bool) (ns : List Node) :
    Node.sizes (ns.filter p) ≤ Node.sizes ns := by
  induction ns with
  | nil => simp
  | cons n ns ih =>
    by_cases h : p n
    · simpa [h] using ih
    · simp only [List.filter_cons_of_neg h, Node.sizes_cons]
      omega

theorem sizes_childrenNamed_lt (n : Node) (tag : String) :
    Node.sizes (n.childrenNamed tag) < n.size := by
  have := sizes_filter_le (·.tag == tag) n.children
  rw [Node.size_eq]
  exact Nat.lt_succ_of_le this

/-- The siblings of a branch point are disjoint parts of the tree. -/
theorem sizes_of_descend {n : Node} {tags : List String} {siblings : List Node}
    {residual : List String} (h : descend n tags = .branch siblings residual) :
    Node.sizes siblings < n.size := by
  induction tags generalizing n with
  | nil => simp [descend] at h
  | cons tag rest ih =>
    have lt := sizes_childrenNamed_lt n tag
    simp only [descend] at h
    split at h
    · simp at h
    · next child eq =>
      simp only [eq, Node.sizes_cons, Node.sizes_nil] at lt
      exact Nat.lt_of_lt_of_le (ih h) (by omega)
    · simp only [Outcome.branch.injEq] at h
      exact h.1 ▸ lt

end Query

end TreeQuery

import TreeQuery.Query.Descent

/-!
# Fan-out

At a branch point the remaining tags are followed under each sibling by itself, and the texts that
are reached are listed in document order; siblings under which nothing is reached drop out.  A
sibling may branch again.  The elements that are still to be followed wait on a stack, the first
in document order on top.
-/

namespace TreeQuery

namespace Query

/-- The texts that are reached from the waiting elements, each along its own tags, behind the
texts `found`. -/
def followWaiting (found : Array String) (waiting : List (Node × List String)) : Array String :=
  match waiting with
  | [] => found
  | (n, tags) :: rest => match _h : descend n tags with
    | .target target => match target.text with
      | some text => followWaiting (found.push text) rest
      | none => followWaiting found rest
    | .branch siblings residual =>
      followWaiting found (siblings.map ((·, residual)) ++ rest)
    | .noMatch => followWaiting found rest
termination_by Node.sizes (waiting.map (·.1))
decreasing_by
  all_goals have pos : 0 < n.size := by rw [Node.size_eq]; omega
  · simp only [List.map_cons, Node.sizes_cons]; omega
  · simp only [List.map_cons, Node.sizes_cons]; omega
  · have lt : Node.sizes siblings < n.size := sizes_of_descend _h
    simp only [List.map_append, List.map_map, Node.sizes_append, List.map_cons, Node.sizes_cons,
      Function.comp_def, List.map_id']
    omega
  · simp only [List.map_cons, Node.sizes_cons]; omega

/-- The texts that are reached from siblings along the remaining tags, behind the texts `found`.
Without remaining tags they are the texts of the siblings themselves. -/
def fanOut (found : Array String) (siblings : List Node) (residual : List String) :
    Array String :=
  if residual.isEmpty then found ++ siblings.filterMap (·.text)
  else followWaiting found (siblings.map ((·, residual)))

end Query

end TreeQuery

import Mathlib.Data.List.Sort
import TreeQuery.Proofs.Tree.Preorder

/-!
# Places in a tree

Two elements of a tree can be alike, so what tells them apart is where they stand.  A place is the
list of the numbers of children that lead to it from the root (`Node.at?`).  `Node.placed` lists the
elements of a tree in document order, as its listing does (`listing_eq_map_placed`), but with their
places; and these are in lexicographic order (`placed_sorted`).

What lies below a place has a place that begins with it.  Two places part where the next child is
another one (`Parts`): then the one whose child comes first lies before the other, nothing lies
below both, and the same holds of what lies below them.  The children of an element that stands in
a tree (`Located`) part in this way.
-/

namespace TreeQuery

namespace Node

/-- The element at a place. -/
def at? (n : Node) : List Nat → Option Node
  | [] => some n
  | i :: place => n.children[i]?.bind (·.at? place)

theorem at?_append (n : Node) (above below : List Nat) :
    n.at? (above ++ below) = (n.at? above).bind (·.at? below) := by
  induction above generalizing n with
  | nil => rfl
  | cons i above ih =>
    rw [List.cons_append, at?, at?]
    cases n.children[i]? with
    | none => rfl
    | some child => exact ih child

mutual

/-- The elements of a tree in document order, each with its place; the root stands at `above`. -/
def placed (above : List Nat) : Node → List (List Nat × Node)
  | ⟨tag, children, text⟩ => (above, ⟨tag, children, text⟩) :: placedFrom above 0 children

/-- The elements of the trees of siblings that stand below `above` and are numbered from `i` on. -/
def placedFrom (above : List Nat) (i : Nat) : List Node → List (List Nat × Node)
  | [] => []
  | n :: rest => n.placed (above ++ [i]) ++ placedFrom above (i + 1) rest

end

/-- The places of a tree in document order. -/
def places (n : Node) : List (List Nat) := (n.placed []).map (·.1)

mutual

theorem preorder_eq_map_placed (above : List Nat) (n : Node) :
    n.preorder above.length =
      (n.placed above).map fun w => ⟨w.1.length, w.2.tag, w.2.text⟩ := by
  cases n with
  | mk tag children text =>
    rw [preorder, placed, List.map_cons, preorders_eq_map_placedFrom above 0 children]

theorem preorders_eq_map_placedFrom (above : List Nat) (i : Nat) (ns : List Node) :
    preorders (above.length + 1) ns =
      (placedFrom above i ns).map fun w => ⟨w.1.length, w.2.tag, w.2.text⟩ := by
  cases ns with
  | nil => rw [preorders, placedFrom, List.map_nil]
  | cons n rest =>
    have first := preorder_eq_map_placed (above ++ [i]) n
    rw [List.length_append, List.length_singleton] at first
    rw [preorders, placedFrom, List.map_append, first,
      preorders_eq_map_placedFrom above (i + 1) rest]

end

/-- **Elements and their places are in the order of the listing.** -/
theorem listing_eq_map_placed (n : Node) :
    n.listing = (n.placed []).map fun w => ⟨w.1.length, w.2.tag, w.2.text⟩ := by
  rw [listing_eq_preorder]
  exact preorder_eq_map_placed [] n

mutual

/-- The elements that are listed are those that stand somewhere in the tree. -/
theorem mem_placed {above place : List Nat} {m : Node} (n : Node) :
    (place, m) ∈ n.placed above ↔ ∃ below, place = above ++ below ∧ n.at? below = some m := by
  cases n with
  | mk tag children text =>
    rw [placed, List.mem_cons, mem_placedFrom children]
    constructor
    · rintro (⟨⟨⟩⟩ | ⟨k, n, below, here, found, rfl⟩)
      · exact ⟨[], (List.append_nil _).symm, rfl⟩
      · refine ⟨k :: below, by rw [Nat.zero_add], ?_⟩
        rw [at?, here]
        exact found
    · rintro ⟨below, rfl, found⟩
      cases below with
      | nil =>
        cases found
        exact .inl (by rw [List.append_nil])
      | cons k below =>
        obtain ⟨n, here, found⟩ := Option.bind_eq_some_iff.mp found
        exact .inr ⟨k, n, below, here, found, by rw [Nat.zero_add]⟩

theorem mem_placedFrom {above place : List Nat} {i : Nat} {m : Node} (ns : List Node) :
    (place, m) ∈ placedFrom above i ns ↔ ∃ k n below,
      ns[k]? = some n ∧ n.at? below = some m ∧ place = above ++ (i + k) :: below := by
  cases ns with
  | nil => simp [placedFrom]
  | cons n rest =>
    rw [placedFrom, List.mem_append, mem_placed n, mem_placedFrom rest]
    constructor
    · rintro (⟨below, rfl, found⟩ | ⟨k, n', below, here, found, rfl⟩)
      · exact ⟨0, n, below, rfl, found, by simp⟩
      · exact ⟨k + 1, n', below, here, found, by rw [Nat.add_assoc, Nat.add_comm 1]⟩
    · rintro ⟨k, n', below, here, found, rfl⟩
      cases k with
      | zero =>
        cases here
        exact .inl ⟨below, by simp, found⟩
      | succ k =>
        exact .inr ⟨k, n', below, here, found, by rw [Nat.add_assoc, Nat.add_comm 1]⟩

end

theorem mem_places {n : Node} {place : List Nat} :
    place ∈ n.places ↔ ∃ m, n.at? place = some m := by
  simp [places, mem_placed]

/-- What lies below a place comes behind it. -/
theorem lt_append_cons (place : List Nat) (i : Nat) (below : List Nat) :
    place < place ++ i :: below := by
  have here : place ++ [] < place ++ i :: below := List.append_left_lt (List.nil_lt_cons i below)
  rwa [List.append_nil] at here

mutual

/-- **Document order is the lexicographic order of places.** -/
theorem placed_sorted (above : List Nat) (n : Node) :
    (n.placed above).Pairwise fun v w => v.1 < w.1 := by
  cases n with
  | mk tag children text =>
    rw [placed, List.pairwise_cons]
    refine ⟨fun ⟨place, m⟩ mem => ?_, placedFrom_sorted above 0 children⟩
    obtain ⟨k, n, below, -, -, rfl⟩ := (mem_placedFrom children).mp mem
    exact lt_append_cons above (0 + k) below

theorem placedFrom_sorted (above : List Nat) (i : Nat) (ns : List Node) :
    (placedFrom above i ns).Pairwise fun v w => v.1 < w.1 := by
  cases ns with
  | nil =>
    rw [placedFrom]
    exact .nil
  | cons n rest =>
    rw [placedFrom, List.pairwise_append]
    refine ⟨placed_sorted (above ++ [i]) n, placedFrom_sorted above (i + 1) rest,
      fun ⟨place, m⟩ mem ⟨place', m'⟩ mem' => ?_⟩
    obtain ⟨below, rfl, -⟩ := (mem_placed n).mp mem
    obtain ⟨k, n', below', -, -, rfl⟩ := (mem_placedFrom rest).mp mem'
    rw [List.append_assoc]
    exact List.append_left_lt (List.cons_lt_cons_iff.mpr (.inl (by omega)))

end

theorem places_sorted (n : Node) : n.places.Pairwise (· < ·) :=
  List.pairwise_map.mpr (placed_sorted [] n)

/-- Places that stand in lexicographic order stand in document order. -/
theorem sublist_places {n : Node} {ps : List (List Nat)} (sorted : ps.Pairwise (· < ·))
    (stand : ∀ place ∈ ps, ∃ m, n.at? place = some m) : ps.Sublist n.places := by
  have distinct : ps.Nodup := sorted.nodup
  have among : ps ⊆ n.places := fun place mem => mem_places.mpr (stand place mem)
  exact List.sublist_of_subperm_of_pairwise (List.subperm_of_subset distinct among) sorted
    n.places_sorted

end Node

/-! ## Places that part -/

/-- Whether two places part at different children, the first of them at the earlier child. -/
inductive Parts : List Nat → List Nat → Prop where
  | here {i j : Nat} (p q : List Nat) : i < j → Parts (i :: p) (j :: q)
  | deeper {p q : List Nat} (i : Nat) : Parts p q → Parts (i :: p) (i :: q)

namespace Parts

variable {p q : List Nat}

theorem lt (h : Parts p q) : p < q := by
  induction h with
  | here p q first => exact List.cons_lt_cons_iff.mpr (.inl first)
  | deeper i _ ih => exact List.cons_lt_cons_iff.mpr (.inr ⟨rfl, ih⟩)

/-- What lies below places that part, parts there too. -/
theorem extend (h : Parts p q) (p' q' : List Nat) : Parts (p ++ p') (q ++ q') := by
  induction h with
  | here p q first => exact .here _ _ first
  | deeper i _ ih => exact .deeper i ih

theorem behind (above : List Nat) (h : Parts p q) : Parts (above ++ p) (above ++ q) := by
  induction above with
  | nil => exact h
  | cons i above ih => exact .deeper i ih

/-- Nothing lies below two places that part. -/
theorem disjoint (h : Parts p q) {place : List Nat} (mem : p <+: place) : ¬ q <+: place := by
  rintro ⟨q', rfl⟩
  obtain ⟨p', same⟩ := mem
  have before : p ++ p' < q ++ q' := (h.extend p' q').lt
  exact List.lt_irrefl _ (same ▸ before)

end Parts

/-! ## Elements that stand somewhere -/

/-- An element of a tree, and where it stands. -/
structure Located (root : Node) where
  /-- Its place. -/
  place : List Nat
  /-- The element. -/
  node : Node
  /-- The element stands at this place. -/
  stands : root.at? place = some node

namespace Located

variable {root : Node} {a b c : Located root} {tags : List String}

/-- The root of a tree. -/
def top (root : Node) : Located root := ⟨[], root, rfl⟩

/-- A child stands one number further down. -/
def child (a : Located root) (i : Fin a.node.children.length) : Located root where
  place := a.place ++ [i.val]
  node := a.node.children[i]
  stands := by
    rw [Node.at?_append, a.stands, Option.bind_some, Node.at?, Fin.getElem_fin,
      List.getElem?_eq_getElem i.isLt]
    rfl

/-- The children of an element, in document order. -/
def children (a : Located root) : List (Located root) := List.ofFn a.child

theorem map_node_children (a : Located root) : a.children.map (·.node) = a.node.children := by
  rw [children, List.map_ofFn]
  exact List.ofFn_getElem

/-- The children with the given tag, in document order. -/
def childrenNamed (a : Located root) (tag : String) : List (Located root) :=
  a.children.filter (·.node.tag == tag)

theorem map_node_childrenNamed (a : Located root) (tag : String) :
    (a.childrenNamed tag).map (·.node) = a.node.childrenNamed tag := by
  rw [childrenNamed, Node.childrenNamed, ← map_node_children, List.filter_map]
  rfl

theorem parts_children (a : Located root) :
    a.children.Pairwise fun b c => Parts b.place c.place :=
  List.pairwise_ofFn.mpr fun _ _ before => (Parts.here [] [] before).behind a.place

/-- Whether tags lead from an element down to another, a child with the next tag each time. -/
inductive Leads : Located root → List String → Located root → Prop where
  | stay (a : Located root) : Leads a [] a
  | down {a b c : Located root} {tags : List String} :
    b ∈ a.children → Leads b tags c → Leads a (b.node.tag :: tags) c

theorem Leads.trans {tags' : List String} (h : a.Leads tags b) (h' : b.Leads tags' c) :
    a.Leads (tags ++ tags') c := by
  induction h with
  | stay a => exact h'
  | down child _ ih => exact .down child (ih h')

/-- What tags lead to lies below. -/
theorem Leads.exists_place (h : a.Leads tags b) : ∃ way, b.place = a.place ++ way := by
  induction h with
  | stay a => exact ⟨[], (List.append_nil _).symm⟩
  | @down a b c tags child _ ih =>
    obtain ⟨i, rfl⟩ := List.mem_ofFn.mp child
    obtain ⟨way, place⟩ := ih
    exact ⟨i.val :: way, by rw [place, Located.child, List.append_assoc, List.singleton_append]⟩

end Located

end TreeQuery

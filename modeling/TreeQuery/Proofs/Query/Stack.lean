import TreeQuery.Proofs.Loop
import TreeQuery.Proofs.Query.Selection
import TreeQuery.Proofs.Tree.Place

/-!
# The stack of waiting elements

Following waiting elements is a loop: each turn takes the topmost one off the stack, and puts the
siblings of a further branch point in its place (`turn`, `followWaiting_eq_turn`).  The stack need
not get lower by that, but the trees of the waiting elements together get smaller
(`sizes_of_turn`).

What happens on the stack is said of elements with their places (`State`), on which the same loop
runs (`State.turn_forget`).  The invariant is `State.Orderly`.  What is put on the stack lies below
the element that was taken from it, and the places of siblings part; so the places that were taken
and those that wait are always one list in document order, in which no place stands twice.
-/

namespace TreeQuery

open Loop (After)

namespace Query

/-! ## The loop -/

/-- One turn of following: the texts found and the waiting elements behind it, or the result. -/
def turn : Array String × List (Node × List String) →
    (Array String × List (Node × List String)) ⊕ Array String
  | (found, []) => .inr found
  | (found, (n, tags) :: rest) => match descend n tags with
    | .target target => match target.text with
      | some text => .inl (found.push text, rest)
      | none => .inl (found, rest)
    | .branch siblings residual => .inl (found, siblings.map ((·, residual)) ++ rest)
    | .noMatch => .inl (found, rest)

/-- Following is nothing but these turns. -/
theorem followWaiting_eq_turn (found : Array String) (waiting : List (Node × List String)) :
    followWaiting found waiting =
      (turn (found, waiting)).elim (fun t => followWaiting t.1 t.2) id := by
  cases waiting with
  | nil => rw [followWaiting, turn, Sum.elim_inr, id]
  | cons w rest =>
    obtain ⟨n, tags⟩ := w
    rw [followWaiting, turn]
    split
    · next target ends =>
      simp only [ends]
      cases target.text <;> rfl
    · next siblings residual ends => simp only [ends, Sum.elim_inl]
    · next ends => simp only [ends, Sum.elim_inl]

/-- **Every turn takes away from the trees of the waiting elements.** -/
theorem sizes_of_turn {s t : Array String × List (Node × List String)} (h : turn s = .inl t) :
    Node.sizes (t.2.map (·.1)) < Node.sizes (s.2.map (·.1)) := by
  obtain ⟨found, _ | ⟨⟨n, tags⟩, rest⟩⟩ := s
  · cases h
  · have some : 0 < n.size := by rw [Node.size_eq]; exact Nat.succ_pos _
    have dropped : Node.sizes (rest.map (·.1)) < Node.sizes (((n, tags) :: rest).map (·.1)) := by
      simp only [List.map_cons, Node.sizes_cons]
      omega
    rw [turn] at h
    cases ends : descend n tags with
    | target target =>
      rw [ends] at h
      dsimp only at h
      split at h <;> cases h <;> exact dropped
    | branch siblings residual =>
      rw [ends] at h
      cases h
      have smaller : Node.sizes siblings < n.size := sizes_of_descend ends
      have map : (siblings.map ((·, residual))).map (·.1) = siblings := by
        simp [Function.comp_def]
      simp only [List.map_append, map, List.map_cons, Node.sizes_append, Node.sizes_cons]
      omega
    | noMatch =>
      rw [ends] at h
      cases h
      exact dropped

/-! ## The loop on elements with their places -/

variable {root : Node} {a : Located root} {tags residual : List String}
  {siblings : List (Located root)}

/-- Where a descent ends, with the places of the elements. -/
inductive Landing (root : Node) where
  /-- All tags were followed. -/
  | target (a : Located root)
  /-- Several children have the next tag; the tags that remain below each of them. -/
  | branch (siblings : List (Located root)) (residual : List String)
  /-- No child has the next tag. -/
  | noMatch

/-- Where a descent ends, without the places. -/
def Landing.forget : Landing root → Outcome
  | .target a => .target a.node
  | .branch siblings residual => .branch (siblings.map (·.node)) residual
  | .noMatch => .noMatch

/-- Follows tags from an element that stands in a tree. -/
def landing (a : Located root) : List String → Landing root
  | [] => .target a
  | tag :: rest => match a.childrenNamed tag with
    | [] => .noMatch
    | [child] => landing child rest
    | siblings => .branch siblings rest

theorem forget_landing (a : Located root) (tags : List String) :
    (landing a tags).forget = descend a.node tags := by
  induction tags generalizing a with
  | nil => rfl
  | cons tag rest ih =>
    rw [landing, descend, ← a.map_node_childrenNamed]
    cases a.childrenNamed tag with
    | nil => rfl
    | cons first others =>
      cases others with
      | nil => exact ih first
      | cons second others => rfl

/-- The siblings of a branch point are children of an element that tags lead to. -/
theorem exists_of_landing (h : landing a tags = .branch siblings residual) :
    ∃ parent missing tag, a.Leads missing parent ∧ siblings = parent.childrenNamed tag ∧
      tags = missing ++ tag :: residual := by
  induction tags generalizing a with
  | nil => cases h
  | cons tag rest ih =>
    rw [landing] at h
    split at h
    · cases h
    · next child one =>
      have mem : child ∈ a.childrenNamed tag := one ▸ List.mem_singleton_self child
      obtain ⟨among, named⟩ := List.mem_filter.mp mem
      obtain rfl : child.node.tag = tag := eq_of_beq named
      obtain ⟨parent, missing, tag', leads, rfl, rfl⟩ := ih h
      exact ⟨parent, _, tag', .down among leads, rfl, rfl⟩
    · cases h
      exact ⟨a, [], tag, .stay a, rfl, rfl⟩

/-- Where following stands, with the places of the waiting elements. -/
structure State (root : Node) where
  /-- The texts found so far. -/
  found : Array String
  /-- The elements that wait, the topmost first, each with the tags to follow from it. -/
  waiting : List (Located root × List String)
  /-- The places of all elements that were ever put on the stack, the last one first. -/
  pushed : List (List Nat)

namespace State

/-- Puts siblings on the stack, the first one on top. -/
def push (s : State root) (siblings : List (Located root)) (residual : List String) : State root :=
  { s with
    waiting := siblings.map ((·, residual)) ++ s.waiting
    pushed := siblings.map (·.place) ++ s.pushed }

/-- Nothing waits but siblings. -/
def start (found : Array String) (siblings : List (Located root)) (residual : List String) :
    State root :=
  push ⟨found, [], []⟩ siblings residual

/-- The places of the waiting elements, from the top down. -/
def places (s : State root) : List (List Nat) := s.waiting.map (·.1.place)

/-- The state of the loop itself. -/
def forget (s : State root) : Array String × List (Node × List String) :=
  (s.found, s.waiting.map fun w => (w.1.node, w.2))

/-- One turn of following, on elements with their places. -/
def turn (s : State root) : State root ⊕ Array String :=
  match s.waiting with
  | [] => .inr s.found
  | (a, tags) :: rest =>
    let left := { s with waiting := rest }
    match landing a tags with
    | .target target => match target.node.text with
      | some text => .inl { left with found := s.found.push text }
      | none => .inl left
    | .branch siblings residual => .inl (left.push siblings residual)
    | .noMatch => .inl left

variable {s t : State root}

theorem forget_push (s : State root) (siblings : List (Located root)) (residual : List String) :
    (s.push siblings residual).forget =
      (s.found, (siblings.map (·.node)).map ((·, residual)) ++ s.forget.2) := by
  simp [push, forget]

/-- **Without the places it is the same loop.** -/
theorem turn_forget (s : State root) : Query.turn s.forget = s.turn.map forget id := by
  obtain ⟨found, _ | ⟨⟨a, tags⟩, rest⟩, pushed⟩ := s
  · rfl
  · have same := forget_landing a tags
    rw [forget, List.map_cons, Query.turn, ← same, turn]
    dsimp only
    cases landing a tags with
    | target target =>
      simp only [Landing.forget]
      cases target.node.text <;> rfl
    | branch siblings residual =>
      exact congrArg Sum.inl (forget_push ⟨found, rest, pushed⟩ siblings residual).symm
    | noMatch => rfl

theorem forget_of_turn (h : s.turn = .inl t) : Query.turn s.forget = .inl t.forget := by
  rw [turn_forget, h, Sum.map_inl]

/-- Whether waiting elements can stand in the place of one that waited with `tags`: they lie below
it, in document order, and wait with what is left of the tags when others have led to them. -/
structure Replaces (a : Located root) (tags : List String)
    (below : List (Located root × List String)) : Prop where
  parted : (below.map (·.1.place)).Pairwise Parts
  deeper : ∀ w ∈ below, ∃ i way, w.1.place = a.place ++ i :: way
  led : ∀ w ∈ below, ∃ missing, a.Leads missing w.1 ∧ tags = missing ++ w.2

theorem replaces_nil (a : Located root) (tags : List String) : Replaces a tags [] :=
  ⟨.nil, nofun, nofun⟩

theorem replaces_branch (h : landing a tags = .branch siblings residual) :
    Replaces a tags (siblings.map ((·, residual))) := by
  obtain ⟨parent, missing, tag, leads, rfl, rfl⟩ := exists_of_landing h
  obtain ⟨above, place⟩ := leads.exists_place
  have within : ∀ w ∈ (parent.childrenNamed tag).map ((·, residual)),
      w.1 ∈ parent.children ∧ w.1.node.tag = tag ∧ w.2 = residual := by
    intro w mem
    obtain ⟨b, among, rfl⟩ := List.mem_map.mp mem
    obtain ⟨child, named⟩ := List.mem_filter.mp among
    exact ⟨child, eq_of_beq named, rfl⟩
  refine ⟨?_, fun w mem => ?_, fun w mem => ?_⟩
  · rw [List.map_map]
    exact List.pairwise_map.mpr (parent.parts_children.filter _)
  · obtain ⟨child, -, -⟩ := within w mem
    obtain ⟨i, same⟩ := List.mem_ofFn.mp child
    have deeper : ∃ j way, above ++ [i.val] = j :: way :=
      List.exists_cons_of_ne_nil (List.append_ne_nil_of_right_ne_nil above (List.cons_ne_nil _ _))
    obtain ⟨j, way, eq⟩ := deeper
    refine ⟨j, way, ?_⟩
    rw [← same, ← eq, ← List.append_assoc, ← place]
    rfl
  · obtain ⟨child, named, left⟩ := within w mem
    refine ⟨missing ++ [tag], leads.trans (named ▸ .down child (.stay w.1)), ?_⟩
    rw [left, List.append_assoc, List.singleton_append]

namespace Replaces

variable {below : List (Located root × List String)} {p q : List Nat}

/-- What takes the place of an element comes behind it. -/
theorem place_lt (made : Replaces a tags below) (mem : p ∈ below.map (·.1.place)) :
    a.place < p := by
  obtain ⟨w, among, rfl⟩ := List.mem_map.mp mem
  obtain ⟨i, way, place⟩ := made.deeper w among
  rw [place]
  exact Node.lt_append_cons a.place i way

/-- What takes the place of an element parts from what the element parts from. -/
theorem parts (made : Replaces a tags below) (mem : p ∈ below.map (·.1.place))
    (aside : Parts a.place q) : Parts p q := by
  obtain ⟨w, among, rfl⟩ := List.mem_map.mp mem
  obtain ⟨i, way, place⟩ := made.deeper w among
  rw [place, ← List.append_nil q]
  exact aside.extend _ []

end Replaces

/-- What one turn does: the topmost element is taken from the stack and others are put in its place,
and texts are added behind those that were found. -/
theorem exists_of_turn (h : s.turn = .inl t) :
    ∃ a tags rest below texts, s.waiting = (a, tags) :: rest ∧ t.waiting = below ++ rest ∧
      t.pushed = below.map (·.1.place) ++ s.pushed ∧ t.found.toList = s.found.toList ++ texts ∧
      Replaces a tags below := by
  unfold turn at h
  split at h
  · cases h
  · next a tags rest top =>
    refine ⟨a, tags, rest, ?_⟩
    dsimp only at h
    split at h
    · split at h
      · next text _ =>
        cases h
        exact ⟨[], [text], top, rfl, rfl, Array.toList_push, replaces_nil a tags⟩
      · cases h
        exact ⟨[], [], top, rfl, rfl, (List.append_nil _).symm, replaces_nil a tags⟩
    · next siblings residual ends =>
      cases h
      refine ⟨_, [], top, rfl, ?_, (List.append_nil _).symm, replaces_branch ends⟩
      rw [List.map_map]
      rfl
    · cases h
      exact ⟨[], [], top, rfl, rfl, (List.append_nil _).symm, replaces_nil a tags⟩

/-- The invariant of following siblings along remaining tags. -/
structure Orderly (siblings : List (Located root)) (residual : List String) (s : State root) :
    Prop where
  /-- What was put on the stack was taken from it or waits, and is in document order. -/
  ordered : ∃ taken : List (List Nat), s.pushed.Perm (taken ++ s.places) ∧
    (taken ++ s.places).Pairwise (· < ·)
  /-- The places of the waiting elements part. -/
  parted : s.places.Pairwise Parts
  /-- The tags that an element no longer waits with lead to it from its sibling. -/
  led : ∀ w ∈ s.waiting, ∃ sibling ∈ siblings, ∃ missing, sibling.Leads missing w.1 ∧
    residual = missing ++ w.2

theorem orderly_start (found : Array String) (residual : List String)
    (parted : (siblings.map (·.place)).Pairwise Parts) :
    (start found siblings residual).Orderly siblings residual := by
  have places : (start found siblings residual).places = siblings.map (·.place) := by
    simp [State.places, start, push, Function.comp_def]
  refine ⟨⟨[], ?_, ?_⟩, ?_, fun w mem => ?_⟩
  · rw [List.nil_append, places, start, push]
    exact List.Perm.of_eq (List.append_nil _)
  · rw [List.nil_append, places]
    exact parted.imp Parts.lt
  · rw [places]
    exact parted
  · rw [start, push, List.append_nil] at mem
    obtain ⟨sibling, among, rfl⟩ := List.mem_map.mp mem
    exact ⟨sibling, among, [], .stay sibling, rfl⟩

/-- Places remain in order when those behind one of them are replaced by others behind it. -/
theorem pairwise_replace {taken rest others : List (List Nat)} {p : List Nat}
    (sorted : (taken ++ p :: rest).Pairwise (· < ·)) (ahead : ∀ q ∈ others, p < q)
    (sorted' : others.Pairwise (· < ·)) : (taken ++ [p] ++ others).Pairwise (· < ·) := by
  obtain ⟨before, -, across⟩ := List.pairwise_append.mp sorted
  have behind : ∀ o ∈ taken, o < p := fun o mem => across o mem p List.mem_cons_self
  rw [List.append_assoc, List.singleton_append, List.pairwise_append, List.pairwise_cons]
  refine ⟨before, ⟨ahead, sorted'⟩, fun o mem q mem' => ?_⟩
  rcases List.mem_cons.mp mem' with rfl | mem'
  · exact behind o mem
  · exact List.lt_trans (behind o mem) (ahead q mem')

/-- **One turn keeps the stack orderly.** -/
theorem orderly_turn (orderly : s.Orderly siblings residual) (h : s.turn = .inl t) :
    t.Orderly siblings residual := by
  obtain ⟨a, tags, rest, below, texts, top, waiting, pushed, -, made⟩ := exists_of_turn h
  obtain ⟨⟨taken, same, sorted⟩, parted, led⟩ := orderly
  have before : s.places = a.place :: rest.map (·.1.place) := by rw [places, top, List.map_cons]
  have after : t.places = below.map (·.1.place) ++ rest.map (·.1.place) := by
    rw [places, waiting, List.map_append]
  rw [before] at same sorted parted
  obtain ⟨aside, others⟩ := List.pairwise_cons.mp parted
  have parted' : t.places.Pairwise Parts := by
    rw [after, List.pairwise_append]
    exact ⟨made.parted, others, fun p mem q mem' => made.parts mem (aside q mem')⟩
  have ahead : ∀ q ∈ t.places, a.place < q := by
    intro q mem
    rw [after] at mem
    rcases List.mem_append.mp mem with mem | mem
    · exact made.place_lt mem
    · exact (aside q mem).lt
  refine ⟨⟨taken ++ [a.place], ?_, pairwise_replace sorted ahead (parted'.imp Parts.lt)⟩, parted',
    fun w mem => ?_⟩
  · rw [pushed, after]
    refine (same.append_left _).trans ?_
    rw [← List.singleton_append, ← List.append_assoc taken]
    exact List.perm_append_comm_assoc _ _ _
  · rw [waiting] at mem
    rw [top] at led
    rcases List.mem_append.mp mem with mem | mem
    · -- The tags that led to the element taken, then those that led on from it.
      obtain ⟨missing', leads', rfl⟩ := made.led w mem
      obtain ⟨sibling, among, missing, leads, split⟩ := led _ List.mem_cons_self
      refine ⟨sibling, among, missing ++ missing', leads.trans leads', ?_⟩
      rw [split, List.append_assoc]
    · exact led w (List.mem_cons_of_mem _ mem)

theorem Orderly.nodup (orderly : s.Orderly siblings residual) : s.pushed.Nodup := by
  obtain ⟨taken, same, sorted⟩ := orderly.ordered
  exact same.nodup_iff.mpr sorted.nodup

/-- The waiting elements stand in document order. -/
theorem Orderly.sublist_places (orderly : s.Orderly siblings residual) :
    s.places.Sublist root.places := by
  refine Node.sublist_places (orderly.parted.imp Parts.lt) fun place mem => ?_
  obtain ⟨w, -, rfl⟩ := List.mem_map.mp mem
  exact ⟨w.1.node, w.1.stands⟩

end State

open State (start)

/-- Following ends, with what the stack reaches. -/
theorem exists_end (s : State root) :
    ∃ n last, n ≤ Node.sizes (s.forget.2.map (·.1)) ∧ After State.turn n s last ∧
      last.turn = .inr (followWaiting s.forget.1 s.forget.2) := by
  refine Loop.exists_end (fun s : State root => Node.sizes (s.forget.2.map (·.1)))
    (fun s => followWaiting s.forget.1 s.forget.2) (fun s t goes => ?_) (fun s => ?_) s
  · exact sizes_of_turn (State.forget_of_turn goes)
  · rw [followWaiting_eq_turn s.forget.1, s.turn_forget, Sum.elim_map]
    rfl

/-- **The stack of a fan-out.**  Siblings are some of the children of an element of a tree, in their
order; each is followed along the same tags.  The loop ends, after no more turns than there are
elements in the trees of the siblings, and has then found what the fan-out finds.

In whatever state it is: without the places it is the loop of the fan-out after as many turns; texts
are only added, behind those that were found before; no place was put on the stack twice; the
elements that wait stand in document order from the top of the stack down, and nothing lies below
two of them; and each waits with the tags that are left when those before them lead to it from one
of the siblings. -/
theorem fanOut_stack {root : Node} (parent : Located root) {siblings : List (Located root)}
    (given : siblings.Sublist parent.children) (residual : List String) (found : Array String) :
    (∀ texts waiting, followWaiting texts waiting =
      (turn (texts, waiting)).elim (fun t => followWaiting t.1 t.2) id) ∧
    (∃ n last, n ≤ Node.sizes (siblings.map (·.node)) ∧
      After State.turn n (start found siblings residual) last ∧
      last.turn = .inr (fanOut found (siblings.map (·.node)) residual)) ∧
    ∀ n s, After State.turn n (start found siblings residual) s →
      After turn n (found, siblings.map fun a => (a.node, residual)) s.forget ∧
      (∀ m t, After State.turn m s t → s.found.toList <+: t.found.toList) ∧
      s.pushed.Nodup ∧
      s.places.Sublist root.places ∧
      s.places.Pairwise (fun p q => ∀ place, p <+: place → ¬ q <+: place) ∧
      ∀ w ∈ s.waiting, ∃ sibling ∈ siblings, ∃ missing, sibling.Leads missing w.1 ∧
        residual = missing ++ w.2 := by
  have parted : (siblings.map (·.place)).Pairwise Parts :=
    List.pairwise_map.mpr (parent.parts_children.sublist given)
  have forgotten : (start found siblings residual).forget =
      (found, siblings.map fun a => (a.node, residual)) := by
    simp [start, State.push, State.forget, Function.comp_def]
  refine ⟨followWaiting_eq_turn, ?_, fun n s after => ?_⟩
  · obtain ⟨n, last, bound, after, ended⟩ := exists_end (start found siblings residual)
    have result : followWaiting found (siblings.map fun a => (a.node, residual)) =
        fanOut found (siblings.map (·.node)) residual := by
      rw [← Array.toList_inj, fanOut_eq, ← followWaiting_siblings, List.map_map]
      rfl
    rw [forgotten] at bound ended
    rw [List.map_map] at bound
    exact ⟨n, last, bound, after, result ▸ ended⟩
  · have orderly : s.Orderly siblings residual := after.kept (State.Orderly siblings residual)
      (fun s t goes orderly => State.orderly_turn orderly goes)
      (State.orderly_start found residual parted)
    refine ⟨?_, fun m t later => ?_, orderly.nodup, orderly.sublist_places,
      orderly.parted.imp fun parts place => parts.disjoint, orderly.led⟩
    · rw [← forgotten]
      exact after.map State.forget fun s t goes => State.forget_of_turn goes
    · refine later.kept (fun t => s.found.toList <+: t.found.toList) (fun t u goes added => ?_)
        List.prefix_rfl
      obtain ⟨-, -, -, -, texts, -, -, -, more, -⟩ := State.exists_of_turn goes
      rw [more]
      exact added.trans (List.prefix_append _ _)

/-- Two of three children, the first of which branches again. -/
theorem fanOut_stack_branches :
    let line (text : String) : Node := ⟨"line", [⟨"sku", [], some text⟩], none⟩
    let root : Node := ⟨"r", [⟨"order", [⟨"lines", [line "A", line "B"], none⟩], none⟩,
      ⟨"note", [], none⟩, ⟨"order", [⟨"lines", [line "C"], none⟩], none⟩], none⟩
    let siblings := (Located.top root).childrenNamed "order"
    let start := start #["x"] siblings ["lines", "line", "sku"]
    siblings.Sublist (Located.top root).children ∧
      (∃ n last, n ≤ 10 ∧ After State.turn n start last ∧
        last.turn = .inr #["x", "A", "B", "C"]) ∧
      ∃ s, After State.turn 1 start s ∧ s.places = [[0, 0, 0], [0, 0, 1], [2]] ∧
        s.pushed.Nodup ∧ s.places.Sublist root.places := by
  intro line root siblings start
  have given : siblings.Sublist (Located.top root).children := List.filter_sublist
  have result : fanOut #["x"] (siblings.map (·.node)) ["lines", "line", "sku"] =
      #["x", "A", "B", "C"] := by cbv
  have size : Node.sizes (siblings.map (·.node)) = 10 := by cbv
  have orders := fanOut_stack (Located.top root) given ["lines", "line", "sku"] #["x"]
  obtain ⟨n, last, bound, after, ended⟩ := orders.2.1
  refine ⟨given, ⟨n, last, size ▸ bound, after, result ▸ ended⟩, ?_⟩
  have first : ∃ s, start.turn = .inl s ∧ s.places = [[0, 0, 0], [0, 0, 1], [2]] := ⟨_, rfl, rfl⟩
  obtain ⟨s, goes, places⟩ := first
  obtain ⟨-, -, nodup, order, -⟩ := orders.2.2 1 s (.turn goes (.start s))
  exact ⟨s, .turn goes (.start s), places, nodup, order⟩

end Query

end TreeQuery

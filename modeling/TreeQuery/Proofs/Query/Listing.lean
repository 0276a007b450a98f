import Mathlib
import TreeQuery.Proofs.Gather
import TreeQuery.Proofs.Query.Selection
import TreeQuery.Proofs.Tree.Preorder

/-!
# Queries read off a listing

A listing is flat: it gives each element its depth, its tag and its text, and nothing about who
contains whom.  The ancestor of an entry at a smaller depth is the nearest earlier entry of that
depth, so the tags that lead to an entry can be read off the listing (`Listing.chain`), and with
them the result of a query: the texts, in the order of the listing, of the entries whose chain of
tags is the path (`query_eq_textsAlong`).

The proof walks along the listing and carries the tags above the place that has been reached.  An
entry cannot hide a nearest earlier entry of a smaller depth (`tagsAbove_append`), so a whole tree
leaves them as they were.
-/

namespace TreeQuery

namespace Listing

/-- The nearest of the earlier entries that has a depth. -/
def nearest? (earlier : List Entry) (depth : Nat) : Option Entry :=
  earlier.reverse.find? (·.depth = depth)

/-- The tags of the nearest earlier entries of the depths from 1 to `depth`. -/
def tagsAbove (earlier : List Entry) (depth : Nat) : List (Option String) :=
  (List.range depth).map fun k => (nearest? earlier (k + 1)).map (·.tag)

/-- The tags from depth 1 down to an entry behind the earlier ones. -/
def chain (earlier : List Entry) (e : Entry) : List (Option String) :=
  match e.depth with
  | 0 => []
  | depth + 1 => tagsAbove earlier depth ++ [some e.tag]

/-- Whether tags lead to an entry behind the earlier ones. -/
def Reached (tags : List String) (earlier : List Entry) (e : Entry) : Prop :=
  e.depth = tags.length ∧ chain earlier e = tags.map some

instance (tags : List String) (earlier : List Entry) (e : Entry) :
    Decidable (Reached tags earlier e) := inferInstanceAs (Decidable (_ ∧ _))

/-- The text of an entry behind the earlier ones, if tags lead to it and it has one. -/
def textAt? (tags : List String) (earlier : List Entry) (e : Entry) : Option String :=
  if Reached tags earlier e then e.text else none

/-- The texts of the entries of a listing that tags lead to, in the order of the listing. -/
def textsAlong (listing : List Entry) (tags : List String) : List String :=
  gather (textAt? tags) listing

/-! ## The tags above a place in a listing -/

theorem nearest?_append {earlier later : List Entry} {depth : Nat}
    (deeper : ∀ e ∈ later, depth < e.depth) :
    nearest? (earlier ++ later) depth = nearest? earlier depth := by
  have none : later.reverse.find? (·.depth = depth) = none := by
    refine List.find?_eq_none.mpr fun e he => ?_
    have := deeper e (List.mem_reverse.mp he)
    simp only [decide_eq_true_eq]
    omega
  rw [nearest?, List.reverse_append, List.find?_append, none, Option.none_or, nearest?]

theorem tagsAbove_append {earlier later : List Entry} {depth : Nat}
    (deeper : ∀ e ∈ later, depth < e.depth) :
    tagsAbove (earlier ++ later) depth = tagsAbove earlier depth := by
  refine List.map_congr_left fun k hk => ?_
  have : k < depth := List.mem_range.mp hk
  rw [nearest?_append fun e he => by have := deeper e he; omega]

/-- An entry is the nearest of its depth for what follows it. -/
theorem tagsAbove_succ (earlier : List Entry) (e : Entry) {depth : Nat} (he : e.depth = depth + 1) :
    tagsAbove (earlier ++ [e]) (depth + 1) = tagsAbove earlier depth ++ [some e.tag] := by
  have here : nearest? (earlier ++ [e]) (depth + 1) = some e := by
    rw [nearest?, List.reverse_append, List.reverse_singleton, List.singleton_append,
      List.find?_cons_of_pos (by simpa using he)]
  have before : tagsAbove (earlier ++ [e]) depth = tagsAbove earlier depth :=
    tagsAbove_append fun x hx => by
      rw [List.mem_singleton.mp hx, he]
      exact Nat.lt_succ_self depth
  rw [← before, tagsAbove, List.range_succ, List.map_append, List.map_singleton, here]
  rfl

/-! ## Walking along a listing -/

/-- The texts that tags lead to in a part of a listing, behind the earlier entries. -/
def textsBehind (tags : List String) (earlier es : List Entry) : List String :=
  gather (fun before => textAt? tags (earlier ++ before)) es

theorem textsBehind_append (tags : List String) (earlier es later : List Entry) :
    textsBehind tags earlier (es ++ later) =
      textsBehind tags earlier es ++ textsBehind tags (earlier ++ es) later := by
  simp only [textsBehind, gather_append, List.append_assoc]

theorem textsBehind_cons (tags : List String) (earlier : List Entry) (e : Entry)
    (later : List Entry) :
    textsBehind tags earlier (e :: later) =
      (textAt? tags earlier e).toList ++ textsBehind tags (earlier ++ [e]) later := by
  simp only [textsBehind, gather_cons, List.append_nil, List.append_assoc, List.singleton_append]

theorem textAt?_zero (tags : List String) (earlier : List Entry) (e : Entry) (he : e.depth = 0) :
    textAt? tags earlier e = if tags = [] then e.text else none := by
  have : Reached tags earlier e ↔ tags = [] := by
    cases tags <;> simp [Reached, chain, he]
  simp [textAt?, this]

/-- Tags lead to an entry if they are those above it and its own. -/
theorem textAt?_succ {tags above : List String} {earlier : List Entry} {e : Entry}
    (he : e.depth = above.length + 1) (habove : tagsAbove earlier above.length = above.map some) :
    textAt? tags earlier e = if tags = above ++ [e.tag] then e.text else none := by
  have : Reached tags earlier e ↔ tags = above ++ [e.tag] := by
    have chain_eq : chain earlier e = (above ++ [e.tag]).map some := by
      rw [chain, he]
      simp [habove]
    rw [Reached, chain_eq, he]
    constructor
    · rintro ⟨-, h⟩
      exact (List.map_inj_right fun _ _ => Option.some.inj).mp h.symm
    · rintro rfl
      simp
  simp [textAt?, this]

end Listing

/-! ## Walking along the listing of a tree -/

namespace Node

open Listing

/-- The children that do not have the first tag may be kept, as long as they give nothing. -/
theorem select_cons_eq_flatMap (n : Node) (tag : String) (rest : List String) :
    n.select (tag :: rest) =
      n.children.flatMap fun child => if child.tag = tag then child.select rest else [] := by
  rw [select]
  induction n.children with
  | nil => rfl
  | cons child others ih =>
    by_cases h : child.tag = tag
    · simp [h, ih]
    · simp [h, ih]

/-- What tags, counted from depth 1 on, select in a tree behind the tags above it. -/
def selectAt (tags above : List String) (n : Node) : List String :=
  if above ++ [n.tag] <+: tags then n.select (tags.drop (above.length + 1)) else []

theorem selectAt_append (above : List String) (tag : String) (rest : List String) (n : Node) :
    n.selectAt (above ++ tag :: rest) above = if n.tag = tag then n.select rest else [] := by
  have : above ++ [n.tag] <+: above ++ tag :: rest ↔ n.tag = tag := by
    rw [List.prefix_append_right_inj, List.cons_prefix_cons]
    simp
  simp [selectAt, this, List.drop_length_add_append]

theorem selectAt_of_not_prefix {tags above : List String} (h : ¬ above <+: tags) (n : Node) :
    n.selectAt tags above = [] :=
  if_neg fun all => h ((List.prefix_append above [n.tag]).trans all)

/-- What is selected in a tree is its own text, or what is selected in the trees below it. -/
theorem selectAt_eq (tags above : List String) (n : Node) :
    n.selectAt tags above =
      (if tags = above ++ [n.tag] then n.text.toList else []) ++
        n.children.flatMap (·.selectAt tags (above ++ [n.tag])) := by
  by_cases h : above ++ [n.tag] <+: tags
  · obtain ⟨rest, rfl⟩ := h
    rw [show above ++ [n.tag] ++ rest = above ++ n.tag :: rest by simp, selectAt_append, if_pos rfl]
    cases rest with
    | nil =>
      have none : ∀ child : Node, child.selectAt (above ++ [n.tag]) (above ++ [n.tag]) = [] := by
        intro child
        exact if_neg fun all => by simpa using all.length_le
      simp [select, none]
    | cons tag rest =>
      have each : ∀ child : Node,
          child.selectAt (above ++ n.tag :: tag :: rest) (above ++ [n.tag]) =
            if child.tag = tag then child.select rest else [] := by
        intro child
        rw [← selectAt_append (above ++ [n.tag]), List.append_assoc, List.singleton_append]
      rw [if_neg (by simp), List.nil_append, select_cons_eq_flatMap]
      simp [each]
  · have off : tags ≠ above ++ [n.tag] := fun he => h (he ▸ List.prefix_rfl)
    rw [if_neg off, List.nil_append, selectAt, if_neg h]
    exact (List.flatMap_eq_nil_iff.mpr fun child _ => selectAt_of_not_prefix h child).symm

mutual

/-- Walking along the listing of a tree gives what the tags select in it. -/
theorem textsBehind_preorder (tags above : List String) (n : Node) (earlier : List Entry)
    (habove : tagsAbove earlier above.length = above.map some) :
    textsBehind tags earlier (n.preorder (above.length + 1)) = n.selectAt tags above := by
  cases n with
  | mk tag children text =>
    rw [preorder, textsBehind_cons, textAt?_succ rfl habove, selectAt_eq]
    have below := textsBehind_preorders tags (above ++ [tag]) children
      (earlier ++ [⟨above.length + 1, tag, text⟩]) (by
        rw [List.length_append, List.length_singleton, tagsAbove_succ _ _ rfl, habove]
        simp)
    rw [List.length_append, List.length_singleton] at below
    rw [below]
    congr 1
    split <;> rfl

/-- The trees of siblings are walked along one after the other, below the same tags. -/
theorem textsBehind_preorders (tags above : List String) (ns : List Node) (earlier : List Entry)
    (habove : tagsAbove earlier above.length = above.map some) :
    textsBehind tags earlier (preorders (above.length + 1) ns) =
      ns.flatMap (·.selectAt tags above) := by
  cases ns with
  | nil => rw [preorders_nil]; rfl
  | cons n rest =>
    -- The first tree lies deeper than the tags above, so it hides none of them.
    have unhidden : tagsAbove (earlier ++ n.preorder (above.length + 1)) above.length =
        above.map some := by
      rw [tagsAbove_append fun e he => le_depth_of_mem_preorder (above.length + 1) n e he, habove]
    rw [preorders_cons, textsBehind_append, textsBehind_preorder tags above n earlier habove,
      textsBehind_preorders tags above rest _ unhidden, List.flatMap_cons]

end

/-- The root stands above all tags, so its own tag is not asked for. -/
theorem textsAlong_listing (n : Node) (tags : List String) :
    textsAlong n.listing tags = n.select tags := by
  have below := textsBehind_preorders tags [] n.children [⟨0, n.tag, n.text⟩] rfl
  rw [List.length_nil] at below
  have whole : textsAlong n.listing tags = textsBehind tags [] (n.preorder 0) := by
    rw [listing_eq_preorder]
    rfl
  rw [whole, preorder_eq, textsBehind_cons, textAt?_zero _ _ _ rfl, List.nil_append, below]
  cases tags with
  | nil =>
    have none : ∀ child : Node, child.selectAt [] [] = [] := fun child => if_neg (by simp)
    simp [none, select]
  | cons tag rest =>
    have each : ∀ child : Node, child.selectAt (tag :: rest) [] =
        if child.tag = tag then child.select rest else [] := selectAt_append [] tag rest
    rw [if_neg (by simp), select_cons_eq_flatMap]
    simp [each]

theorem select_with_tag (n : Node) (tag : String) (tags : List String) :
    ({ n with tag := tag } : Node).select tags = n.select tags := by
  cases tags <;> rfl

end Node

open Listing

/-- **A query is read off the listing of its document.**  The values are the texts of the entries
that the tags below the first part of the path lead to, in the order of the listing.  Neither the
tag of the root nor the first part of the path matters. -/
theorem query_eq_textsAlong {document path : String} {options : Document.Options} {root : Node}
    {p : Path} (hroot : Document.parse document options = .ok root)
    (hpath : Path.parse path = .ok p) :
    query document path options = .ok (textsAlong root.listing p.segments) ∧
      (∀ tag : String, textsAlong ({ root with tag := tag } : Node).listing p.segments =
        textsAlong root.listing p.segments) ∧
      ∀ (other : String) (p' : Path), Path.parse other = .ok p' → p'.segments = p.segments →
        query document other options = query document path options := by
  have answer : ∀ (text : String) (q : Path), Path.parse text = .ok q →
      query document text options = .ok (textsAlong root.listing q.segments) := by
    intro text q hq
    rw [query, hq, hroot, Node.textsAlong_listing, ← Query.evaluate_eq]
    rfl
  refine ⟨answer path p hpath, fun tag => ?_, fun other p' hp' same => ?_⟩
  · rw [Node.textsAlong_listing, Node.textsAlong_listing, Node.select_with_tag]
  · rw [answer other p' hp', answer path p hpath, same]

/-- Two branches with the same tag, the second with two leaves, and another branch between them. -/
theorem query_eq_textsAlong_branches :
    let document := "<r><a><b>1</b></a><c><b>4</b></c><a><b>2</b>5<b>3</b></a></r>"
    ∃ (root : Node) (p : Path), Document.parse document .plain = .ok root ∧
      Path.parse "/x/a/b" = .ok p ∧
      query document "/x/a/b" .plain = .ok (textsAlong root.listing p.segments) ∧
      textsAlong root.listing p.segments = ["1", "2", "3"] := by
  let leaf (text : String) : Node := ⟨"b", [], some text⟩
  have hroot : Document.parse "<r><a><b>1</b></a><c><b>4</b></c><a><b>2</b>5<b>3</b></a></r>"
      .plain = .ok ⟨"r", [⟨"a", [leaf "1"], none⟩, ⟨"c", [leaf "4"], none⟩,
        ⟨"a", [leaf "2", leaf "3"], some "5"⟩], none⟩ := by cbv
  have hpath : Path.parse "/x/a/b" = .ok ⟨"x", ["a", "b"]⟩ := by cbv
  refine ⟨_, _, hroot, hpath, (query_eq_textsAlong hroot hpath).1, ?_⟩
  rw [Node.listing_eq_preorder]
  rfl

end TreeQuery

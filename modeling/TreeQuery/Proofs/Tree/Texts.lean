import TreeQuery.Proofs.Query.Selection
import TreeQuery.Proofs.Text.Tidy
import TreeQuery.Proofs.Tree.Content

/-!
# The texts of a tree

`Within` says which elements a tree has: its root, and the elements of the trees below it.  The text
that a content makes is tidy, so a tree whose children have tidy texts throughout has them itself
(`AllTidy.ofPieces`); and what tags select in a tree are texts of its elements
(`exists_within_of_mem_select`).
-/

namespace TreeQuery

open Text (Tidy)

namespace Node

/-- Whether an element belongs to a tree. -/
inductive Within (m : Node) : Node → Prop where
  | root : Within m m
  | child {c n : Node} : c ∈ n.children → Within m c → Within m n

/-- Whether every text in a tree is tidy. -/
def AllTidy (n : Node) : Prop :=
  ∀ m : Node, m.Within n → ∀ text, m.text = some text → Tidy text.toList

namespace AllTidy

variable {n : Node}

theorem of_children (own : ∀ text, n.text = some text → Tidy text.toList)
    (below : ∀ child ∈ n.children, child.AllTidy) : n.AllTidy := by
  intro m within
  cases within with
  | root => exact own
  | child mem within => exact below _ mem m within

theorem new (tag : String) : (new tag).AllTidy := by
  apply of_children
  · intro text none
    cases none
  · intro child mem
    cases mem

theorem tidy_textOf {runs : List (List Char)} {text : String}
    (h : Piece.textOf runs = some text) : Tidy text.toList := by
  obtain ⟨run, found, rfl⟩ := Option.map_eq_some_iff.mp h
  have printed : ¬ Text.allBlank run = true := by simpa using List.find?_some found
  rw [String.toList_ofList]
  exact Text.tidy_collapse printed

/-- An element has a tidy text or none, whatever its content is. -/
theorem ofPieces (tag : String) {ps : List Piece}
    (below : ∀ child ∈ Piece.children ps, child.AllTidy) : (ofPieces tag ps).AllTidy :=
  of_children (fun _ => tidy_textOf) below

end AllTidy

/-- What is selected in a tree is the text of one of its elements. -/
theorem exists_within_of_mem_select {tags : List String} {n : Node} {v : String}
    (h : v ∈ n.select tags) : ∃ m : Node, m.Within n ∧ m.text = some v := by
  induction tags generalizing n with
  | nil => exact ⟨n, .root, Option.mem_toList.mp h⟩
  | cons tag rest ih =>
    obtain ⟨child, mem, below⟩ := List.mem_flatMap.mp h
    obtain ⟨m, within, text⟩ := ih below
    exact ⟨m, .child (List.mem_filter.mp mem).1 within, text⟩

theorem AllTidy.of_mem_evaluate {n : Node} (h : n.AllTidy) {p : Path} {v : String}
    (mem : v ∈ p.evaluate n) : Tidy v.toList := by
  rw [Path.evaluate, Query.evaluate_eq] at mem
  obtain ⟨m, within, text⟩ := exists_within_of_mem_select mem
  exact h m within v text

end Node

end TreeQuery

import TreeQuery.Path
import TreeQuery.Proofs.Text.Tidy

/-!
# What paths show is read back

A path shows its parts with a slash before each.  Reading cuts a text at its slashes, so it finds
the same parts again, and they are as sound as they were (`parse_display`).
-/

namespace TreeQuery

namespace Text

/-- Behind each cut stands the piece that was written there. -/
theorem pieces_flatMap {p : Char → Bool} {cut : Char} (cuts : p cut = true)
    {found : List (List Char)} (free : ∀ part ∈ found, ∀ c ∈ part, ¬ p c = true) :
    pieces p (found.flatMap (cut :: ·)) = [] :: found := by
  induction found with
  | nil => rfl
  | cons part found ih =>
    have later := ih fun other h => free other (List.mem_cons_of_mem part h)
    rw [List.flatMap_cons, List.cons_append, pieces_cons_of_pos cuts,
      pieces_append_of_neg (free part List.mem_cons_self) later, List.append_nil]

/-- **Parts with a cut before each are found again.** -/
theorem parts_flatMap {p : Char → Bool} {cut : Char} (cuts : p cut = true)
    {found : List (List Char)} (sound : ∀ part ∈ found, part ≠ [] ∧ ∀ c ∈ part, ¬ p c = true) :
    parts p (found.flatMap (cut :: ·)) = found := by
  rw [parts, pieces_flatMap cuts fun part h => (sound part h).2, List.filter_cons_of_neg (by simp)]
  exact List.filter_eq_self.mpr fun part h => by simpa using (sound part h).1

theorem sound_of_mem_parts {p : Char → Bool} {s part : List Char} (h : part ∈ parts p s) :
    part ≠ [] ∧ ∀ c ∈ part, ¬ p c = true := by
  obtain ⟨piece, filled⟩ := List.mem_filter.mp h
  exact ⟨by simpa using filled, not_of_mem_pieces piece⟩

end Text

namespace Path

/-- The parts of a path, the first of which names the root element. -/
def parts (p : Path) : List (List Char) := (p.root :: p.segments).map String.toList

theorem parts_ofList (root : List Char) (below : List (List Char)) :
    (Path.mk (String.ofList root) (below.map String.ofList)).parts = root :: below := by
  simp [parts, Function.comp_def]

/-- A text writes the path that has its parts, if it has any and they are all sound. -/
theorem parse_eq_ok_iff {text : String} {p : Path} :
    parse text = .ok p ↔ Text.allBlank text.toList = false ∧ partsOf text.toList = p.parts ∧
      ∀ part ∈ p.parts, fault? part = none := by
  rw [parse]
  cases blank : Text.allBlank text.toList with
  | true => simp
  | false =>
    cases cut : partsOf text.toList with
    | nil => simp [parts]
    | cons root below =>
      simp only [Bool.false_eq_true, if_false, true_and]
      cases faulty : (root :: below).findSome? fault? with
      | some reason =>
        obtain ⟨part, mem, fault⟩ := List.exists_of_findSome?_eq_some faulty
        refine iff_of_false (by simp) fun ⟨same, sound⟩ => ?_
        rw [sound part (same ▸ mem)] at fault
        cases fault
      | none =>
        have sound := List.findSome?_eq_none_iff.mp faulty
        constructor
        · rintro ⟨⟩
          rw [parts_ofList]
          exact ⟨rfl, sound⟩
        · rintro ⟨same, -⟩
          obtain ⟨first, others⟩ := List.cons_eq_cons.mp same
          rw [first, others]
          simp [Function.comp_def]

theorem toList_foldl_display (parts : List String) (shown : String) :
    (parts.foldl (fun shown part => shown.push '/' ++ part) shown).toList =
      shown.toList ++ (parts.map String.toList).flatMap ('/' :: ·) := by
  induction parts generalizing shown with
  | nil => simp
  | cons part parts ih => simp [ih]

/-- A path is shown with a slash before each part. -/
theorem toList_display (p : Path) : p.display.toList = p.parts.flatMap ('/' :: ·) :=
  toList_foldl_display (p.root :: p.segments) ""

/-- **A path is read back from what it shows.** -/
theorem parse_display {text : String} {p : Path} (h : parse text = .ok p) :
    parse p.display = .ok p := by
  obtain ⟨-, cut, sound⟩ := parse_eq_ok_iff.mp h
  refine parse_eq_ok_iff.mpr ⟨?_, ?_, sound⟩
  · rw [toList_display]
    rfl
  · rw [toList_display]
    apply Text.parts_flatMap rfl
    intro part mem
    rw [← cut] at mem
    exact Text.sound_of_mem_parts mem

end Path

end TreeQuery

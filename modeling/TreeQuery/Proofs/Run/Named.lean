import Mathlib
import TreeQuery.Proofs.Plan.Validity
import TreeQuery.Proofs.Run.Progress

/-!
# Texts by their name

An outcome is asked for texts by a name.  Results are stored in the order of their selections, over
the parameters and over each other, so the name stands for the last result that was stored under it,
or else for the parameter, if that is a list of texts (`output?_eq`).  What templates see instead of
some names has no part in this.  In a valid plan no name is used twice, so each named result is
there in the end.
-/

namespace TreeQuery

namespace Json

theorem text?_eq_some_iff {value : Json} {text : String} :
    value.text? = some text ↔ value = .str text := by
  cases value <;> simp [text?]

theorem mapM_text?_eq_some_iff {items : List Json} {values : List String} :
    items.mapM text? = some values ↔ items = values.map .str := by
  induction items generalizing values with
  | nil => simp [eq_comm]
  | cons item items ih =>
    rw [List.mapM_cons, eq_comm (a := item :: items), List.map_eq_cons_iff]
    constructor
    · intro h
      obtain ⟨text, first, h⟩ := Option.bind_eq_some_iff.mp h
      obtain ⟨others, later, h⟩ := Option.bind_eq_some_iff.mp h
      exact ⟨text, others, (Option.some.inj h).symm, (text?_eq_some_iff.mp first).symm,
        (ih.mp later).symm⟩
    · rintro ⟨text, others, rfl, rfl, same⟩
      rw [ih.mpr same.symm]
      rfl

/-- Only a list of texts, and nothing else among them, is one. -/
theorem texts?_eq_some_iff {value : Json} {values : List String} :
    value.texts? = some values ↔ value = texts values := by
  cases value with
  | arr items => simp [texts?, texts, mapM_text?_eq_some_iff]
  | _ => simp [texts?, texts]

end Json

namespace SelectionResult

variable {name : String} {r : SelectionResult} {results before after : List SelectionResult}

/-- The last result under a name is the one behind which there is no other. -/
theorem lastInto?_append_cons (stored : r.selection.output = some name)
    (last : ∀ later ∈ after, later.selection.output ≠ some name) :
    lastInto? name (before ++ r :: after) = some r := by
  rw [lastInto?, List.find?_eq_some_iff_append]
  refine ⟨by simpa using stored, after.reverse, before.reverse, by simp, fun later mem => ?_⟩
  simpa using last later (List.mem_reverse.mp mem)

theorem lastInto?_eq_none (unstored : ∀ r ∈ results, r.selection.output ≠ some name) :
    lastInto? name results = none := by
  refine List.find?_eq_none.mpr fun r mem => ?_
  simpa using unstored r (List.mem_reverse.mp mem)

end SelectionResult

namespace Plan

variable {p : Plan} {document name : String} {i : Nat} {s : Selection} {o : Outcome}

/-- The last selection that stores under a name has its texts there in the end. -/
theorem exists_result_named (h : (p.run document).outcome = .ok o)
    (at_i : p.selections[i]? = some s) (stored : s.output = some name)
    (last : ∀ j t, i < j → p.selections[j]? = some t → t.output ≠ some name) :
    ∃ r, o.results[i]? = some r ∧ r.selection = s ∧ o.output? name = some r.values := by
  obtain ⟨root, -, made⟩ := exists_read h
  have records : o.Records root p.params p.selections := .of_foldlM made
  have selected : ∀ j : Nat, p.selections[j]? = o.results[j]?.map (·.selection) := by
    intro j
    rw [← records.selections_eq, List.getElem?_map]
  rw [selected, Option.map_eq_some_iff] at at_i
  obtain ⟨r, at_r, rfl⟩ := at_i
  obtain ⟨lt, here⟩ := List.getElem?_eq_some_iff.mp at_r
  have split : o.results = o.results.take i ++ r :: o.results.drop (i + 1) := by
    rw [← here, ← List.drop_eq_getElem_cons lt, List.take_append_drop]
  have none : ∀ later ∈ o.results.drop (i + 1), later.selection.output ≠ some name := by
    intro later mem
    obtain ⟨k, at_k⟩ := List.mem_iff_getElem?.mp mem
    rw [List.getElem?_drop] at at_k
    refine last (i + 1 + k) later.selection (by omega) ?_
    rw [selected, at_k, Option.map_some]
  refine ⟨r, at_r, rfl, ?_⟩
  rw [Outcome.output?, records.get?_eq, split,
    SelectionResult.lastInto?_append_cons stored none]
  exact Json.texts?_eq_some_iff.mpr rfl

/-- Without such a selection the name stands for a parameter. -/
theorem output?_eq_some_iff_of_unstored (h : (p.run document).outcome = .ok o)
    (unstored : ∀ s ∈ p.selections, s.output ≠ some name) {values : List String} :
    o.output? name = some values ↔ p.params.find? name = some (Json.texts values) := by
  obtain ⟨root, -, made⟩ := exists_read h
  have records : o.Records root p.params p.selections := .of_foldlM made
  have none : ∀ r ∈ o.results, r.selection.output ≠ some name := by
    intro r mem
    refine unstored r.selection ?_
    rw [← records.selections_eq]
    exact List.mem_map_of_mem mem
  rw [Outcome.output?, records.get?_eq, SelectionResult.lastInto?_eq_none none,
    Option.bind_eq_some_iff]
  simp only [Json.texts?_eq_some_iff]
  exact ⟨fun ⟨value, found, same⟩ => same ▸ found, fun found => ⟨_, found, rfl⟩⟩

/-- **What a name stands for in the end.**  It is the texts of the last selection that stores under
it; without one it is the parameter, if that is a list of texts only.  In a valid plan a name is
that of one selection, and stands for the texts of this one. -/
theorem output?_eq (h : (p.run document).outcome = .ok o) (name : String) :
    (∀ (i : Nat) s, p.selections[i]? = some s → s.output = some name →
      (∀ (j : Nat) t, i < j → p.selections[j]? = some t → t.output ≠ some name) →
      ∃ r, o.results[i]? = some r ∧ r.selection = s ∧ o.output? name = some r.values) ∧
    ((∀ s ∈ p.selections, s.output ≠ some name) → ∀ values,
      o.output? name = some values ↔ p.params.find? name = some (.arr (values.map .str))) ∧
    (p.violation? = none → ∀ (i : Nat) s, p.selections[i]? = some s → s.output = some name →
      (∀ (j : Nat) t, p.selections[j]? = some t → t.output = some name → i = j) ∧
        ∃ r, o.results[i]? = some r ∧ r.selection = s ∧ o.output? name = some r.values) := by
  refine ⟨fun i s at_i stored last => exists_result_named h at_i stored last,
    fun unstored values => output?_eq_some_iff_of_unstored h unstored, ?_⟩
  intro valid i s at_i stored
  have only : ∀ (j : Nat) t, p.selections[j]? = some t → t.output = some name → i = j :=
    fun j t at_j => (violation?_eq_none_iff.mp valid).eq_of_output at_i at_j stored
  refine ⟨only, exists_result_named h at_i stored fun j t lt at_j stored' => ?_⟩
  exact absurd (only j t at_j stored') (Nat.ne_of_lt lt)

/-- A name that is used twice and is a parameter too, and lists that are parameters; then results
with the names under which templates see other things. -/
theorem output?_eq_collisions :
    let document := "<r><a>1</a><b>2</b></r>"
    let params := Dict.ofPairs
      [("x", Json.texts ["p"]), ("y", Json.texts []), ("z", .arr [.str "p", .null])]
    let p : Plan := ⟨"p", none, .plain, params,
      [⟨"/r/a", some "x", none⟩, ⟨"/r/b", some "x", none⟩, ⟨"/r/a", none, none⟩]⟩
    let q : Plan := ⟨"q", none, .plain, Dict.empty,
      [⟨"/r/a", some "prev", none⟩, ⟨"/r/b", some "results", none⟩]⟩
    (∃ o, (p.run document).outcome = .ok o ∧ o.output? "x" = some ["2"] ∧
      o.output? "y" = some [] ∧ o.output? "z" = none) ∧
    q.violation? = none ∧ ∃ o, (q.run document).outcome = .ok o ∧
      o.output? "prev" = some ["1"] ∧ o.output? "results" = some ["2"] := by
  intro document params p q
  have first : (p.run document).outcome =
      .ok ⟨[⟨0, ⟨"/r/a", some "x", none⟩, ⟨"r", ["a"]⟩, ["1"]⟩,
          ⟨1, ⟨"/r/b", some "x", none⟩, ⟨"r", ["b"]⟩, ["2"]⟩,
          ⟨2, ⟨"/r/a", none, none⟩, ⟨"r", ["a"]⟩, ["1"]⟩],
        ⟨(params.insert "x" (Json.texts ["1"])).insert "x" (Json.texts ["2"]),
          [["1"], ["2"], ["1"]]⟩⟩ := by cbv
  have second : (q.run document).outcome =
      .ok ⟨[⟨0, ⟨"/r/a", some "prev", none⟩, ⟨"r", ["a"]⟩, ["1"]⟩,
          ⟨1, ⟨"/r/b", some "results", none⟩, ⟨"r", ["b"]⟩, ["2"]⟩],
        ⟨(Dict.empty.insert "prev" (Json.texts ["1"])).insert "results" (Json.texts ["2"]),
          [["1"], ["2"]]⟩⟩ := by cbv
  have valid : q.violation? = none := by decide
  refine ⟨⟨_, first, ?_, ?_, ?_⟩, valid, _, second, ?_, ?_⟩
  · -- The third selection has no name, so the second is the last one under this name.
    have last : ∀ (j : Nat) t, 1 < j → p.selections[j]? = some t → t.output ≠ some "x" := by
      rintro (_ | _ | _ | j) t lt at_j
      · cases lt
      · exact absurd lt (Nat.lt_irrefl 1)
      · cases at_j
        decide
      · cases at_j
    obtain ⟨r, at_r, -, shown⟩ := (output?_eq first "x").1 1 _ rfl rfl last
    cases at_r
    exact shown
  · exact ((output?_eq first "y").2.1 (by decide) []).mpr rfl
  · refine Option.eq_none_iff_forall_ne_some.mpr fun values shown => ?_
    have list := ((output?_eq first "z").2.1 (by decide) values).mp shown
    have items : [Json.str "p", .null] = values.map .str := Json.arr.inj (Option.some.inj list)
    rcases values with _ | ⟨v, _ | ⟨w, values⟩⟩ <;> simp at items
  · obtain ⟨-, r, at_r, -, shown⟩ := (output?_eq second "prev").2.2 valid 0 _ rfl rfl
    cases at_r
    exact shown
  · obtain ⟨-, r, at_r, -, shown⟩ := (output?_eq second "results").2.2 valid 1 _ rfl rfl
    cases at_r
    exact shown

end Plan

end TreeQuery

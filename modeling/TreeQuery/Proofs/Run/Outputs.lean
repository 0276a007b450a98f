import Mathlib
import TreeQuery.Proofs.Plan.Validity
import TreeQuery.Proofs.Run.Visible

/-!
# Named results in later templates

In a valid plan a name is given to one result only, so no later result takes its place.  But
templates see the results so far as `results`, and the latest as `prev`, whatever else is bound to
these two names, and a plan may use them for results of its own.  So a named result is seen under
its name by every later selection unless its name is `results`, or it is `prev` and another result
came since that has other texts (`output_seen_iff`).
-/

namespace TreeQuery

namespace Json

theorem texts_inj {values values' : List String} :
    texts values = texts values' ↔ values = values' := by
  constructor
  · intro same
    exact List.map_injective_iff.mpr (fun _ _ => Json.str.inj) (Json.arr.inj same)
  · rintro rfl
    rfl

/-- A list of lists of texts is no list of texts, unless it is empty. -/
theorem arr_texts_ne {lists : List (List String)} (nonempty : lists ≠ []) (values : List String) :
    Json.arr (lists.map texts) ≠ texts values := by
  intro same
  have same : lists.map texts = values.map Json.str := Json.arr.inj same
  obtain ⟨first, others, rfl⟩ := List.exists_cons_of_ne_nil nonempty
  obtain ⟨value, _, -, text, -⟩ := List.map_eq_cons_iff.mp same.symm
  cases text

end Json

/-- What an object that was made of a context shows under a name. -/
theorem Context.member?_toJson (c : Context) (name : String) :
    c.toJson.member? name = c.bindings.find? name := rfl

/-- A name that one result has stands for that result. -/
theorem SelectionResult.lastInto?_eq_some {name : String} {results : List SelectionResult}
    {r : SelectionResult} (mem : r ∈ results) (stored : r.selection.output = some name)
    (only : ∀ r' ∈ results, r'.selection.output = some name → r' = r) :
    lastInto? name results = some r := by
  cases last : lastInto? name results with
  | none =>
    have unstored := List.find?_eq_none.mp last r (List.mem_reverse.mpr mem)
    exact absurd (by simpa using stored) unstored
  | some r' =>
    have named : r'.selection.output = some name := by simpa using List.find?_some last
    rw [only r' (List.mem_reverse.mp (List.mem_of_find?_eq_some last)) named]

namespace Plan

variable {p : Plan} {document : String} {i j : Nat} {s : Selection} {name : String} {o : Outcome}

/-- In a valid plan the last result of a name is that of the selection that has the name. -/
theorem Valid.lastInto?_eq (valid : p.Valid)
    (selections_eq : o.results.map (·.selection) = p.selections.take j) {r : SelectionResult}
    (at_i : o.results[i]? = some r) (stored : r.selection.output = some name) :
    SelectionResult.lastInto? name o.results = some r := by
  have selected : ∀ {k : Nat} {t : SelectionResult}, o.results[k]? = some t →
      p.selections[k]? = some t.selection := by
    intro k t at_k
    have here := congrArg (·[k]?) selections_eq
    simp only [List.getElem?_map, at_k, Option.map_some] at here
    rw [List.getElem?_take] at here
    split at here
    · exact here.symm
    · cases here
  apply SelectionResult.lastInto?_eq_some (List.mem_of_getElem? at_i) stored
  intro r' mem stored'
  obtain ⟨k, at_k⟩ := List.mem_iff_getElem?.mp mem
  obtain rfl := valid.eq_of_output (selected at_i) (selected at_k) stored stored'
  exact Option.some.inj (at_k.symm.trans at_i)

/-- **Who sees a named result.**  In a valid plan the result of a selection with a name is seen
under that name by a later selection that the run comes to, unless the name is `results`, or it is
`prev` and the texts of the latest result are others. -/
theorem output_seen_iff (valid : p.violation? = none) (at_i : p.selections[i]? = some s)
    (stored : s.output = some name) (later : i < j) (within : j < p.selections.length)
    (reached : ((p.upTo j).run document).outcome = .ok o) :
    ∃ r, o.results[i]? = some r ∧ r.selection = s ∧
      (o.context.toJson.member? name = some (Json.texts r.values) ↔
        name ≠ "results" ∧ (name = "prev" → o.values = r.values)) := by
  obtain ⟨root, -, made⟩ := exists_read reached
  have records : o.Records root p.params (p.selections.take j) := .of_foldlM made
  have count : i < o.results.length := by
    rw [records.length_eq, List.length_take]
    omega
  obtain ⟨r, at_r⟩ : ∃ r, o.results[i]? = some r := ⟨_, List.getElem?_eq_getElem count⟩
  have same : r.selection = s := by
    have here := congrArg (·[i]?) records.selections_eq
    simp only [List.getElem?_map, at_r, Option.map_some, List.getElem?_take_of_lt later,
      at_i] at here
    exact Option.some.inj here
  have last := (violation?_eq_none_iff.mp valid).lastInto?_eq records.selections_eq at_r
    (same ▸ stored)
  have nonempty : o.results ≠ [] := List.ne_nil_of_mem (List.mem_of_getElem? at_r)
  refine ⟨r, at_r, same, ?_⟩
  rw [Context.member?_toJson, records.find?_bindings, Outcome.visible?, Outcome.named?]
  by_cases results : name = "results"
  · -- All results are seen instead, and these are no list of texts.
    have filled : o.results.map (·.values) ≠ [] := by simpa using nonempty
    have hidden := Json.arr_texts_ne filled r.values
    rw [List.map_map] at hidden
    simpa [results, Function.comp_def] using hidden
  · rw [if_neg results]
    by_cases latest : name = "prev"
    · obtain ⟨r', at_end⟩ : ∃ r', o.results.getLast? = some r' :=
        ⟨_, List.getLast?_eq_some_getLast nonempty⟩
      have values : o.values = r'.values := by
        rw [records.outcome_values, at_end]
        rfl
      simp [latest, at_end, values, Json.texts_inj]
    · simp [results, latest, last]

/-- A named result is seen behind another result. -/
theorem output_seen_iff_between :
    let document := "<r><a>1</a><b>2</b></r>"
    let p : Plan := ⟨"p", none, .plain, Dict.empty,
      [⟨"/r/a", some "x", none⟩, ⟨"/r/b", some "y", none⟩, ⟨"/r", none, none⟩]⟩
    p.violation? = none ∧ ∃ o, ((p.upTo 2).run document).outcome = .ok o ∧
      o.context.toJson.member? "x" = some (Json.texts ["1"]) := by
  intro document p
  have valid : p.violation? = none := by decide
  have two : ((p.upTo 2).run document).outcome =
      .ok ⟨[⟨0, ⟨"/r/a", some "x", none⟩, ⟨"r", ["a"]⟩, ["1"]⟩,
          ⟨1, ⟨"/r/b", some "y", none⟩, ⟨"r", ["b"]⟩, ["2"]⟩],
        ⟨(Dict.empty.insert "x" (Json.texts ["1"])).insert "y" (Json.texts ["2"]),
          [["1"], ["2"]]⟩⟩ := by cbv
  obtain ⟨r, first, -, seen⟩ :=
    output_seen_iff valid (i := 0) rfl rfl (by decide : 0 < 2) (by decide) two
  cases first
  exact ⟨valid, _, two, seen.mpr ⟨by decide, by decide⟩⟩

/-- The first result is named `prev`, and the third selection sees the second result instead. -/
theorem output_prev_hidden :
    let document := "<r><a>a</a><b>b</b></r>"
    let p : Plan := ⟨"p", none, .plain, Dict.empty, [⟨"/r/a", some "prev", none⟩,
      ⟨"/r/b", none, none⟩, ⟨"/r/\x7b\x7b prev.[0] \x7d\x7d", none, none⟩]⟩
    p.violation? = none ∧ ∃ o, ((p.upTo 2).run document).outcome = .ok o ∧
      o.results.map (·.values) = [["a"], ["b"]] ∧
      o.context.toJson.member? "prev" = some (Json.texts ["b"]) ∧
      o.context.toJson.member? "prev" ≠ some (Json.texts ["a"]) := by
  intro document p
  have valid : p.violation? = none := by decide
  have two : ((p.upTo 2).run document).outcome =
      .ok ⟨[⟨0, ⟨"/r/a", some "prev", none⟩, ⟨"r", ["a"]⟩, ["a"]⟩,
          ⟨1, ⟨"/r/b", none, none⟩, ⟨"r", ["b"]⟩, ["b"]⟩],
        ⟨Dict.empty.insert "prev" (Json.texts ["a"]), [["a"], ["b"]]⟩⟩ := by cbv
  refine ⟨valid, _, two, rfl, rfl, fun same => ?_⟩
  have other : Json.texts ["b"] = Json.texts ["a"] := Option.some.inj same
  exact absurd (Json.texts_inj.mp other) (by decide)

end Plan

end TreeQuery

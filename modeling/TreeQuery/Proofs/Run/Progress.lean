import Mathlib.Data.List.Induction
import TreeQuery.Run.Execution

/-!
# The progress of a run

A run makes its selections one after the other, and what it has after some of them is an outcome
already: `Outcome.advance` makes one more selection.  A run is the fold of that step over the
selections of its plan (`Plan.outcome_run`), so what holds of it is shown selection by selection.

`Outcome.Records` is such an invariant: which results there are, what the context keeps of them, and
which of them each variable stands for.
-/

namespace TreeQuery

/-! ## One selection -/

namespace Outcome

/-- Nothing has been selected. -/
def start (params : Dict Json) : Outcome := ⟨[], .ofParams params⟩

/-- The outcome behind one more selection, if its path can be had. -/
def advance (root : Node) (o : Outcome) (s : Selection) : Except Failure Outcome :=
  match Plan.pathOf o.context o.results.length s with
  | .error f => .error f
  | .ok path =>
    .ok ⟨o.results ++ [⟨o.results.length, s, path, path.evaluate root⟩],
      Plan.contextBehind o.context s (path.evaluate root)⟩

variable {root : Node} {o o' : Outcome} {s : Selection}

/-- All that a selection can do: its path is had, and its result is added. -/
theorem advance_eq_ok_iff :
    o.advance root s = .ok o' ↔ ∃ path, Plan.pathOf o.context o.results.length s = .ok path ∧
      o' = ⟨o.results ++ [⟨o.results.length, s, path, path.evaluate root⟩],
        Plan.contextBehind o.context s (path.evaluate root)⟩ := by
  unfold advance
  cases Plan.pathOf o.context o.results.length s with
  | error f => simp
  | ok path => simp [eq_comm]

theorem advance_eq_error_iff {f : Failure} :
    o.advance root s = .error f ↔ Plan.pathOf o.context o.results.length s = .error f := by
  unfold advance
  cases Plan.pathOf o.context o.results.length s <;> simp

end Outcome

/-! ## Folds that may fail -/

section Fold

variable {σ α ε : Type} {f : σ → α → Except ε σ} {s t : σ}

theorem foldlM_append_eq_ok_iff {xs ys : List α} :
    (xs ++ ys).foldlM f s = .ok t ↔ ∃ u, xs.foldlM f s = .ok u ∧ ys.foldlM f u = .ok t := by
  rw [List.foldlM_append]
  cases xs.foldlM f s with
  | error e => exact ⟨(nomatch ·), fun ⟨_, h, _⟩ => nomatch h⟩
  | ok u =>
    constructor
    · exact fun h => ⟨u, rfl, h⟩
    · rintro ⟨_, ⟨⟩, h⟩
      exact h

theorem foldlM_singleton (x : α) : [x].foldlM f s = f s x := by
  rw [List.foldlM_cons]
  cases f s x <;> rfl

theorem foldlM_cons_eq_ok_iff {x : α} {xs : List α} :
    (x :: xs).foldlM f s = .ok t ↔ ∃ u, f s x = .ok u ∧ xs.foldlM f u = .ok t := by
  rw [← List.singleton_append, foldlM_append_eq_ok_iff]
  simp only [foldlM_singleton]

/-- A failure at the beginning is a failure of the whole. -/
theorem foldlM_append_of_error {xs : List α} {e : ε} (h : xs.foldlM f s = .error e)
    (ys : List α) : (xs ++ ys).foldlM f s = .error e := by
  rw [List.foldlM_append, h]
  rfl

/-- **A fold fails where the first step fails**, with the failure of that step. -/
theorem foldlM_eq_error_iff {xs : List α} {e : ε} :
    xs.foldlM f s = .error e ↔
      ∃ i x u, xs[i]? = some x ∧ (xs.take i).foldlM f s = .ok u ∧ f u x = .error e := by
  constructor
  · intro h
    induction xs generalizing s with
    | nil => cases h
    | cons x xs ih =>
      cases first : f s x with
      | error e' =>
        rw [List.foldlM_cons, first] at h
        cases h
        exact ⟨0, x, s, rfl, rfl, first⟩
      | ok u =>
        rw [List.foldlM_cons, first] at h
        obtain ⟨i, y, v, at_i, before, fails⟩ := ih h
        exact ⟨i + 1, y, v, at_i, foldlM_cons_eq_ok_iff.mpr ⟨u, first, before⟩, fails⟩
  · rintro ⟨i, x, u, at_i, before, fails⟩
    have here : (xs.take (i + 1)).foldlM f s = .error e := by
      rw [List.take_add_one, at_i, List.foldlM_append, before]
      exact (foldlM_singleton x).trans fails
    have whole := foldlM_append_of_error here (xs.drop (i + 1))
    rwa [List.take_append_drop] at whole

end Fold

/-! ## Runs -/

/-- What a run reports of a selection that it has made. -/
def SelectionResult.reports (r : SelectionResult) : List Log.Event :=
  [.evaluating r.index r.path.display, .completed r.index r.values.length]

namespace Plan

/-- The plan with only its first selections. -/
def upTo (p : Plan) (k : Nat) : Plan := { p with selections := p.selections.take k }

variable {root : Node} {o o' : Outcome}

/-- Running selections is making one after the other. -/
theorem runSelections_eq (root : Node) (o : Outcome) (log : List Log.Event)
    (ss : List Selection) :
    (runSelections root o.results.length o.context o.results.reverse log ss).2 =
      ss.foldlM (Outcome.advance root) o := by
  induction ss generalizing o log with
  | nil => simp [runSelections, pure, Except.pure]
  | cons s ss ih =>
    rw [runSelections, List.foldlM_cons, Outcome.advance]
    cases pathOf o.context o.results.length s with
    | error f => rfl
    | ok path =>
      have later := fun log => ih ⟨o.results ++ [⟨o.results.length, s, path, path.evaluate root⟩],
        contextBehind o.context s (path.evaluate root)⟩ log
      simp only [List.length_append, List.length_singleton, List.reverse_append,
        List.reverse_singleton, List.singleton_append] at later
      exact later _

/-- Behind selections that succeed the others are run with the results and the context that these
leave, and the new results have been reported. -/
theorem runSelections_made {made : List Selection}
    (h : made.foldlM (Outcome.advance root) o = .ok o') (log : List Log.Event)
    (later : List Selection) :
    ∃ new, o'.results = o.results ++ new ∧
      runSelections root o.results.length o.context o.results.reverse log (made ++ later) =
        runSelections root o'.results.length o'.context o'.results.reverse
          ((new.flatMap SelectionResult.reports).reverse ++ log) later := by
  induction made generalizing o log with
  | nil =>
    cases h
    exact ⟨[], by simp, rfl⟩
  | cons s made ih =>
    obtain ⟨o₁, first, rest⟩ := foldlM_cons_eq_ok_iff.mp h
    obtain ⟨path, had, rfl⟩ := Outcome.advance_eq_ok_iff.mp first
    rw [List.cons_append, runSelections, had]
    have goesOn := ih rest
    simp only [List.length_append, List.length_singleton, List.reverse_append,
      List.reverse_singleton, List.singleton_append, List.append_assoc] at goesOn
    obtain ⟨new, results, same⟩ := goesOn
      (.completed o.results.length (path.evaluate root).length ::
        .evaluating o.results.length path.display :: log)
    refine ⟨_, results, same.trans ?_⟩
    simp [SelectionResult.reports]

theorem runSelections_append {made : List Selection}
    (h : made.foldlM (Outcome.advance root) o = .ok o') (log : List Log.Event)
    (later : List Selection) :
    ∃ log', runSelections root o.results.length o.context o.results.reverse log (made ++ later) =
      runSelections root o'.results.length o'.context o'.results.reverse log' later := by
  obtain ⟨_, -, same⟩ := runSelections_made h log later
  exact ⟨_, same⟩

theorem outcome_of_refused {p : Plan} {document : String} {e : Document.Error}
    (h : Document.parse document p.options = .error e) :
    (p.run document).outcome = .error ⟨[.document p.name], .document e⟩ := by
  rw [run, h]

/-- **A run is the fold of its selections**, once its document is read. -/
theorem outcome_of_read {p : Plan} {document : String}
    (h : Document.parse document p.options = .ok root) :
    (p.run document).outcome = p.selections.foldlM (Outcome.advance root) (.start p.params) := by
  have all := runSelections_eq root (.start p.params) [.started p.name p.selections.length]
    p.selections
  change (runSelections root 0 (.ofParams p.params) [] _ _).2 = _ at all
  rw [← all, run, h]
  dsimp only
  cases runSelections root 0 (.ofParams p.params) []
    [.started p.name p.selections.length] p.selections with
  | mk log outcome => cases outcome <;> rfl

/-- A run that has an outcome has read its document. -/
theorem exists_read {p : Plan} {document : String} (h : (p.run document).outcome = .ok o) :
    ∃ root, Document.parse document p.options = .ok root ∧
      p.selections.foldlM (Outcome.advance root) (.start p.params) = .ok o := by
  cases read : Document.parse document p.options with
  | error e => rw [outcome_of_refused read] at h; cases h
  | ok root => exact ⟨root, rfl, outcome_of_read read ▸ h⟩

end Plan

/-! ## What an outcome records -/

/-- The last result that was stored under a name. -/
def SelectionResult.lastInto? (name : String) (results : List SelectionResult) :
    Option SelectionResult :=
  results.reverse.find? fun r => r.selection.output = some name

theorem SelectionResult.lastInto?_concat (name : String) (results : List SelectionResult)
    (r : SelectionResult) :
    lastInto? name (results ++ [r]) =
      if r.selection.output = some name then some r else lastInto? name results := by
  unfold lastInto?
  rw [List.reverse_append, List.reverse_singleton, List.singleton_append, List.find?_cons]
  by_cases stored : r.selection.output = some name <;> simp [stored]

namespace Outcome

/-- What an outcome says of the selections that were made. -/
structure Records (root : Node) (params : Dict Json) (made : List Selection) (o : Outcome) :
    Prop where
  /-- There is one result for each selection, in order. -/
  selections_eq : o.results.map (·.selection) = made
  /-- The results are counted from zero. -/
  indices_eq : o.results.map (·.index) = List.range made.length
  /-- The texts of a result are those that its path reaches. -/
  values_eq : ∀ r ∈ o.results, r.values = r.path.evaluate root
  /-- The context keeps the texts of every result. -/
  results_eq : o.context.results = o.results.map (·.values)
  /-- A variable holds the texts of the last result under its name, or is a parameter. -/
  get?_eq : ∀ name, o.context.get? name =
    match SelectionResult.lastInto? name o.results with
    | some r => some (Json.texts r.values)
    | none => params.find? name

namespace Records

variable {root : Node} {params : Dict Json} {made : List Selection} {o o' : Outcome}

theorem length_eq (h : o.Records root params made) : o.results.length = made.length := by
  rw [← h.selections_eq, List.length_map]

theorem start (root : Node) (params : Dict Json) : (Outcome.start params).Records root params [] :=
  ⟨rfl, rfl, fun _ => (nomatch ·), rfl, fun _ => rfl⟩

/-- A variable changes only if a result is stored under its name. -/
theorem get?_contextBehind (context : Context) (s : Selection) (values : List String)
    (name : String) :
    (Plan.contextBehind context s values).get? name =
      if s.output = some name then some (Json.texts values) else context.get? name := by
  unfold Plan.contextBehind
  cases output : s.output with
  | none => rfl
  | some other =>
    by_cases same : name = other
    · subst same
      rw [if_pos rfl]
      exact Dict.find?_insert_self context.bound name (Json.texts values)
    · rw [if_neg fun eq => same (Option.some.inj eq).symm]
      exact Dict.find?_insert_of_ne context.bound same (Json.texts values)

theorem results_contextBehind (context : Context) (s : Selection) (values : List String) :
    (Plan.contextBehind context s values).results = context.results ++ [values] := by
  unfold Plan.contextBehind
  cases s.output <;> rfl

/-- **One more selection is recorded.** -/
theorem advance (h : o.Records root params made) {s : Selection}
    (next : o.advance root s = .ok o') : o'.Records root params (made ++ [s]) := by
  obtain ⟨path, -, rfl⟩ := advance_eq_ok_iff.mp next
  constructor
  · rw [List.map_append, h.selections_eq]
    rfl
  · rw [List.map_append, h.indices_eq, List.length_append, List.length_singleton,
      List.range_succ, h.length_eq]
    rfl
  · intro r hr
    rcases List.mem_append.mp hr with hr | hr
    · exact h.values_eq r hr
    · rw [List.mem_singleton.mp hr]
  · rw [results_contextBehind, h.results_eq, List.map_append]
    rfl
  · intro name
    rw [get?_contextBehind, SelectionResult.lastInto?_concat, h.get?_eq]
    by_cases stored : s.output = some name <;> simp [stored]

/-- **An outcome records the selections that led to it.** -/
theorem of_foldlM (h : made.foldlM (Outcome.advance root) (.start params) = .ok o) :
    o.Records root params made := by
  induction made using List.reverseRecOn generalizing o with
  | nil =>
    cases h
    exact start root params
  | append_singleton made s ih =>
    obtain ⟨o₀, before, last⟩ := foldlM_append_eq_ok_iff.mp h
    rw [foldlM_singleton] at last
    exact (ih before).advance last

/-- The texts of the outcome are those of the last result. -/
theorem outcome_values (h : o.Records root params made) :
    o.values = (o.results.getLast?.map (·.values)).getD [] := by
  rw [values, Context.prev?, h.results_eq, List.getLast?_map]

end Records

/-- Selections add to the results and leave those before them alone. -/
theorem prefix_of_foldlM {root : Node} {o o' : Outcome} {ss : List Selection}
    (h : ss.foldlM (advance root) o = .ok o') : o.results <+: o'.results := by
  induction ss generalizing o with
  | nil =>
    cases h
    exact List.prefix_refl _
  | cons s ss ih =>
    obtain ⟨o₁, first, rest⟩ := foldlM_cons_eq_ok_iff.mp h
    obtain ⟨path, -, rfl⟩ := advance_eq_ok_iff.mp first
    exact (List.prefix_append _ _).trans (ih rest)

end Outcome

end TreeQuery

import Mathlib.Data.List.Nodup
import TreeQuery.Plan.Validity

/-!
# What valid plans are

The search for violations carries along the names that were used before.  It finds none exactly in
a plan that has a name, selections with paths, and names for results that are all different
(`violation?_eq_none_iff`); so a name belongs to one selection only (`Valid.eq_of_output`).
-/

namespace TreeQuery.Plan

/-- What a plan must have to be loaded. -/
structure Valid (p : Plan) : Prop where
  named : p.name ≠ ""
  selects : p.selections ≠ []
  printed : ∀ s ∈ p.selections, Text.allBlank s.path.toList = false
  outputs_named : ∀ s ∈ p.selections, s.output ≠ some ""
  outputs_nodup : (p.selections.filterMap (·.output)).Nodup

/-- No violation is found among selections exactly if they have paths, and names that are neither
empty nor used. -/
theorem selectionViolation?_eq_none_iff {index : Nat} {used : List String}
    {ss : List Selection} :
    selectionViolation? index used ss = none ↔
      (∀ s ∈ ss, Text.allBlank s.path.toList = false) ∧ (∀ s ∈ ss, s.output ≠ some "") ∧
        (∀ name ∈ ss.filterMap (·.output), name ∉ used) ∧ (ss.filterMap (·.output)).Nodup := by
  induction ss generalizing index used with
  | nil => simp [selectionViolation?]
  | cons s ss ih =>
    rw [selectionViolation?, List.forall_mem_cons, List.forall_mem_cons]
    cases blank : Text.allBlank s.path.toList with
    | true => simp
    | false =>
      cases output : s.output with
      | none => simp [ih, output]
      | some name =>
        rw [List.filterMap_cons_some output, List.forall_mem_cons, List.nodup_cons]
        by_cases empty : name = ""
        · simp [empty]
        · by_cases again : name ∈ used
          · simp [empty, again]
          · have present : name.isEmpty = false := by simpa using empty
            have fresh : used.contains name = false := by simpa using again
            simp only [present, fresh, Bool.false_eq_true, if_false, ih, List.mem_cons, not_or]
            -- A later name is neither used before nor the name that is used here.
            constructor
            · rintro ⟨printed, named, apart, nodup⟩
              exact ⟨⟨trivial, printed⟩, ⟨by simpa using empty, named⟩,
                ⟨again, fun other h => (apart other h).2⟩, fun h => (apart name h).1 rfl, nodup⟩
            · rintro ⟨⟨-, printed⟩, ⟨-, named⟩, ⟨-, unused⟩, different, nodup⟩
              exact ⟨printed, named,
                fun other h => ⟨fun eq => different (eq ▸ h), unused other h⟩, nodup⟩

/-- **A plan has no violation exactly if it is valid.** -/
theorem violation?_eq_none_iff {p : Plan} : p.violation? = none ↔ p.Valid := by
  rw [violation?]
  by_cases unnamed : p.name = ""
  · exact iff_of_false (by simp [unnamed]) fun valid => valid.named unnamed
  · by_cases none : p.selections = []
    · exact iff_of_false (by simp [unnamed, none]) fun valid => valid.selects none
    · simp only [String.isEmpty_iff, unnamed, List.isEmpty_iff, none, if_false,
        selectionViolation?_eq_none_iff]
      constructor
      · rintro ⟨printed, outputs_named, -, outputs_nodup⟩
        exact ⟨unnamed, none, printed, outputs_named, outputs_nodup⟩
      · intro valid
        exact ⟨valid.printed, valid.outputs_named, fun _ _ => List.not_mem_nil,
          valid.outputs_nodup⟩

/-- A name is that of one selection only. -/
theorem Valid.eq_of_output {p : Plan} (valid : p.Valid) {i j : Nat} {s t : Selection}
    {name : String} (at_i : p.selections[i]? = some s) (at_j : p.selections[j]? = some t)
    (hs : s.output = some name) (ht : t.output = some name) : i = j := by
  obtain ⟨hi, rfl⟩ := List.getElem?_eq_some_iff.mp at_i
  obtain ⟨hj, rfl⟩ := List.getElem?_eq_some_iff.mp at_j
  have apart := List.pairwise_iff_getElem.mp (List.pairwise_filterMap.mp valid.outputs_nodup)
  rcases Nat.lt_trichotomy i j with lt | eq | lt
  · exact absurd rfl (apart i j hi hj lt name hs name ht)
  · exact eq
  · exact absurd rfl (apart j i hj hi lt name ht name hs)

end TreeQuery.Plan

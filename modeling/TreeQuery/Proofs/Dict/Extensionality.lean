import Mathlib.Data.List.Nodup
import Mathlib.Data.List.Perm.Basic
import TreeQuery.Dict

/-!
# Dictionaries and their look-ups

A dictionary is its look-ups: what is bound to a name is the one binding of it that is listed
(`Bindings.find?_eq_some_iff`), and two dictionaries with the same look-ups are the same
(`Dict.eq_of_find?`).  So bindings of different names may be made in any order
(`Dict.foldl_insert_eq`).
-/

namespace TreeQuery

namespace Bindings

variable {α : Type} {bindings bindings' : Bindings α}

theorem Ordered.names_nodup (h : Ordered bindings) : (bindings.map (·.1)).Nodup := by
  apply List.pairwise_map.mpr
  apply h.imp
  intro a b lt eq
  rw [eq] at lt
  exact String.lt_irrefl _ lt

theorem mem_of_find? {name : String} {value : α} (h : find? name bindings = some value) :
    (name, value) ∈ bindings := by
  induction bindings with
  | nil => cases h
  | cons entry rest ih =>
    obtain ⟨other, previous⟩ := entry
    unfold find? at h
    by_cases same : name = other
    · rw [if_pos same] at h
      cases h
      exact same ▸ List.mem_cons_self
    · rw [if_neg same] at h
      exact List.mem_cons_of_mem _ (ih h)

/-- **A look-up finds the binding that is listed.** -/
theorem Ordered.find?_eq_some_iff (h : Ordered bindings) {name : String} {value : α} :
    find? name bindings = some value ↔ (name, value) ∈ bindings := by
  refine ⟨mem_of_find?, fun listed => ?_⟩
  induction bindings with
  | nil => cases listed
  | cons entry rest ih =>
    obtain ⟨other, previous⟩ := entry
    obtain ⟨above, tail⟩ := List.pairwise_cons.mp h
    rcases List.mem_cons.mp listed with here | later
    · cases here
      exact if_pos rfl
    · have ne : name ≠ other := fun eq => String.lt_irrefl other (eq ▸ above _ later)
      exact (if_neg ne).trans (ih tail later)

theorem Ordered.eq_of_find? (h : Ordered bindings) (h' : Ordered bindings')
    (same : ∀ name, find? name bindings = find? name bindings') : bindings = bindings' := by
  have perm : bindings.Perm bindings' := by
    rw [List.perm_ext_iff_of_nodup (List.Nodup.of_map _ h.names_nodup)
      (List.Nodup.of_map _ h'.names_nodup)]
    rintro ⟨name, value⟩
    rw [← h.find?_eq_some_iff, ← h'.find?_eq_some_iff, same]
  refine perm.eq_of_pairwise (fun a b _ _ lt lt' => ?_) h h'
  exact absurd (String.lt_trans lt lt') (String.lt_irrefl _)

end Bindings

namespace Dict

variable {α : Type} {d e : Dict α}

/-- **Dictionaries with the same look-ups are the same.** -/
theorem eq_of_find? (same : ∀ name, d.find? name = e.find? name) : d = e := by
  obtain ⟨bindings, ordered⟩ := d
  obtain ⟨bindings', ordered'⟩ := e
  obtain rfl : bindings = bindings' := ordered.eq_of_find? ordered' same
  rfl

/-- What is found behind bindings of different names: one of them, or what was bound before. -/
theorem find?_foldl_insert {pairs : List (String × α)} (nodup : (pairs.map (·.1)).Nodup)
    (d : Dict α) {name : String} {value : α} :
    (pairs.foldl (fun d pair => d.insert pair.1 pair.2) d).find? name = some value ↔
      (name, value) ∈ pairs ∨ name ∉ pairs.map (·.1) ∧ d.find? name = some value := by
  induction pairs generalizing d with
  | nil => simp
  | cons pair pairs ih =>
    obtain ⟨other, previous⟩ := pair
    obtain ⟨fresh, rest⟩ := List.nodup_cons.mp nodup
    rw [List.foldl_cons, ih rest]
    by_cases same : name = other
    · subst same
      have unlisted : (name, value) ∉ pairs := fun listed =>
        fresh (List.mem_map.mpr ⟨_, listed, rfl⟩)
      have unnamed : name ∉ pairs.map (·.1) := fresh
      simp [unlisted, unnamed, eq_comm]
    · rw [find?_insert_of_ne d same]
      simp [same]

/-- **The order in which bindings are made leaves no trace.** -/
theorem foldl_insert_eq {pairs : List (String × α)} (h : pairs.Perm d.entries) :
    pairs.foldl (fun d pair => d.insert pair.1 pair.2) empty = d := by
  have nodup : (pairs.map (·.1)).Nodup := (h.map _).nodup_iff.mpr d.ordered.names_nodup
  apply eq_of_find?
  intro name
  ext value
  have listed : d.find? name = some value ↔ (name, value) ∈ d.entries :=
    d.ordered.find?_eq_some_iff
  rw [find?_foldl_insert nodup, h.mem_iff, find?_empty, listed]
  simp

theorem entries_foldl_insert (pairs : List (String × α)) (d : Dict α) :
    (pairs.foldl (fun d pair => d.insert pair.1 pair.2) d).entries =
      pairs.foldl (fun found pair => Bindings.insert pair.1 pair.2 found) d.entries := by
  induction pairs generalizing d with
  | nil => rfl
  | cons pair pairs ih => exact ih (d.insert pair.1 pair.2)

/-- The bindings of a dictionary, in any order, make the dictionary. -/
theorem ofPairs_eq {pairs : List (String × α)} (h : pairs.Perm d.entries) : ofPairs pairs = d :=
  calc ofPairs pairs
      = pairs.foldl (fun d pair => d.insert pair.1 pair.2) empty :=
        eq_of_find? fun name =>
          congrArg (Bindings.find? name) (entries_foldl_insert pairs empty).symm
    _ = d := foldl_insert_eq h

end Dict

end TreeQuery

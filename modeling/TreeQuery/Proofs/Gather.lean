import Mathlib.Data.List.Basic

/-!
# What is found along a list

Much of what is said of a listing or of a run of events depends on an element and on what stands
before it.  `gather f` applies `f` at every place of a list, to the elements before it and to the
element there, and keeps what is found, in order and once for each place.
-/

namespace TreeQuery

variable {α β : Type}

/-- What `f` finds at the places of a list, in order. -/
def gather (f : List α → α → Option β) (l : List α) : List β :=
  l.zipIdx.filterMap fun (a, i) => f (l.take i) a

@[simp] theorem gather_nil (f : List α → α → Option β) : gather f [] = [] := rfl

theorem filterMap_zipIdx_append (f : List α → α → Option β) (l m : List α) :
    ((m.zipIdx l.length).filterMap fun (a, i) => f ((l ++ m).take i) a) =
      gather (fun earlier => f (l ++ earlier)) m := by
  rw [gather, List.zipIdx_eq_map_add, List.filterMap_map]
  refine List.filterMap_congr fun x _ => ?_
  have past : l.take (l.length + x.2) = l := List.take_of_length_le (Nat.le_add_right _ _)
  simp [List.take_append, past]

/-- The places of two lists, the second behind the first. -/
theorem gather_append (f : List α → α → Option β) (l m : List α) :
    gather f (l ++ m) = gather f l ++ gather (fun earlier => f (l ++ earlier)) m := by
  rw [gather, List.zipIdx_append, List.filterMap_append, Nat.zero_add, filterMap_zipIdx_append]
  congr 1
  refine List.filterMap_congr fun x hx => ?_
  have lt : x.2 < l.length := (List.mem_zipIdx' hx).1
  simp only [List.take_append_of_le_length (Nat.le_of_lt lt)]

theorem gather_singleton (f : List α → α → Option β) (a : α) :
    gather f [a] = (f [] a).toList := by
  simp only [gather, List.zipIdx_singleton, List.filterMap_cons, List.filterMap_nil, List.take_zero]
  cases f [] a <;> rfl

theorem gather_cons (f : List α → α → Option β) (a : α) (l : List α) :
    gather f (a :: l) = (f [] a).toList ++ gather (fun earlier => f (a :: earlier)) l := by
  have := gather_append f [a] l
  rwa [gather_singleton] at this

theorem gather_concat (f : List α → α → Option β) (l : List α) (a : α) :
    gather f (l ++ [a]) = gather f l ++ (f l a).toList := by
  rw [gather_append, gather_singleton, List.append_nil]

theorem mem_gather {f : List α → α → Option β} {l : List α} {b : β} :
    b ∈ gather f l ↔ ∃ before a after, l = before ++ a :: after ∧ f before a = some b := by
  constructor
  · intro hb
    obtain ⟨⟨a, i⟩, hai, found⟩ := List.mem_filterMap.mp hb
    obtain ⟨lt, here⟩ := List.mem_zipIdx' hai
    exact ⟨l.take i, a, l.drop (i + 1),
      by rw [here, ← List.drop_eq_getElem_cons lt, List.take_append_drop], found⟩
  · rintro ⟨before, a, after, rfl, found⟩
    rw [gather_append, gather_cons, List.append_nil, found]
    simp

theorem gather_eq_nil_iff {f : List α → α → Option β} {l : List α} :
    gather f l = [] ↔ ∀ before a after, l = before ++ a :: after → f before a = none := by
  rw [List.eq_nil_iff_forall_not_mem]
  constructor
  · intro none before a after split
    cases found : f before a with
    | none => rfl
    | some b => exact absurd (mem_gather.mpr ⟨before, a, after, split, found⟩) (none b)
  · intro none b hb
    obtain ⟨before, a, after, split, found⟩ := mem_gather.mp hb
    rw [none before a after split] at found
    cases found

theorem gather_length_lt {f : List α → α → Option β} {before : List α} {a : α} {b : β}
    (found : f before a = some b) (after : List α) :
    (gather f before).length < (gather f (before ++ a :: after)).length := by
  rw [gather_append, gather_cons, List.append_nil, found]
  simp

/-- Where at most one thing is found there is at most one place for it. -/
theorem eq_of_gather_le_one {f : List α → α → Option β} {before before' after after' : List α}
    {a a' : α} {b b' : β} (found : f before a = some b) (found' : f before' a' = some b')
    (same : before ++ a :: after = before' ++ a' :: after')
    (one : (gather f (before ++ a :: after)).length ≤ 1) :
    before = before' ∧ a = a' ∧ after = after' := by
  -- A place behind another one would have something found before it.
  have apart : ∀ {u v w : List α} {x y : α} {c d : β}, f u x = some c → f (u ++ x :: v) y = some d →
      ¬ (gather f (u ++ x :: v ++ y :: w)).length ≤ 1 := by
    intro u v w x y c d here there
    have first := gather_length_lt here v
    have second := gather_length_lt there w
    omega
  obtain ⟨m, rfl, rest⟩ | ⟨m, rfl, rest⟩ := List.append_eq_append_iff.mp same
  · cases m with
    | nil =>
      obtain ⟨rfl, rfl⟩ := List.cons_eq_cons.mp rest
      exact ⟨(List.append_nil _).symm, rfl, rfl⟩
    | cons x m =>
      obtain ⟨rfl, rfl⟩ := List.cons_eq_cons.mp rest
      rw [same] at one
      exact absurd one (apart found found')
  · cases m with
    | nil =>
      obtain ⟨rfl, rfl⟩ := List.cons_eq_cons.mp rest
      exact ⟨List.append_nil _, rfl, rfl⟩
    | cons x m =>
      obtain ⟨rfl, rfl⟩ := List.cons_eq_cons.mp rest
      exact absurd one (apart found' found)

end TreeQuery

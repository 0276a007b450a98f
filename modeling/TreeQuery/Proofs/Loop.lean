import Mathlib.Order.WellFounded

/-!
# Loops

A loop is given by one turn: of a state it makes another state, or a result with which it ends.
`After turn n s t` says that `n` turns lead from `s` to `t`.

What every turn keeps holds wherever the loop comes (`After.kept`).  A loop whose turns make a
measure smaller comes to its end, in no more turns than the measure counts (`exists_end`).  And a
loop can be followed on states that know more, as long as forgetting it turns one loop into the
other (`After.map`).
-/

namespace TreeQuery.Loop

variable {σ τ ρ : Type} {turn : σ → σ ⊕ ρ} {n : Nat} {s t : σ}

/-- How many turns lead from one state to another. -/
inductive After (turn : σ → σ ⊕ ρ) : Nat → σ → σ → Prop where
  | start (s : σ) : After turn 0 s s
  | turn {n : Nat} {s t u : σ} : turn s = .inl t → After turn n t u → After turn (n + 1) s u

/-- What every turn keeps is kept by all of them. -/
theorem After.kept (h : After turn n s t) (P : σ → Prop)
    (keeps : ∀ s t, turn s = .inl t → P s → P t) (holds : P s) : P t := by
  induction h with
  | start s => exact holds
  | turn first _ ih => exact ih (keeps _ _ first holds)

/-- A loop that makes a measure smaller ends, with the value that its turns compute. -/
theorem exists_end (measure : σ → Nat) (value : σ → ρ)
    (shrinks : ∀ s t, turn s = .inl t → measure t < measure s)
    (computes : ∀ s, value s = (turn s).elim value id) (s : σ) :
    ∃ n last, n ≤ measure s ∧ After turn n s last ∧ turn last = .inr (value s) := by
  induction size : measure s using Nat.strong_induction_on generalizing s with
  | _ size' ih =>
    have here := computes s
    cases first : turn s with
    | inr result =>
      rw [first] at here
      exact ⟨0, s, Nat.zero_le _, .start s, first.trans (congrArg _ here.symm)⟩
    | inl t =>
      rw [first] at here
      have smaller : measure t < size' := size ▸ shrinks s t first
      obtain ⟨n, last, bound, after, ended⟩ := ih _ smaller t rfl
      refine ⟨n + 1, last, Nat.lt_of_le_of_lt bound smaller, .turn first after, ?_⟩
      exact ended.trans (congrArg _ here.symm)

/-- A loop is followed by the loop on what is left of its states. -/
theorem After.map {turn' : τ → τ ⊕ ρ} (forget : σ → τ)
    (follows : ∀ s t, turn s = .inl t → turn' (forget s) = .inl (forget t))
    (h : After turn n s t) : After turn' n (forget s) (forget t) := by
  induction h with
  | start s => exact .start _
  | turn first _ ih => exact .turn (follows _ _ first) ih

end TreeQuery.Loop

import Mathlib.Data.List.Basic

/-!
# Numbers in messages

Numbers are written in decimal digits.  The digits tell the number, and where a character that is no
digit stands behind them it is told as well where they end.
-/

namespace TreeQuery.Text

theorem toDigits_inj {i j : Nat} : Nat.toDigits 10 i = Nat.toDigits 10 j ↔ i = j := by
  refine ⟨fun same => ?_, congrArg _⟩
  have number := congrArg (fun digits => Nat.ofDigitChars 10 digits 0) same
  simpa only [Nat.ofDigitChars_toDigits (by decide : 1 < 10) (Nat.le_refl 10)] using number

/-- A number ends at a character behind it that is no digit. -/
theorem toDigits_append_inj {c : Char} (other : c.isDigit = false) {i j : Nat}
    {u v : List Char} :
    Nat.toDigits 10 i ++ c :: u = Nat.toDigits 10 j ++ c :: v ↔ i = j ∧ u = v := by
  constructor
  · intro same
    have digit : ∀ n : Nat, ∀ d ∈ Nat.toDigits 10 n, (d != c) = true := by
      intro n d mem
      refine bne_iff_ne.mpr fun eq => ?_
      cases other.symm.trans (Nat.isDigit_of_mem_toDigits (by decide) (by decide) (eq ▸ mem))
    have stop : ∀ w : List Char, (c :: w).takeWhile (· != c) = [] := fun w =>
      List.takeWhile_cons_of_neg (by simp)
    have front := congrArg (List.takeWhile (· != c)) same
    rw [List.takeWhile_append_of_pos (digit i), List.takeWhile_append_of_pos (digit j), stop, stop,
      List.append_nil, List.append_nil, toDigits_inj] at front
    subst front
    exact ⟨rfl, (List.cons.inj (List.append_cancel_left same)).2⟩
  · rintro ⟨rfl, rfl⟩
    rfl

end TreeQuery.Text

import Mathlib.Data.List.Forall2
import TreeQuery.Proofs.Text.Pieces

/-!
# Carriage returns in front of line feeds

`Unreturned s t` says that `t` is `s` without some of the carriage returns that have a line feed
behind them.  Nothing that treats the two characters alike tells such texts apart: marks are found
in both (`Unreturned.cutAt`), pieces correspond (`Unreturned.pieces`), and where both characters are
blank the words are the same (`Unreturned.words_eq`).

The relation goes through the parts of a text, unless the cut falls between the two characters
(`Unreturned.of_append`).
-/

namespace TreeQuery.Text

/-- Whether a text is another one without some of the carriage returns in front of line feeds. -/
inductive Unreturned : List Char → List Char → Prop where
  | nil : Unreturned [] []
  | cons (c : Char) {s t : List Char} : Unreturned s t → Unreturned (c :: s) (c :: t)
  | drop {s t : List Char} : Unreturned s t → Unreturned ('\r' :: '\n' :: s) ('\n' :: t)

namespace Unreturned

variable {s t u v mark passed passed' before after : List Char} {p : Char → Bool}

theorem refl (s : List Char) : Unreturned s s := by
  induction s with
  | nil => exact .nil
  | cons c s ih => exact .cons c ih

theorem append (h : Unreturned s t) (h' : Unreturned u v) : Unreturned (s ++ u) (t ++ v) := by
  induction h with
  | nil => exact h'
  | cons c _ ih => exact .cons c ih
  | drop _ ih => exact .drop ih

/-- A cut that does not part a carriage return from its line feed can be made in both texts. -/
theorem of_append (h : Unreturned (u ++ v) t) (apart : v.head? ≠ some '\n') :
    ∃ u' v', t = u' ++ v' ∧ Unreturned u u' ∧ Unreturned v v' := by
  generalize whole : u ++ v = s at h
  induction h generalizing u with
  | nil =>
    obtain ⟨rfl, rfl⟩ := List.append_eq_nil_iff.mp whole
    exact ⟨[], [], rfl, .nil, .nil⟩
  | @cons c s t h ih =>
    rcases List.append_eq_cons_iff.mp whole with ⟨rfl, rfl⟩ | ⟨u, rfl, rest⟩
    · exact ⟨[], _, rfl, .nil, .cons c h⟩
    · obtain ⟨u', v', rfl, hu, hv⟩ := ih rest.symm
      exact ⟨c :: u', v', rfl, .cons c hu, hv⟩
  | @drop s t h ih =>
    rcases List.append_eq_cons_iff.mp whole with ⟨rfl, rfl⟩ | ⟨u, rfl, rest⟩
    · exact ⟨[], _, rfl, .nil, .drop h⟩
    · rcases List.append_eq_cons_iff.mp rest.symm with ⟨rfl, rfl⟩ | ⟨u, rfl, later⟩
      · exact absurd rfl apart
      · obtain ⟨u', v', rfl, hu, hv⟩ := ih later.symm
        exact ⟨'\n' :: u', v', rfl, .drop hu, hv⟩

theorem cons_inv {c : Char} (h : Unreturned (c :: s) t) (other : c ≠ '\r') :
    ∃ t', t = c :: t' ∧ Unreturned s t' := by
  cases h with
  | cons _ h => exact ⟨_, rfl, h⟩
  | drop h => exact absurd rfl other

/-- A text without carriage returns stays as it is. -/
theorem free_append (free : '\r' ∉ u) (h : Unreturned (u ++ s) t) :
    ∃ t', t = u ++ t' ∧ Unreturned s t' := by
  induction u generalizing t with
  | nil => exact ⟨t, rfl, h⟩
  | cons c u ih =>
    obtain ⟨free_c, free⟩ := List.ne_and_not_mem_of_not_mem_cons free
    obtain ⟨t, rfl, rest⟩ := cons_inv h (Ne.symm free_c)
    obtain ⟨t', rfl, later⟩ := ih free rest
    exact ⟨t', rfl, later⟩

theorem eq_of_free (free : '\r' ∉ s) (h : Unreturned s t) : t = s := by
  rw [← List.append_nil s] at h
  obtain ⟨t', rfl, nothing⟩ := free_append free h
  cases nothing
  exact List.append_nil s

theorem eq_nil_iff (h : Unreturned s t) : t = [] ↔ s = [] := by
  cases h <;> simp

theorem subset (h : Unreturned s t) : t ⊆ s := by
  induction h with
  | nil => exact List.Subset.refl []
  | cons c _ ih => exact List.cons_subset_cons c ih
  | drop _ ih => exact List.subset_cons_of_subset '\r' (List.cons_subset_cons '\n' ih)

theorem getLast?_eq (h : Unreturned s t) : t.getLast? = s.getLast? := by
  induction h with
  | nil => rfl
  | cons c _ ih => rw [List.getLast?_cons, List.getLast?_cons, ih]
  | drop _ ih => simp [List.getLast?_cons, ih]

/-- A text that ends with some other character than a line feed ends so without the returns. -/
theorem concat_inv {c : Char} (h : Unreturned (s ++ [c]) t) (other : c ≠ '\r' ∧ c ≠ '\n') :
    ∃ t', t = t' ++ [c] ∧ Unreturned s t' := by
  obtain ⟨t', v, rfl, hs, last⟩ := h.of_append (by simpa using other.2)
  obtain rfl := last.eq_of_free (by simpa using other.1.symm)
  exact ⟨t', rfl, hs⟩

/-! ## Cutting at a kind of characters -/

theorem all_eq (return_ : p '\r' = true) (h : Unreturned s t) : t.all p = s.all p := by
  induction h with
  | nil => rfl
  | cons c _ ih => rw [List.all_cons, List.all_cons, ih]
  | drop _ ih => rw [List.all_cons, List.all_cons, List.all_cons, ih, return_, Bool.true_and]

/-- What stands in front of both characters is the same. -/
theorem takeWhile_eq (hr : ¬ p '\r' = true) (hn : ¬ p '\n' = true) (h : Unreturned s t) :
    t.takeWhile p = s.takeWhile p := by
  induction h with
  | nil => rfl
  | @cons c s t _ ih =>
    by_cases hc : p c = true
    · rw [List.takeWhile_cons_of_pos hc, List.takeWhile_cons_of_pos hc, ih]
    · rw [List.takeWhile_cons_of_neg hc, List.takeWhile_cons_of_neg hc]
  | drop _ _ => rw [List.takeWhile_cons_of_neg hr, List.takeWhile_cons_of_neg hn]

/-- Piece by piece the texts are so related if neither character is cut at. -/
theorem pieces (hr : ¬ p '\r' = true) (hn : ¬ p '\n' = true) (h : Unreturned s t) :
    List.Forall₂ Unreturned (pieces p s) (pieces p t) := by
  induction h with
  | nil => exact .cons .nil .nil
  | @cons c s t _ ih =>
    by_cases hc : p c = true
    · rw [pieces_cons_of_pos hc, pieces_cons_of_pos hc]
      exact .cons .nil ih
    · obtain ⟨piece, others, hs⟩ := List.exists_cons_of_ne_nil (pieces_ne_nil p s)
      obtain ⟨piece', others', ht⟩ := List.exists_cons_of_ne_nil (pieces_ne_nil p t)
      rw [hs, ht] at ih
      obtain ⟨first, later⟩ := List.forall₂_cons.mp ih
      rw [pieces_cons_of_neg hc hs, pieces_cons_of_neg hc ht]
      exact .cons (.cons c first) later
  | @drop s t _ ih =>
    obtain ⟨piece, others, hs⟩ := List.exists_cons_of_ne_nil (pieces_ne_nil p s)
    obtain ⟨piece', others', ht⟩ := List.exists_cons_of_ne_nil (pieces_ne_nil p t)
    rw [hs, ht] at ih
    obtain ⟨first, later⟩ := List.forall₂_cons.mp ih
    rw [pieces_cons_of_neg hr (pieces_cons_of_neg hn hs), pieces_cons_of_neg hn ht]
    exact .cons (.drop first) later

/-- Where both characters are cut at, the pieces differ by empty ones behind the first. -/
theorem exists_pieces (hr : p '\r' = true) (hn : p '\n' = true) (h : Unreturned s t) :
    ∃ piece others others', Text.pieces p s = piece :: others ∧ Text.pieces p t = piece :: others' ∧
      others'.filter (fun piece => !piece.isEmpty) = others.filter fun piece => !piece.isEmpty := by
  induction h with
  | nil => exact ⟨[], [], [], rfl, rfl, rfl⟩
  | @cons c s t _ ih =>
    obtain ⟨piece, others, others', hs, ht, same⟩ := ih
    by_cases hc : p c = true
    · refine ⟨[], _, _, pieces_cons_of_pos hc s, pieces_cons_of_pos hc t, ?_⟩
      rw [hs, ht, List.filter_cons, List.filter_cons, same]
    · exact ⟨c :: piece, others, others', pieces_cons_of_neg hc hs, pieces_cons_of_neg hc ht, same⟩
  | @drop s t _ ih =>
    obtain ⟨piece, others, others', hs, ht, same⟩ := ih
    refine ⟨[], _, _, pieces_cons_of_pos hr _, pieces_cons_of_pos hn t, ?_⟩
    rw [pieces_cons_of_pos hn, List.filter_cons_of_neg (by simp), hs, ht, List.filter_cons,
      List.filter_cons, same]

/-- **The words are the same.** -/
theorem words_eq (h : Unreturned s t) : words t = words s := by
  obtain ⟨piece, others, others', hs, ht, same⟩ :=
    h.exists_pieces (p := isBlank) (by decide) (by decide)
  rw [words, words, parts, parts, hs, ht, List.filter_cons, List.filter_cons, same]

theorem collapse_eq (h : Unreturned s t) : collapse t = collapse s := by
  rw [collapse, collapse, h.words_eq]

theorem allBlank_eq (h : Unreturned s t) : allBlank t = allBlank s := h.all_eq (by decide)

/-! ## Cutting at a mark -/

theorem isPrefixOf_eq (free : '\r' ∉ mark ∧ '\n' ∉ mark) (h : Unreturned s t) :
    mark.isPrefixOf t = mark.isPrefixOf s := by
  induction mark generalizing s t with
  | nil => rfl
  | cons m mark ih =>
    obtain ⟨other_r, free_r⟩ := List.ne_and_not_mem_of_not_mem_cons free.1
    obtain ⟨other_n, free_n⟩ := List.ne_and_not_mem_of_not_mem_cons free.2
    have hr : (m == '\r') = false := beq_eq_false_iff_ne.mpr (Ne.symm other_r)
    have hn : (m == '\n') = false := beq_eq_false_iff_ne.mpr (Ne.symm other_n)
    cases h with
    | nil => rfl
    | cons c h => rw [List.isPrefixOf, List.isPrefixOf, ih ⟨free_r, free_n⟩ h]
    | drop h => rw [List.isPrefixOf, List.isPrefixOf, hr, hn, Bool.false_and, Bool.false_and]

theorem go_of (nonempty : mark ≠ []) (free : '\r' ∉ mark ∧ '\n' ∉ mark)
    (front : Unreturned passed.reverse passed'.reverse) (h : Unreturned s t)
    (cut : cutAt?.go mark passed s = some (before, after)) :
    ∃ before' after', cutAt?.go mark passed' t = some (before', after') ∧
      Unreturned before before' ∧ Unreturned after after' := by
  have unmarked : ∀ {c : Char} {x : List Char}, c ∉ mark → ¬ mark.isPrefixOf (c :: x) = true := by
    intro c x outside begins
    obtain ⟨m, rest, rfl⟩ := List.exists_cons_of_ne_nil nonempty
    obtain ⟨rfl, -⟩ := List.cons_prefix_cons.mp (List.isPrefixOf_iff_prefix.mp begins)
    exact outside List.mem_cons_self
  induction h generalizing passed passed' with
  | nil =>
    rw [cutAt?.go, if_neg (by simpa using nonempty)] at cut
    cases cut
  | @cons c s t h ih =>
    have same := (h.cons c).isPrefixOf_eq free
    rw [cutAt?.go] at cut ⊢
    by_cases begins : mark.isPrefixOf (c :: s) = true
    · rw [if_pos begins] at cut
      rw [if_pos (same.trans begins)]
      cases cut
      obtain ⟨rest, whole⟩ := List.isPrefixOf_iff_prefix.mp begins
      have both := h.cons c
      rw [← whole] at both
      obtain ⟨rest', whole', later⟩ := both.free_append free.1
      refine ⟨_, _, rfl, front, ?_⟩
      rw [← whole, whole', List.drop_left, List.drop_left]
      exact later
    · rw [if_neg begins] at cut
      rw [if_neg (same ▸ begins)]
      refine ih ?_ cut
      rw [List.reverse_cons, List.reverse_cons]
      exact front.append (.refl [c])
  | @drop s t h ih =>
    rw [cutAt?.go, if_neg (unmarked free.1), cutAt?.go, if_neg (unmarked free.2)] at cut
    rw [cutAt?.go, if_neg (unmarked free.2)]
    refine ih ?_ cut
    rw [List.reverse_cons, List.reverse_cons, List.reverse_cons, List.append_assoc]
    exact front.append (.drop .nil)

/-- **A mark without either character is found in both texts.** -/
theorem cutAt (nonempty : mark ≠ []) (free : '\r' ∉ mark ∧ '\n' ∉ mark) (h : Unreturned s t)
    (cut : cutAt? mark s = some (before, after)) :
    ∃ before' after', cutAt? mark t = some (before', after') ∧ Unreturned before before' ∧
      Unreturned after after' :=
  have front : Unreturned ([] : List Char).reverse ([] : List Char).reverse := .nil
  go_of nonempty free front h cut

end Unreturned

end TreeQuery.Text

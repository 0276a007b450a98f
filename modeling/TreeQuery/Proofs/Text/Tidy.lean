import Mathlib.Data.List.Basic
import TreeQuery.Proofs.Text.Pieces

/-!
# Collapsed texts

`Tidy` says what a reader may expect of a collapsed text: there is something in it, a space is the
only white space, and no space stands at either end or beside another one.  Whatever the white space
of a text was, collapsing it leaves a tidy text, unless it leaves nothing (`tidy_collapse`).
-/

namespace TreeQuery.Text

/-- Whether a text has words, and nothing but one space between two of them. -/
structure Tidy (s : List Char) : Prop where
  nonempty : s ≠ []
  eq_space : ∀ c ∈ s, isBlank c = true → c = ' '
  head_ne : s.head? ≠ some ' '
  last_ne : s.getLast? ≠ some ' '
  apart : ¬ [' ', ' '] <:+: s

/-- Whether a text is one word. -/
structure IsWord (w : List Char) : Prop where
  nonempty : w ≠ []
  solid : ∀ c ∈ w, isBlank c = false

/-! ## Words -/

theorem not_of_mem_pieces {p : Char → Bool} {s piece : List Char} (h : piece ∈ pieces p s) :
    ∀ c ∈ piece, ¬ p c = true := by
  induction s generalizing piece with
  | nil =>
    rw [pieces_nil, List.mem_singleton] at h
    subst h
    exact fun c hc => nomatch hc
  | cons c s ih =>
    by_cases cut : p c = true
    · rw [pieces_cons_of_pos cut] at h
      rcases List.mem_cons.mp h with rfl | h
      · exact fun d hd => nomatch hd
      · exact ih h
    · obtain ⟨first, others, hs⟩ := List.exists_cons_of_ne_nil (pieces_ne_nil p s)
      rw [hs] at ih
      rw [pieces_cons_of_neg cut hs] at h
      rcases List.mem_cons.mp h with rfl | h
      · intro d hd
        rcases List.mem_cons.mp hd with rfl | hd
        · exact cut
        · exact ih List.mem_cons_self d hd
      · exact ih (List.mem_cons_of_mem _ h)

theorem isWord_of_mem_words {s w : List Char} (h : w ∈ words s) : IsWord w := by
  refine ⟨ne_nil_of_mem_words h, fun c hc => ?_⟩
  have piece : w ∈ pieces isBlank s := (List.mem_filter.mp h).1
  exact Bool.eq_false_iff.mpr (not_of_mem_pieces piece c hc)

namespace IsWord

variable {w : List Char}

theorem ne_space (h : IsWord w) : ∀ c ∈ w, c ≠ ' ' := by
  rintro _ hc rfl
  exact absurd (h.solid ' ' hc) (by decide)

theorem tidy (h : IsWord w) : Tidy w where
  nonempty := h.nonempty
  eq_space c hc blank := absurd (h.solid c hc) (by simp [blank])
  head_ne first := h.ne_space ' ' (List.mem_of_head? first) rfl
  last_ne last := h.ne_space ' ' (List.mem_of_getLast? last) rfl
  apart double := h.ne_space ' ' (double.subset List.mem_cons_self) rfl

end IsWord

/-! ## Words one space apart -/

/-- Two spaces side by side would begin at the space that was put between. -/
theorem apart_append {w s : List Char} (hw : ∀ c ∈ w, c ≠ ' ') (first : s.head? ≠ some ' ')
    (apart : ¬ [' ', ' '] <:+: s) : ¬ [' ', ' '] <:+: w ++ ' ' :: s := by
  induction w with
  | nil =>
    intro double
    rcases List.infix_cons_iff.mp double with begins | later
    · obtain ⟨t, rfl⟩ := (List.cons_prefix_cons.mp begins).2
      exact first rfl
    · exact apart later
  | cons c w ih =>
    intro double
    rcases List.infix_cons_iff.mp double with begins | later
    · exact hw c List.mem_cons_self (List.cons_prefix_cons.mp begins).1.symm
    · exact ih (fun d hd => hw d (List.mem_cons_of_mem c hd)) later

theorem IsWord.tidy_append {w s : List Char} (h : IsWord w) (hs : Tidy s) :
    Tidy (w ++ ' ' :: s) where
  nonempty := by simp
  eq_space c hc blank := by
    rcases List.mem_append.mp hc with hc | hc
    · exact h.tidy.eq_space c hc blank
    · rcases List.mem_cons.mp hc with rfl | hc
      · rfl
      · exact hs.eq_space c hc blank
  head_ne := by
    rw [List.head?_append_of_ne_nil _ h.nonempty]
    exact h.tidy.head_ne
  last_ne := by
    rw [List.getLast?_append_of_ne_nil _ (List.cons_ne_nil _ _), List.getLast?_cons_of_ne_nil
      hs.nonempty]
    exact hs.last_ne
  apart := apart_append h.ne_space hs.head_ne hs.apart

theorem tidy_intercalate {ws : List (List Char)} (nonempty : ws ≠ []) (h : ∀ w ∈ ws, IsWord w) :
    Tidy ([' '].intercalate ws) := by
  induction ws with
  | nil => exact absurd rfl nonempty
  | cons w ws ih =>
    have word := h w List.mem_cons_self
    cases ws with
    | nil =>
      rw [List.intercalate_singleton]
      exact word.tidy
    | cons w' ws =>
      rw [List.intercalate_cons_cons, List.append_assoc]
      exact word.tidy_append (ih (List.cons_ne_nil _ _) fun v hv => h v (List.mem_cons_of_mem w hv))

/-- **What collapsing leaves of a text is tidy**, if it leaves anything. -/
theorem tidy_collapse {s : List Char} (printed : ¬ allBlank s = true) : Tidy (collapse s) := by
  apply tidy_intercalate
  · rwa [words, Ne, parts_eq_nil_iff]
  · exact fun w => isWord_of_mem_words

end TreeQuery.Text

import TreeQuery.Text.Blank

/-!
# Cutting a text

Pieces, parts and words of a text as equations: what one more character does, and what it means
for a text to have no words (`collapse_eq_nil_iff`).  A text is cut at a mark where the mark was
written, if it does not occur before (`cutAt_append`); that asks for a mark whose last character is
not among the others, so that no occurrence begins in the text and ends in the mark.
-/

namespace TreeQuery.Text

/-! ## Pieces -/

@[simp] theorem pieces_nil (p : Char → Bool) : pieces p [] = [[]] := rfl

/-- A character that is cut at begins a new piece. -/
theorem pieces_cons_of_pos {p : Char → Bool} {c : Char} (h : p c = true) (s : List Char) :
    pieces p (c :: s) = [] :: pieces p s := by
  rw [pieces, List.foldr_cons, if_pos h]
  rfl

theorem pieces_ne_nil (p : Char → Bool) (s : List Char) : pieces p s ≠ [] := by
  cases s with
  | nil => exact List.cons_ne_nil _ _
  | cons c s =>
    rw [pieces, List.foldr_cons]
    split
    · exact List.cons_ne_nil _ _
    · split <;> exact List.cons_ne_nil _ _

/-- Any other character stands first in the first piece. -/
theorem pieces_cons_of_neg {p : Char → Bool} {c : Char} (h : ¬ p c = true) {s piece : List Char}
    {others : List (List Char)} (hs : pieces p s = piece :: others) :
    pieces p (c :: s) = (c :: piece) :: others := by
  rw [pieces] at hs
  rw [pieces, List.foldr_cons, if_neg h, hs]

/-- A text without a cut stands first in the first piece. -/
theorem pieces_append_of_neg {p : Char → Bool} {u : List Char} (h : ∀ c ∈ u, ¬ p c = true)
    {s piece : List Char} {others : List (List Char)} (hs : pieces p s = piece :: others) :
    pieces p (u ++ s) = (u ++ piece) :: others := by
  induction u with
  | nil => exact hs
  | cons c u ih =>
    exact pieces_cons_of_neg (h c List.mem_cons_self)
      (ih fun d hd => h d (List.mem_cons_of_mem c hd))

/-- A text without a cut is one piece. -/
theorem pieces_of_neg {p : Char → Bool} {s : List Char} (h : ∀ c ∈ s, ¬ p c = true) :
    pieces p s = [s] := by
  have whole := pieces_append_of_neg h (pieces_nil p)
  rwa [List.append_nil] at whole

/-- Where two texts meet, the last piece of the one and the first piece of the other are one. -/
theorem exists_pieces_append {p : Char → Bool} (u : List Char) {v first : List Char}
    {later : List (List Char)} (hv : pieces p v = first :: later) :
    ∃ earlier last, pieces p u = earlier ++ [last] ∧
      pieces p (u ++ v) = earlier ++ (last ++ first) :: later := by
  induction u with
  | nil => exact ⟨[], [], rfl, hv⟩
  | cons c u ih =>
    obtain ⟨earlier, last, hu, huv⟩ := ih
    by_cases cut : p c = true
    · refine ⟨[] :: earlier, last, ?_, ?_⟩
      · rw [pieces_cons_of_pos cut, hu, List.cons_append]
      · rw [List.cons_append, pieces_cons_of_pos cut, huv, List.cons_append]
    · rcases earlier with _ | ⟨piece, earlier⟩
      · exact ⟨[], c :: last, pieces_cons_of_neg cut hu, pieces_cons_of_neg cut huv⟩
      · exact ⟨(c :: piece) :: earlier, last, pieces_cons_of_neg cut hu, pieces_cons_of_neg cut huv⟩

/-- With a cut before each piece the text is put together again. -/
theorem flatMap_pieces (cut : Char) (s : List Char) :
    (pieces (· == cut) s).flatMap (cut :: ·) = cut :: s := by
  induction s with
  | nil => rfl
  | cons c s ih =>
    by_cases same : c = cut
    · rw [pieces_cons_of_pos (by simpa using same), List.flatMap_cons, ih, same]
      rfl
    · obtain ⟨piece, others, hs⟩ := List.exists_cons_of_ne_nil (pieces_ne_nil (· == cut) s)
      rw [hs, List.flatMap_cons, List.cons_append] at ih
      rw [pieces_cons_of_neg (by simpa using same) hs, List.flatMap_cons, List.cons_append,
        List.cons_append, (List.cons.inj ih).2]

/-! ## Words -/

theorem parts_eq_nil_iff (p : Char → Bool) (s : List Char) :
    parts p s = [] ↔ s.all p = true := by
  induction s with
  | nil => simp [parts]
  | cons c s ih =>
    by_cases h : p c = true
    · rw [parts, pieces_cons_of_pos h, List.filter_cons_of_neg (by simp), List.all_cons, h,
        Bool.true_and]
      exact ih
    · obtain ⟨piece, others, hs⟩ := List.exists_cons_of_ne_nil (pieces_ne_nil p s)
      rw [parts, pieces_cons_of_neg h hs, List.filter_cons_of_pos (by simp)]
      simp [h]

theorem ne_nil_of_mem_words {s w : List Char} (h : w ∈ words s) : w ≠ [] := by
  rintro rfl
  simpa using (List.mem_filter.mp h).2

/-- **Only a blank text collapses to nothing.** -/
theorem collapse_eq_nil_iff (s : List Char) : collapse s = [] ↔ allBlank s = true := by
  rw [allBlank, ← parts_eq_nil_iff]
  constructor
  · intro h
    cases hw : words s with
    | nil => exact hw
    | cons w ws =>
      have : w ≠ [] := ne_nil_of_mem_words (hw ▸ List.mem_cons_self)
      rw [collapse, hw, List.intercalate] at h
      cases ws <;> simp_all
  · intro h
    rw [collapse, words, h]
    rfl

/-! ## Marks -/

section Marks

variable {m : List Char} {x : Char}

theorem not_prefix_append (hx : x ∉ m) {s : List Char} (hs : s ≠ []) (h : ¬ m ++ [x] <+: s)
    (rest : List Char) : ¬ m ++ [x] <+: s ++ (m ++ [x] ++ rest) := by
  intro begins
  rcases List.prefix_or_prefix_of_prefix begins (List.prefix_append s _) with inside | inside
  · exact h inside
  · rcases List.prefix_concat_iff.mp inside with rfl | ⟨u, rfl⟩
    · exact h (List.prefix_refl _)
    · -- The mark would end in the mark that was written, before its last character.
      have begins' : s ++ (u ++ [x]) <+: s ++ (s ++ u ++ ([x] ++ rest)) := by simpa using begins
      have early := (List.prefix_append_right_inj s).mp begins'
      have shorter : (u ++ [x]).length ≤ (s ++ u).length := by
        have := List.length_pos_iff.mpr hs
        simp only [List.length_append, List.length_singleton]
        omega
      have within : u ++ [x] <+: s ++ u :=
        List.prefix_of_prefix_length_le early (List.prefix_append _ _) shorter
      exact hx (within.subset (by simp))

theorem go_append (hx : x ∉ m) {s : List Char} (h : ¬ m ++ [x] <:+: s) (passed rest : List Char) :
    cutAt?.go (m ++ [x]) passed (s ++ (m ++ [x] ++ rest)) = some (passed.reverse ++ s, rest) := by
  induction s generalizing passed with
  | nil =>
    obtain ⟨c, t, mark⟩ : ∃ c t, m ++ [x] ++ rest = c :: t :=
      List.exists_cons_of_ne_nil (by simp)
    rw [List.nil_append, mark, cutAt?.go, ← mark,
      if_pos (List.isPrefixOf_iff_prefix.mpr (List.prefix_append _ _)), List.drop_left,
      List.append_nil]
  | cons c s ih =>
    have later : ¬ m ++ [x] <:+: s := fun inside => h (inside.trans (List.suffix_cons c s).isInfix)
    have here : ¬ m ++ [x] <+: c :: (s ++ (m ++ [x] ++ rest)) :=
      not_prefix_append hx (List.cons_ne_nil c s) (fun begins => h begins.isInfix) rest
    rw [List.cons_append, cutAt?.go, if_neg (mt List.isPrefixOf_iff_prefix.mp here), ih later]
    simp

/-- **A text is cut at the first mark behind it.** -/
theorem cutAt_append (hx : x ∉ m) {s : List Char} (h : ¬ m ++ [x] <:+: s) (rest : List Char) :
    cutAt? (m ++ [x]) (s ++ (m ++ [x] ++ rest)) = some (s, rest) := go_append hx h [] rest

end Marks

theorem go_mark {mark : List Char} (nonempty : mark ≠ []) (passed rest : List Char) :
    cutAt?.go mark passed (mark ++ rest) = some (passed.reverse, rest) := by
  have begins : mark.isPrefixOf (mark ++ rest) = true :=
    List.isPrefixOf_iff_prefix.mpr (List.prefix_append mark rest)
  obtain ⟨c, t, whole⟩ := List.exists_cons_of_ne_nil (List.append_ne_nil_of_left_ne_nil nonempty rest)
  rw [whole] at begins ⊢
  rw [cutAt?.go, if_pos begins, ← whole, List.drop_left]

/-- **A cut does not depend on what follows the mark.** -/
theorem cutAt_eq_some {mark s before after : List Char} (nonempty : mark ≠ [])
    (h : cutAt? mark s = some (before, after)) :
    s = before ++ (mark ++ after) ∧
      ∀ rest, cutAt? mark (before ++ (mark ++ rest)) = some (before, rest) := by
  have key : ∀ (s passed : List Char), cutAt?.go mark passed s = some (before, after) →
      ∃ inner, before = passed.reverse ++ inner ∧ s = inner ++ (mark ++ after) ∧
        ∀ rest, cutAt?.go mark passed (inner ++ (mark ++ rest)) = some (before, rest) := by
    intro s
    induction s with
    | nil =>
      intro passed h
      rw [cutAt?.go, if_neg (by simpa using nonempty)] at h
      cases h
    | cons c s ih =>
      intro passed h
      rw [cutAt?.go] at h
      by_cases begins : mark.isPrefixOf (c :: s) = true
      · rw [if_pos begins] at h
        cases h
        refine ⟨[], by simp, ?_, fun rest => go_mark nonempty passed rest⟩
        exact (List.prefix_iff_eq_append.mp (List.isPrefixOf_iff_prefix.mp begins)).symm
      · rw [if_neg begins] at h
        obtain ⟨inner, hbefore, rfl, again⟩ := ih (c :: passed) h
        refine ⟨c :: inner, by simpa using hbefore, rfl, fun rest => ?_⟩
        -- Whether the mark begins here is told by the text up to the end of the mark behind.
        have early : ¬ mark.isPrefixOf (c :: (inner ++ (mark ++ rest))) = true := by
          intro begins'
          have short : mark <+: c :: inner ++ mark := by
            refine List.prefix_of_prefix_length_le (List.isPrefixOf_iff_prefix.mp begins')
              ⟨rest, by simp⟩ ?_
            simp only [List.length_append]
            omega
          refine begins (List.isPrefixOf_iff_prefix.mpr (short.trans ⟨after, ?_⟩))
          simp
        rw [List.cons_append, cutAt?.go, if_neg early, again]
  obtain ⟨inner, rfl, rfl, again⟩ := key s [] h
  exact ⟨rfl, again⟩

end TreeQuery.Text

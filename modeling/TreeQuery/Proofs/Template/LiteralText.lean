import Mathlib.Data.List.TakeWhile
import TreeQuery.Template.Tag

/-!
# Literal text in templates

`LiteralText s t rest` says how the literal text `t` is written at the beginning of a template `s`:
as it is, up to the first two braces that begin a tag.  Two braces behind one backslash begin none;
they are text, and so are two more of them, and the backslash is not.  Several backslashes before
two braces are text but for one of them, and the braces begin a tag.

Every text begins with one literal text (`exists_literalText`, `LiteralText.unique`), and that is
what is read (`LiteralText.literalRun_eq`).
-/

namespace TreeQuery.Template

open Tag (opening)

/-- Whether a text begins with two braces, or with backslashes before two braces. -/
def BeginsMark (s : List Char) : Prop := ∃ k, List.replicate k '\\' ++ opening <+: s

/-- The literal text that a template begins with, as it is written, and what stands behind it. -/
inductive LiteralText : List Char → List Char → List Char → Prop where
  /-- The template ends. -/
  | finish : LiteralText [] [] []
  /-- A tag begins. -/
  | tag {s : List Char} : opening <+: s → LiteralText s [] s
  /-- Several backslashes before a tag. -/
  | slashes (k : Nat) {s : List Char} : opening <+: s →
    LiteralText (List.replicate (k + 2) '\\' ++ s) (List.replicate (k + 1) '\\') s
  /-- Two braces that begin no tag. -/
  | two {s t rest : List Char} : ¬ opening <+: s → LiteralText s t rest →
    LiteralText ('\\' :: opening ++ s) (opening ++ t) rest
  /-- Four braces that begin no tag. -/
  | four {s t rest : List Char} : LiteralText s t rest →
    LiteralText ('\\' :: (opening ++ opening) ++ s) (opening ++ opening ++ t) rest
  /-- Any other character. -/
  | letter {c : Char} {s t rest : List Char} : ¬ BeginsMark (c :: s) → LiteralText s t rest →
    LiteralText (c :: s) (c :: t) rest

namespace LiteralText

variable {s t t' rest rest' : List Char}

/-! ## What is read -/

/-- The backslashes that a text begins with and the rest are the text. -/
theorem leadingBackslashes_append (s : List Char) :
    List.replicate (leadingBackslashes s).length '\\' ++ s.drop (leadingBackslashes s).length =
      s := by
  have same : leadingBackslashes s = List.replicate (leadingBackslashes s).length '\\' := by
    refine List.eq_replicate_iff.mpr ⟨rfl, fun c hc => ?_⟩
    simpa using List.mem_takeWhile_imp hc
  have whole : leadingBackslashes s ++ s.dropWhile (· == '\\') = s :=
    List.takeWhile_append_dropWhile
  calc
    _ = leadingBackslashes s ++ s.drop (leadingBackslashes s).length := by rw [← same]
    _ = s := (List.prefix_iff_eq_append.mp ⟨_, whole⟩)

theorem leadingBackslashes_replicate (k : Nat) (begins : opening <+: s) :
    leadingBackslashes (List.replicate k '\\' ++ s) = List.replicate k '\\' := by
  obtain ⟨u, rfl⟩ := begins
  rw [leadingBackslashes, List.takeWhile_append_of_pos (by simp),
    List.takeWhile_eq_nil_iff.mpr (by simp [opening]), List.append_nil]

theorem literalRun_finish (steps : Nat) (done : List Char) :
    literalRun opening steps done [] = (done, []) := by
  cases steps <;> rfl

theorem literalRun_tag (begins : opening <+: s) (steps : Nat) (done : List Char) :
    literalRun opening steps done s = (done, s) := by
  cases steps with
  | zero => rfl
  | succ steps =>
    have slashes : leadingBackslashes s = [] := leadingBackslashes_replicate 0 begins
    unfold literalRun
    simp [slashes, List.isPrefixOf_iff_prefix, begins]

theorem literalRun_slashes (k : Nat) (begins : opening <+: s) (steps : Nat) (done : List Char) :
    literalRun opening (steps + 1) done (List.replicate (k + 2) '\\' ++ s) =
      (List.replicate (k + 1) '\\' ++ done, s) := by
  have slashes := leadingBackslashes_replicate (k + 2) begins
  unfold literalRun
  simp only [slashes]
  simp [List.isPrefixOf_iff_prefix, begins, literalRun_tag begins]

theorem literalRun_two (single : ¬ opening <+: s) (steps : Nat) (done : List Char) :
    literalRun opening (steps + 1) done ('\\' :: opening ++ s) =
      literalRun opening steps (opening ++ done) s := by
  have slashes := leadingBackslashes_replicate 1 (List.prefix_append opening s)
  have two : ¬ opening ++ opening <+: opening ++ s := by
    rwa [List.prefix_append_right_inj]
  have text : '\\' :: opening ++ s = List.replicate 1 '\\' ++ (opening ++ s) := rfl
  rw [text]
  conv => lhs; unfold literalRun
  simp only [slashes]
  simp [List.isPrefixOf_iff_prefix, two]
  rfl

theorem literalRun_four (steps : Nat) (done : List Char) :
    literalRun opening (steps + 1) done ('\\' :: (opening ++ opening) ++ s) =
      literalRun opening steps (opening ++ opening ++ done) s := by
  have slashes := leadingBackslashes_replicate 1 (List.prefix_append opening (opening ++ s))
  have text : '\\' :: (opening ++ opening) ++ s =
      List.replicate 1 '\\' ++ (opening ++ (opening ++ s)) := rfl
  rw [text]
  conv => lhs; unfold literalRun
  simp only [slashes]
  simp [List.isPrefixOf_iff_prefix]
  rfl

theorem literalRun_letter {c : Char} (other : ¬ BeginsMark (c :: s)) (steps : Nat)
    (done : List Char) :
    literalRun opening (steps + 1) done (c :: s) = literalRun opening steps (c :: done) s := by
  have behind : ¬ opening <+: (c :: s).drop (leadingBackslashes (c :: s)).length := by
    intro begins
    refine other ⟨(leadingBackslashes (c :: s)).length, ?_⟩
    have inside := (List.prefix_append_right_inj
      (List.replicate (leadingBackslashes (c :: s)).length '\\')).mpr begins
    rwa [leadingBackslashes_append] at inside
  have here : ¬ opening <+: c :: s := fun begins => other ⟨0, begins⟩
  conv => lhs; unfold literalRun
  simp [List.isPrefixOf_iff_prefix, behind, here]

/-- **Literal text is read as it is meant.** -/
theorem literalRun_eq (h : LiteralText s t rest) {steps : Nat} (enough : s.length ≤ steps)
    (done : List Char) : literalRun opening steps done s = (t.reverse ++ done, rest) := by
  induction h generalizing steps done with
  | finish => exact literalRun_finish steps done
  | tag begins => exact literalRun_tag begins steps done
  | slashes k begins =>
    cases steps with
    | zero => simp at enough
    | succ steps => rw [literalRun_slashes k begins, List.reverse_replicate]
  | two single _ ih =>
    cases steps with
    | zero => simp at enough
    | succ steps =>
      rw [literalRun_two single, ih (by simp at enough; omega)]
      simp [opening]
  | four _ ih =>
    cases steps with
    | zero => simp at enough
    | succ steps =>
      rw [literalRun_four, ih (by simp at enough; omega)]
      simp [opening]
  | letter other _ ih =>
    cases steps with
    | zero => simp at enough
    | succ steps =>
      rw [literalRun_letter other, ih (by simp at enough; omega)]
      simp

/-- A text begins with one literal text only. -/
theorem unique (h : LiteralText s t rest) (h' : LiteralText s t' rest') :
    t = t' ∧ rest = rest' := by
  have same := h.literalRun_eq (Nat.le_refl _) []
  rw [h'.literalRun_eq (Nat.le_refl _) []] at same
  obtain ⟨text, behind⟩ := Prod.mk.inj same
  exact ⟨by simpa using text.symm, behind.symm⟩

/-- Literal text goes on up to a tag or to the end. -/
theorem ends (h : LiteralText s t rest) : rest = [] ∨ opening <+: rest := by
  induction h with
  | finish => exact .inl rfl
  | tag begins => exact .inr begins
  | slashes _ begins => exact .inr begins
  | two _ _ ih => exact ih
  | four _ ih => exact ih
  | letter _ _ ih => exact ih

theorem suffix (h : LiteralText s t rest) : rest <:+ s := by
  induction h with
  | finish => exact List.suffix_refl []
  | tag => exact List.suffix_refl _
  | slashes => exact List.suffix_append _ _
  | two _ _ ih => exact ih.trans (List.suffix_append _ _)
  | four _ ih => exact ih.trans (List.suffix_append _ _)
  | letter _ _ ih => exact ih.trans (List.suffix_cons _ _)

/-- Text is written with no fewer characters than it has, and with more where it has braces. -/
theorem length_le (h : LiteralText s t rest) : t.length + rest.length ≤ s.length := by
  induction h with
  | finish => exact Nat.le_refl _
  | tag => exact Nat.le_of_eq (Nat.zero_add _)
  | slashes k => simp only [List.length_append, List.length_replicate]; omega
  | two _ _ ih => simp only [List.length_append, List.length_cons]; omega
  | four _ ih => simp only [List.length_append, List.length_cons]; omega
  | letter _ _ ih => simp only [List.length_cons]; omega

/-- Where a whole template is one literal text, either it has no two braces side by side and means
itself, or it has them and means a shorter text. -/
theorem eq_or_length_lt (h : LiteralText s t []) :
    t = s ∧ ¬ opening <:+: s ∨ t.length < s.length ∧ opening <:+: s := by
  generalize none : ([] : List Char) = rest at h
  induction h with
  | finish => exact .inl ⟨rfl, by decide⟩
  | tag begins =>
    subst none
    exact absurd begins (by decide)
  | slashes k begins =>
    subst none
    exact absurd begins (by decide)
  | @two s t rest single h ih =>
    refine .inr ⟨?_, ['\\'], s, rfl⟩
    have := h.length_le
    simp only [List.length_append, List.length_cons]
    omega
  | @four s t rest h ih =>
    refine .inr ⟨?_, ['\\'], opening ++ s, by simp⟩
    have := h.length_le
    simp only [List.length_append, List.length_cons]
    omega
  | @letter c s t rest other h ih =>
    have here : ¬ opening <+: c :: s := fun begins => other ⟨0, begins⟩
    rw [List.infix_cons_iff]
    rcases ih none with ⟨rfl, free⟩ | ⟨shorter, braces⟩
    · exact .inl ⟨rfl, not_or.mpr ⟨here, free⟩⟩
    · exact .inr ⟨Nat.succ_lt_succ shorter, .inr braces⟩

/-! ## How it is written -/

theorem infix_of_beginsMark (h : BeginsMark s) : opening <:+: s := by
  obtain ⟨k, begins⟩ := h
  exact (List.suffix_append _ opening).isInfix.trans begins.isInfix

/-- A text without two braces side by side is written as it is. -/
theorem of_free (free : ¬ opening <:+: s) : LiteralText s s [] := by
  induction s with
  | nil => exact .finish
  | cons c s ih =>
    refine .letter (fun mark => free (infix_of_beginsMark mark)) (ih fun inside => free ?_)
    exact inside.trans (List.suffix_cons c s).isInfix

/-- Characters that are no part of a mark may stand before any literal text. -/
theorem append_plain {gap : List Char} (plain : ∀ c ∈ gap, c ≠ '\\' ∧ c ≠ '\x7b')
    (h : LiteralText s t rest) : LiteralText (gap ++ s) (gap ++ t) rest := by
  induction gap with
  | nil => exact h
  | cons c gap ih =>
    refine .letter ?_ (ih fun d hd => plain d (List.mem_cons_of_mem c hd))
    rintro ⟨k, u, mark⟩
    obtain ⟨slash, brace⟩ := plain c List.mem_cons_self
    cases k with
    | zero => exact brace (List.cons.inj mark).1.symm
    | succ k => exact slash (List.cons.inj mark).1.symm

/-- A mark that goes over a character that it does not have ends before it. -/
theorem prefix_of_prefix_append {mark u v : List Char} {x : Char} (other : x ∉ mark)
    (begins : mark <+: u ++ x :: v) : mark <+: u := by
  rcases List.prefix_or_prefix_of_prefix begins (List.prefix_append u (x :: v)) with h | ⟨w, rfl⟩
  · exact h
  · cases w with
    | nil => simp
    | cons c w =>
      have same : c = x := (List.cons_prefix_cons.mp ((List.prefix_append_right_inj u).mp begins)).1
      exact absurd (same ▸ List.mem_append_right u List.mem_cons_self) other

theorem append_cons {u v : List Char} {x : Char} (h : LiteralText s t [])
    (slash : x ≠ '\\') (brace : x ≠ '\x7b') (h' : LiteralText (x :: u) v rest) :
    LiteralText (s ++ x :: u) (t ++ v) rest := by
  have unmarked : ∀ k, x ∉ List.replicate k '\\' ++ opening := by
    intro k mem
    rcases List.mem_append.mp mem with mem | mem
    · exact slash (List.eq_of_mem_replicate mem)
    · exact brace (by simpa [opening] using mem)
  generalize none : ([] : List Char) = r at h
  induction h with
  | finish => exact h'
  | tag begins =>
    subst none
    exact absurd begins (by decide)
  | slashes k begins =>
    subst none
    exact absurd begins (by decide)
  | @two s t r single _ ih =>
    have single' : ¬ opening <+: s ++ x :: u := fun begins =>
      single (prefix_of_prefix_append (unmarked 0) begins)
    have whole := LiteralText.two single' (ih none)
    rwa [← List.append_assoc, ← List.append_assoc] at whole
  | four _ ih =>
    have whole := LiteralText.four (ih none)
    rwa [← List.append_assoc, ← List.append_assoc] at whole
  | letter other _ ih =>
    refine .letter (fun ⟨k, begins⟩ => other ⟨k, ?_⟩) (ih none)
    exact prefix_of_prefix_append (unmarked k) begins

/-- Behind a text without tags other literal text may begin with any character that is no part of a
mark. -/
theorem append {u v : List Char} (h : LiteralText s t [])
    (first : ∀ x ∈ u.head?, x ≠ '\\' ∧ x ≠ '\x7b') (h' : LiteralText u v rest) :
    LiteralText (s ++ u) (t ++ v) rest := by
  cases u with
  | nil =>
    obtain ⟨rfl, rfl⟩ := h'.unique .finish
    rwa [List.append_nil, List.append_nil]
  | cons x u =>
    obtain ⟨slash, brace⟩ := first x rfl
    exact h.append_cons slash brace h'

/-- A text has no characters that are not written. -/
theorem subset (h : LiteralText s t rest) : t ⊆ s := by
  induction h with
  | finish => exact List.Subset.refl []
  | tag => exact List.nil_subset _
  | slashes k =>
    intro c mem
    refine List.mem_append_left _ ?_
    rw [List.eq_of_mem_replicate mem]
    simp
  | two _ _ ih | four _ ih =>
    refine List.append_subset.mpr ⟨?_, List.Subset.trans ih (List.subset_append_right _ _)⟩
    exact List.Subset.trans (List.subset_cons_self _ _) (List.subset_append_left _ _)
  | letter _ _ ih => exact List.cons_subset_cons _ ih

end LiteralText

/-- **Every template begins with a literal text**, which may be empty. -/
theorem exists_literalText (s : List Char) : ∃ t rest, LiteralText s t rest := by
  induction h : s.length using Nat.strongRecOn generalizing s with
  | ind n ih =>
    by_cases mark : BeginsMark s
    · obtain ⟨k, u, rfl⟩ := mark
      match k with
      | 0 => exact ⟨_, _, .tag (List.prefix_append opening u)⟩
      | 1 =>
        by_cases double : opening <+: u
        · obtain ⟨v, rfl⟩ := double
          obtain ⟨t, rest, behind⟩ := ih v.length (by simp [← h, opening]; omega) v rfl
          exact ⟨_, _, .four behind⟩
        · obtain ⟨t, rest, behind⟩ := ih u.length (by simp [← h, opening]; omega) u rfl
          exact ⟨_, _, .two double behind⟩
      | k + 2 =>
        rw [List.append_assoc]
        exact ⟨_, _, .slashes k (List.prefix_append opening u)⟩
    · cases s with
      | nil => exact ⟨_, _, .finish⟩
      | cons c s =>
        obtain ⟨t, rest, behind⟩ := ih s.length (by simp [← h]) s rfl
        exact ⟨_, _, .letter mark behind⟩

end TreeQuery.Template

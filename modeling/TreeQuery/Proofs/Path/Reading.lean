import TreeQuery.Proofs.Path.Display

/-!
# Which texts are paths, and why the others are not

`Flaw` says what is wrong with a part and `Refused` what is wrong with a text, both with the wording
of the reason: a text must not be blank, must have a part, and is refused for its leftmost part that
has a flaw.  Within a part a blank goes before everything else.

`parse_by_parts` is the whole: a text is refused exactly for these reasons, the error names the text
as it was given, and every other text writes the path of its parts.
-/

namespace TreeQuery

namespace Text

/-- The pieces of a text are what it is split to. -/
theorem pieces_eq_splitOnP (p : Char → Bool) (s : List Char) : pieces p s = s.splitOnP p := by
  induction s with
  | nil => rfl
  | cons c s ih =>
    rw [List.splitOnP_cons_eq_if_modifyHead]
    by_cases cut : p c = true
    · rw [pieces_cons_of_pos cut, if_pos cut, ih]
    · obtain ⟨piece, others, hs⟩ := List.exists_cons_of_ne_nil (pieces_ne_nil p s)
      rw [pieces_cons_of_neg cut hs, if_neg cut, ← ih, hs]
      rfl

theorem occursIn_iff {mark s : List Char} : occursIn mark s = true ↔ mark <:+: s := by
  induction s with
  | nil => rw [occursIn, List.isEmpty_iff, List.infix_nil]
  | cons c s ih =>
    rw [occursIn, Bool.or_eq_true, List.isPrefixOf_iff_prefix, ih, List.infix_cons_iff]

end Text

namespace Path

/-- Whether a text has no character but white space. -/
def IsBlank (s : List Char) : Prop := ∀ c ∈ s, Text.isBlank c = true

/-- Whether a part has a blank in it. -/
def HasBlank (part : List Char) : Prop := ∃ c ∈ part, Text.isBlank c = true

/-- Whether a part has what paths do not know: a character of other path languages, a double colon,
or nothing but one dot or two. -/
def HasForeign (part : List Char) : Prop :=
  (∃ c ∈ part, c ∈ ['[', ']', '(', ')', '@', '*', '=', '|', ',', '\'', '"', '<', '>']) ∨
    [':', ':'] <:+: part ∨ part = ['.'] ∨ part = ['.', '.']

/-- What is wrong with a part, in words. -/
inductive Flaw (part : List Char) : String → Prop where
  | blank : HasBlank part → Flaw part "segment contains whitespace"
  | foreign : ¬ HasBlank part → HasForeign part →
    Flaw part "segment uses unsupported XPath syntax"

/-- What is wrong with a text that has the given parts, in words. -/
inductive Refused (s : List Char) (parts : List (List Char)) : String → Prop where
  | blank : IsBlank s → Refused s parts "path is empty"
  | partless : ¬ IsBlank s → parts = [] → Refused s parts "path has no segments"
  /-- The leftmost part with a flaw decides. -/
  | flawed {before after : List (List Char)} {part : List Char} {wording : String} :
    ¬ IsBlank s → parts = before ++ part :: after →
    (∀ earlier ∈ before, ∀ wording, ¬ Flaw earlier wording) → Flaw part wording →
    Refused s parts wording

theorem allBlank_iff {s : List Char} : Text.allBlank s = true ↔ IsBlank s := List.all_eq_true

theorem partsOf_eq_splitOn (s : List Char) :
    partsOf s = (s.splitOn '/').filter (· ≠ []) := by
  rw [partsOf, Text.parts, Text.pieces_eq_splitOnP, List.splitOn]
  congr 1
  funext piece
  cases piece <;> rfl

/-! ## Parts -/

theorem Reason.eq_of_message {reason reason' : Reason}
    (same : reason.message = reason'.message) : reason = reason' := by
  revert same
  cases reason <;> cases reason' <;> decide

theorem hasForeign_iff {part : List Char} :
    (part.any reserved.contains || Text.occursIn [':', ':'] part || part == ['.']
      || part == ['.', '.']) = true ↔ HasForeign part := by
  simp only [Bool.or_eq_true, List.any_eq_true, List.contains_iff_mem, Text.occursIn_iff,
    beq_iff_eq, or_assoc]
  rfl

/-- What is found wrong with a part is its flaw. -/
theorem fault?_eq_some_iff {part : List Char} {reason : Reason} :
    fault? part = some reason ↔ Flaw part reason.message := by
  rw [fault?]
  by_cases blank : HasBlank part
  · rw [if_pos (List.any_eq_true.mpr blank)]
    constructor
    · rintro ⟨⟩
      exact .blank blank
    · generalize said : reason.message = wording
      rintro (_ | ⟨printed, -⟩)
      · have same : reason = .blankInside := Reason.eq_of_message said
        rw [same]
      · exact absurd blank printed
  · rw [if_neg (mt List.any_eq_true.mp blank)]
    by_cases foreign : HasForeign part
    · rw [if_pos (hasForeign_iff.mpr foreign)]
      constructor
      · rintro ⟨⟩
        exact .foreign blank foreign
      · generalize said : reason.message = wording
        rintro (inside | _)
        · exact absurd inside blank
        · have same : reason = .unsupported := Reason.eq_of_message said
          rw [same]
    · rw [if_neg (mt hasForeign_iff.mp foreign)]
      refine iff_of_false (by simp) ?_
      generalize reason.message = wording
      rintro (inside | ⟨-, inside⟩)
      · exact blank inside
      · exact foreign inside

/-- A part in which nothing is found wrong has no flaw. -/
theorem fault?_eq_none_iff {part : List Char} :
    fault? part = none ↔ ∀ wording, ¬ Flaw part wording := by
  constructor
  · intro none wording flaw
    obtain ⟨reason, rfl⟩ : ∃ reason : Reason, reason.message = wording := by
      cases flaw with
      | blank _ => exact ⟨.blankInside, rfl⟩
      | foreign _ _ => exact ⟨.unsupported, rfl⟩
    cases none.symm.trans (fault?_eq_some_iff.mpr flaw)
  · intro sound
    cases found : fault? part with
    | none => rfl
    | some reason => exact absurd (fault?_eq_some_iff.mp found) (sound _)

/-! ## Whole texts -/

/-- The leftmost part with a flaw is found. -/
theorem findSome?_fault?_eq_some_iff {parts : List (List Char)} {reason : Reason} :
    parts.findSome? fault? = some reason ↔ ∃ before part after, parts = before ++ part :: after ∧
      (∀ earlier ∈ before, ∀ wording, ¬ Flaw earlier wording) ∧ Flaw part reason.message := by
  simp only [List.findSome?_eq_some_iff, fault?_eq_some_iff, fault?_eq_none_iff]
  exact ⟨fun ⟨before, part, after, split, flaw, sound⟩ => ⟨before, part, after, split, sound, flaw⟩,
    fun ⟨before, part, after, split, sound, flaw⟩ => ⟨before, part, after, split, flaw, sound⟩⟩

/-- **A text is no path exactly if it is refused**, and for the same reason. -/
theorem parse_eq_error_iff {text : String} {e : Error} :
    parse text = .error e ↔
      e.path = text ∧ Refused text.toList (partsOf text.toList) e.reason.message := by
  obtain ⟨path, reason⟩ := e
  rw [parse]
  constructor
  · intro h
    split at h
    · next blank =>
      cases h
      exact ⟨rfl, .blank (allBlank_iff.mp blank)⟩
    · next printed =>
      have printed := mt allBlank_iff.mpr printed
      split at h
      · next none =>
        cases h
        exact ⟨rfl, .partless printed none⟩
      · next root below cut =>
        split at h
        · next found =>
          cases h
          rw [← cut] at found
          obtain ⟨before, part, after, split, sound, flaw⟩ :=
            findSome?_fault?_eq_some_iff.mp found
          exact ⟨rfl, .flawed printed split sound flaw⟩
        · cases h
  · rintro ⟨rfl, refused⟩
    generalize said : reason.message = wording at refused
    cases refused with
    | blank blank =>
      have same : reason = .empty := Reason.eq_of_message said
      rw [if_pos (allBlank_iff.mpr blank), same]
    | partless printed none =>
      have same : reason = .noSegments := Reason.eq_of_message said
      rw [if_neg (mt allBlank_iff.mp printed), none, same]
    | flawed printed split sound flaw =>
      have found := findSome?_fault?_eq_some_iff.mpr ⟨_, _, _, split, sound, said ▸ flaw⟩
      rw [if_neg (mt allBlank_iff.mp printed)]
      cases cut : partsOf path.toList with
      | nil =>
        rw [cut] at found
        cases found
      | cons root below =>
        rw [cut] at found
        simp only [found]

/-- **Which texts are paths, by their parts between slashes.**  A text is refused exactly if it is
blank, has no part, or has a part with a flaw, of which the leftmost decides; the error names the
text.  Every other text writes the path of its parts, the first of which names the root element. -/
theorem parse_by_parts (text : String) :
    let parts := (text.toList.splitOn '/').filter (· ≠ [])
    (∀ e, parse text = .error e ↔ e.path = text ∧ Refused text.toList parts e.reason.message) ∧
      ∀ p, parse text = .ok p ↔ ¬ IsBlank text.toList ∧
        parts = (p.root :: p.segments).map String.toList ∧
        ∀ part ∈ parts, ∀ wording, ¬ Flaw part wording := by
  intro parts
  have cut : partsOf text.toList = parts := partsOf_eq_splitOn text.toList
  constructor
  · intro e
    rw [parse_eq_error_iff, cut]
  · intro p
    rw [parse_eq_ok_iff, cut, ← Bool.not_eq_true, allBlank_iff]
    simp only [fault?_eq_none_iff]
    refine and_congr_right fun _ => and_congr_right fun same => ?_
    rw [same]

/-- Two parts have a flaw, and the second one would have another. -/
example : parse "r//a/b*c/ d" = .error ⟨"r//a/b*c/ d", .unsupported⟩ := by decide

end Path

end TreeQuery

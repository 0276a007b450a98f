import TreeQuery.Proofs.Markup.Ahead

/-!
# Reading inside of other elements

Of the elements that are open a reader asks for the innermost one only, and only at an end tag.  A
text that is read by itself without a fault ends no element that it has not started; so it is read
in the same way where further elements are open around it (`Reads.within`).
-/

namespace TreeQuery.Markup.Reader

/-- The reader with further elements open, around those that it knows. -/
def within (r : Reader) (outer : List (List Char)) : Reader :=
  { r with opened := r.opened ++ outer }

/-- What is read, with further elements open behind it. -/
def Step.within (outer : List (List Char)) : Step → Step
  | .event e r => .event e (r.within outer)
  | .fault position cause => .fault position cause
  | .finished => .finished

variable {r r' : Reader} {e : Event} {outer : List (List Char)}

@[simp] theorem within_rest : (r.within outer).rest = r.rest := rfl

@[simp] theorem within_opened : (r.within outer).opened = r.opened ++ outer := rfl

/-! ## One event -/

theorem dataSection_within : (r.within outer).dataSection = r.dataSection.within outer := by
  simp only [dataSection, within_rest]
  cases dataSection? r.rest with
  | none => rfl
  | some cut => dsimp only; split <;> rfl

theorem comment_within : (r.within outer).comment = r.comment.within outer := by
  simp only [comment, within_rest]
  cases comment? r.rest with
  | none => rfl
  | some cut => dsimp only; split <;> rfl

theorem doctype_within : (r.within outer).doctype = r.doctype.within outer := by
  simp only [doctype, within_rest]
  cases doctype? r.rest with
  | none => rfl
  | some cut =>
    dsimp only
    split
    · rfl
    · split <;> rfl

theorem declaration_within : (r.within outer).declaration = r.declaration.within outer := by
  simp only [declaration, within_rest]
  split
  · rfl
  · exact dataSection_within
  · exact comment_within
  · split
    · exact doctype_within
    · rfl

theorem instruction_within : (r.within outer).instruction = r.instruction.within outer := by
  simp only [instruction, within_rest]
  rw [apply_ite (Step.within outer)]
  rfl

theorem startTag_within : (r.within outer).startTag = r.startTag.within outer := by
  simp only [startTag, within_rest]
  cases tag? r.rest with
  | none => rfl
  | some cut => dsimp only; split <;> rfl

/-- An end tag that closes an element by itself closes the same one. -/
theorem endTag_within (h : r.endTag = .event e r') :
    (r.within outer).endTag = .event e (r'.within outer) := by
  obtain ⟨rest, offset, inTag, opened⟩ := r
  cases opened with
  | nil => cases h
  | cons expected names =>
    simp only [endTag] at h
    split at h
    · next found =>
      cases h
      exact if_pos found
    · cases h

theorem construct_within (h : r.construct = .event e r') :
    (r.within outer).construct = .event e (r'.within outer) := by
  simp only [construct, within_rest] at h ⊢
  split at h
  · cases h
  · rw [declaration_within, h]
    rfl
  · exact endTag_within h
  · rw [instruction_within, h]
    rfl
  · rw [startTag_within, h]
    rfl

/-- **An event is read in the same way inside of further elements.** -/
theorem next_within (h : r.next = .event e r') :
    (r.within outer).next = .event e (r'.within outer) := by
  obtain ⟨rest, offset, inTag, opened⟩ := r
  cases inTag with
  | true => exact construct_within h
  | false =>
    simp only [next, within, Bool.false_eq_true, if_false] at h ⊢
    split at h
    · cases h
    · exact construct_within h
    · cases h
      rfl

/-! ## Runs of events -/

/-- **A run of events is read in the same way inside of further elements.** -/
theorem Reads.within {run : List (Nat × Event)} (h : Reads r run r') (outer : List (List Char)) :
    Reads (r.within outer) run (r'.within outer) := by
  induction h with
  | nil r => exact .nil _
  | @cons r r' _ e run next _ ih =>
    change Reads _ (((r'.within outer).position, e) :: run) _
    exact .cons (next_within next) ih

end TreeQuery.Markup.Reader

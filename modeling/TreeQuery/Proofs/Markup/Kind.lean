import TreeQuery.Proofs.Markup.Span

/-!
# Which construct an event comes from

Every event but text comes from a construct, and each kind of construct gives events of its own.  So
an event tells how the text begins that it was read from: an end tag with `</`
(`rest_of_construct_closed`), and a tag that opens and closes an element is a closed content with
`/>` behind it (`rest_of_construct_empty`).
-/

namespace TreeQuery.Markup

namespace Reader

variable {r r' : Reader} {e : Event} {y : List Char}

theorem event_of_declaration (h : r.declaration = .event e r') :
    (∃ s, e = .data s) ∨ e = .silent := by
  simp only [declaration, dataSection, comment, doctype] at h
  repeat' split at h
  all_goals cases h
  · exact .inl ⟨_, rfl⟩
  · exact .inr rfl
  · exact .inr rfl

theorem event_of_endTag (h : r.endTag = .event e r') : ∃ name, e = .closed name := by
  simp only [endTag] at h
  repeat' split at h
  all_goals cases h
  exact ⟨_, rfl⟩

theorem event_of_instruction (h : r.instruction = .event e r') : e = .silent := by
  simp only [instruction] at h
  split at h <;> cases h
  rfl

theorem event_of_startTag (h : r.startTag = .event e r') :
    (∃ name, e = .opened name) ∨ ∃ name, e = .empty name := by
  simp only [startTag] at h
  split at h
  · cases h
  · split at h
    · cases h
      exact .inr ⟨_, rfl⟩
    · cases h
      exact .inl ⟨_, rfl⟩

/-- No construct is text. -/
theorem construct_ne_text {s : List Char} (h : r.construct = .event e r') : e ≠ .text s := by
  rintro rfl
  rcases construct_cases h with ⟨_, -, h⟩ | ⟨_, -, h⟩ | ⟨_, -, h⟩ | ⟨-, h⟩
  · rcases event_of_declaration h with ⟨_, other⟩ | other <;> cases other
  · obtain ⟨_, other⟩ := event_of_endTag h
    cases other
  · cases event_of_instruction h
  · rcases event_of_startTag h with ⟨_, other⟩ | ⟨_, other⟩ <;> cases other

/-- Only a construct that begins with `</` ends an element that was opened before. -/
theorem rest_of_construct_closed {name : List Char}
    (h : r.construct = .event (.closed name) r') : ∃ s, r.rest = '/' :: s := by
  rcases construct_cases h with ⟨_, -, h⟩ | ⟨s, begins, -⟩ | ⟨_, -, h⟩ | ⟨-, h⟩
  · rcases event_of_declaration h with ⟨_, other⟩ | other <;> cases other
  · exact ⟨s, begins⟩
  · cases event_of_instruction h
  · rcases event_of_startTag h with ⟨_, other⟩ | ⟨_, other⟩ <;> cases other

/-- Only a start tag begins an element. -/
theorem startTag_of_construct (h : r.construct = .event e r')
    (starts : (∃ name, e = .opened name) ∨ ∃ name, e = .empty name) :
    Written.BeginsTag r.rest ∧ r.startTag = .event e r' := by
  rcases construct_cases h with ⟨_, -, h⟩ | ⟨_, -, h⟩ | ⟨_, -, h⟩ | tag
  · rcases event_of_declaration h with ⟨_, rfl⟩ | rfl <;> simp at starts
  · obtain ⟨_, rfl⟩ := event_of_endTag h
    simp at starts
  · obtain rfl := event_of_instruction h
    simp at starts
  · exact tag

/-- Only a tag opens and closes an element: a closed content with `/>` behind it. -/
theorem rest_of_construct_empty {name : List Char} (h : r.construct = .event (.empty name) r') :
    ∃ content, r.rest = content ++ '/' :: '>' :: r'.rest ∧ Written.BeginsTag content ∧
      Written.Closed content ∧ name = leadingName content := by
  obtain ⟨begins, h⟩ := startTag_of_construct h (.inr ⟨name, rfl⟩)
  simp only [startTag] at h
  split at h
  · cases h
  · next cut found =>
    obtain ⟨whole, closed⟩ := Written.tag_eq_some_iff.mp found
    split at h
    · next last =>
      obtain ⟨content, split⟩ := List.getLast?_eq_some_iff.mp (eq_of_beq last)
      rw [split] at h whole closed
      rw [List.append_assoc] at whole
      cases h
      refine ⟨content, whole, ?_, closed.of_concat (by decide), Written.emptyName content⟩
      obtain ⟨c, u, text, bang, slash, question⟩ := begins
      rcases content with _ | ⟨d, v⟩
      · exact absurd (List.cons.inj (text.symm.trans whole)).1 slash
      · obtain ⟨rfl, -⟩ := List.cons.inj (text.symm.trans whole)
        exact ⟨c, v, rfl, bang, slash, question⟩
    · cases h

/-- An event that is not text is read behind a `<`. -/
theorem exists_construct (ahead : r.Ahead y) (h : r.next = .event e r')
    (construct : ∀ s, e ≠ .text s) :
    ∃ r₁ : Reader, y = '<' :: r₁.rest ∧ r₁.opened = r.opened ∧ r₁.construct = .event e r' := by
  obtain ⟨s, rfl⟩ := List.head?_eq_some_iff.mp (head_of_construct ahead h construct)
  obtain ⟨r₁, next, rest, opened⟩ := next_of_ahead ahead
  exact ⟨r₁, by rw [rest], opened, next.symm.trans h⟩

/-- Behind a construct no `<` was taken along. -/
theorem rest_of_ahead {x : List Char} (ahead : r.Ahead y) (h : r.next = .event e r')
    (construct : ∀ s, e ≠ .text s) (behind : r'.Ahead x) : x = r'.rest := by
  obtain ⟨r₁, -, -, reads⟩ := exists_construct ahead h construct
  have outside := (localAt_construct reads).1
  rwa [Ahead, if_neg (by simp [outside])] at behind

/-- An end tag is read as one, or not at all. -/
theorem endTag_cases (r : Reader) :
    (∃ name r', r.endTag = .event (.closed name) r') ∨ ∃ position cause,
      r.endTag = .fault position cause := by
  cases h : r.endTag with
  | event e r' =>
    obtain ⟨name, rfl⟩ := event_of_endTag h
    exact .inl ⟨name, r', rfl⟩
  | fault position cause => exact .inr ⟨position, cause, rfl⟩
  | finished =>
    simp only [endTag] at h
    repeat' split at h
    all_goals cases h

end Reader

end TreeQuery.Markup

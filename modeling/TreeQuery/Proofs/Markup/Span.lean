import Mathlib.Data.List.Basic
import Mathlib.Data.List.Induction
import Mathlib.Data.List.TakeWhile
import TreeQuery.Proofs.Markup.Local

/-!
# What a run of events takes of a text

`Takes r es r' u x` cuts the text ahead of a reader in two: `u` is what the events `es` take, and
`x` is what is left behind them.  The same events are read wherever `u` is ahead with the same
elements open, as long as what stands in place of `x` ends the last event too (`Replaces`).

One step takes a text (`takes_of_next`), a further step takes the beginning of what is left
(`Takes.concat`), and so every run takes a text (`takes_of_reads`).
-/

namespace TreeQuery.Markup.Reader

/-- Whether a text may stand in the place of another behind `u`: it ends text if the other one
does, and if the other one is empty it is empty too, unless the `>` of a construct is there. -/
structure Replaces (u x x₂ : List Char) : Prop where
  text : EndsText x → EndsText x₂
  markup : x = [] → x₂ = [] ∨ u.getLast? = some '>'

theorem replaces_self (u x : List Char) : Replaces u x x := ⟨id, .inl⟩

/-- What stands further behind does not matter. -/
theorem replaces_append (u : List Char) {v : List Char} (nonempty : v ≠ []) (x x₂ : List Char) :
    Replaces u (v ++ x) (v ++ x₂) := by
  obtain ⟨c, t, rfl⟩ := List.exists_cons_of_ne_nil nonempty
  exact ⟨fun h => h, fun h => by cases h⟩

theorem Replaces.of_append {u v x x₂ : List Char} (h : Replaces (u ++ v) x x₂)
    (nonempty : v ≠ []) : Replaces v x x₂ := by
  refine ⟨h.text, fun empty => ?_⟩
  rw [← List.getLast?_append_of_ne_nil u nonempty]
  exact h.markup empty

theorem closes_replace {u x x₂ : List Char} (h : Closes u x) (replaces : Replaces u x x₂) :
    Closes u x₂ := by
  rcases h with last | empty
  · exact .inl last
  · exact (replaces.markup empty).symm

/-- Whether a run of events takes `u` and leaves `x`, and is read wherever `u` stands. -/
structure Takes (r : Reader) (es : List Event) (r' : Reader) (u x : List Char) : Prop where
  ahead : r'.Ahead x
  nonempty : es ≠ [] → u ≠ []
  /-- The `<` that is taken along behind text is not part of it. -/
  unmarked : r'.inTag = true → u.getLast? ≠ some '<'
  again : ∀ {r₂ : Reader} {x₂}, r₂.opened = r.opened → r₂.Ahead (u ++ x₂) → Replaces u x x₂ →
    ∃ run r₂', Reads r₂ run r₂' ∧ run.map (·.2) = es ∧ r₂'.Ahead x₂

variable {r r₁ r' : Reader} {e : Event} {es : List Event} {y u v x : List Char}

theorem Yields.reads (h : r.Yields e x) :
    ∃ run r', Reads r run r' ∧ run.map (·.2) = [e] ∧ r'.Ahead x := by
  obtain ⟨r', next, ahead⟩ := h
  exact ⟨_, r', .cons next (.nil r'), rfl, ahead⟩

theorem endsText_dropWhile (s : List Char) : EndsText (s.dropWhile (· != '<')) := by
  intro c first
  have := List.head?_dropWhile_not (· != '<') s
  rw [first] at this
  simpa using this

/-- Every text begins with what stands up to its first `<`. -/
theorem exists_free_append (y : List Char) :
    ∃ u x, y = u ++ x ∧ (∀ c ∈ u, c ≠ '<') ∧ EndsText x := by
  refine ⟨_, _, List.takeWhile_append_dropWhile.symm, fun c hc => ?_, endsText_dropWhile y⟩
  simpa using List.mem_takeWhile_imp hc

/-- Nothing is left, or markup begins, or text does, which goes on up to markup or to the end. -/
theorem begins_cases (y : List Char) :
    y = [] ∨ (∃ s, y = '<' :: s) ∨
      ∃ u x, y = u ++ x ∧ u ≠ [] ∧ (∀ c ∈ u, c ≠ '<') ∧ EndsText x := by
  obtain ⟨u, x, rfl, free, ends⟩ := exists_free_append y
  by_cases empty : u = []
  · subst empty
    rcases x with _ | ⟨c, s⟩
    · exact .inl rfl
    · exact .inr (.inl ⟨s, by rw [ends c rfl]; rfl⟩)
  · exact .inr (.inr ⟨u, x, rfl, empty, free, ends⟩)

/-- A `<` is ahead where anything but text is read. -/
theorem head_of_construct (ahead : r.Ahead y) (h : r.next = .event e r')
    (construct : ∀ s, e ≠ .text s) : y.head? = some '<' := by
  rcases begins_cases y with rfl | ⟨s, rfl⟩ | ⟨u, x, rfl, nonempty, free, ends⟩
  · rw [next_eq_finished ahead] at h
    cases h
  · rfl
  · obtain ⟨r₁, next, -⟩ := yields_text ahead nonempty free ends
    rw [next] at h
    cases h
    exact absurd rfl (construct u)

theorem takes_text (ahead : r.Ahead (u ++ x)) (nonempty : u ≠ []) (free : ∀ c ∈ u, c ≠ '<')
    (ends : EndsText x) (h : r.next = .event e r') : Takes r [e] r' u x := by
  obtain ⟨r₁, next, ahead₁⟩ := yields_text ahead nonempty free ends
  rw [next] at h
  cases h
  constructor
  · exact ahead₁
  · exact fun _ => nonempty
  · exact fun _ last => free '<' (List.mem_of_getLast? last) rfl
  · intro r₂ x₂ _ ahead₂ replaces
    exact (yields_text ahead₂ nonempty free (replaces.text ends)).reads

theorem takes_construct {s : List Char} (ahead : r.Ahead ('<' :: s)) (h : r.next = .event e r') :
    ∃ u x, '<' :: s = u ++ x ∧ Takes r [e] r' u x := by
  obtain ⟨r₁, next, rest, opened⟩ := next_of_ahead ahead
  obtain ⟨outside, u, whole, closes, again⟩ := localAt_construct (next.symm.trans h)
  refine ⟨'<' :: u, r'.rest, ?_, ?_⟩
  · rw [← rest, whole, List.cons_append]
  · constructor
    · rw [Ahead, if_neg (by simp [outside])]
    · exact fun _ => List.cons_ne_nil _ _
    · exact fun inside => absurd inside (by simp [outside])
    · intro r₂ x₂ same ahead₂ replaces
      obtain ⟨r₃, next₂, rest₂, opened₂⟩ := next_of_ahead ahead₂
      have closes₂ := closes_replace (closes_cons_iff.mpr closes) replaces
      obtain ⟨r₂', reads, ahead₂'⟩ :=
        again ((opened₂.trans same).trans opened.symm) rest₂ (closes_cons_iff.mp closes₂)
      exact Yields.reads ⟨r₂', next₂.trans reads, ahead₂'⟩

/-- **An event takes a text**, and is read wherever this text is ahead. -/
theorem takes_of_next (ahead : r.Ahead y) (h : r.next = .event e r') :
    ∃ u x, y = u ++ x ∧ Takes r [e] r' u x := by
  rcases begins_cases y with rfl | ⟨s, rfl⟩ | ⟨u, x, rfl, nonempty, free, ends⟩
  · rw [next_eq_finished ahead] at h
    cases h
  · exact takes_construct ahead h
  · exact ⟨u, x, rfl, takes_text ahead nonempty free ends h⟩

/-- No event has been read yet. -/
theorem takes_nil (ahead : r.Ahead y) : Takes r [] r [] y := by
  constructor
  · exact ahead
  · exact fun h => absurd rfl h
  · exact fun _ h => by cases h
  · exact fun _ ahead₂ _ => ⟨[], _, .nil _, rfl, ahead₂⟩

/-- Which elements are open behind a run is told by its events. -/
theorem Reads.opened_eq_foldl {run : List (Nat × Event)} (h : Reads r run r') :
    r'.opened = (run.map (·.2)).foldl Event.nest r.opened := by
  rw [h.opened_eq, openNames, List.foldl_map]

/-- Behind a run of events one more event takes the beginning of what is left. -/
theorem Takes.concat (h : Takes r es r₁ u (v ++ x)) (h' : Takes r₁ [e] r' v x)
    (opened : r₁.opened = es.foldl Event.nest r.opened) : Takes r (es ++ [e]) r' (u ++ v) x := by
  have behind : v ≠ [] := h'.nonempty (List.cons_ne_nil _ _)
  have last : (u ++ v).getLast? = v.getLast? := List.getLast?_append_of_ne_nil u behind
  constructor
  · exact h'.ahead
  · exact fun _ empty => behind (List.append_eq_nil_iff.mp empty).2
  · exact fun inside => last ▸ h'.unmarked inside
  · intro r₂ x₂ same ahead replaces
    rw [List.append_assoc] at ahead
    obtain ⟨run, r₃, reads, rfl, ahead₃⟩ := h.again same ahead (replaces_append u behind x x₂)
    have same₃ : r₃.opened = r₁.opened := by
      rw [reads.opened_eq_foldl, opened, same]
    obtain ⟨later, r₄, reads', rfl', ahead₄⟩ := h'.again same₃ ahead₃ (replaces.of_append behind)
    exact ⟨run ++ later, r₄, reads.append reads', by simp [rfl'], ahead₄⟩

theorem Reads.exists_of_concat {run : List (Nat × Event)} {e : Nat × Event}
    (h : Reads r (run ++ [e]) r') : ∃ r₁, Reads r run r₁ ∧ r₁.next = .event e.2 r' := by
  obtain ⟨r₁, reads, last⟩ := Reads.append_iff.mp h
  obtain ⟨r₂, next, -, rest⟩ := Reads.cons_iff.mp last
  cases rest
  exact ⟨r₁, reads, next⟩

/-- **A run of events takes a text**, and is read wherever this text is ahead. -/
theorem takes_of_reads {run : List (Nat × Event)} (ahead : r.Ahead y) (h : Reads r run r') :
    ∃ u x, y = u ++ x ∧ Takes r (run.map (·.2)) r' u x := by
  induction run using List.reverseRecOn generalizing r' with
  | nil =>
    cases h
    exact ⟨[], y, rfl, takes_nil ahead⟩
  | append_singleton run e ih =>
    obtain ⟨r₁, reads, next⟩ := h.exists_of_concat
    obtain ⟨u, z, rfl, before⟩ := ih reads
    obtain ⟨v, x, rfl, last⟩ := takes_of_next before.ahead next
    refine ⟨u ++ v, x, (List.append_assoc u v x).symm, ?_⟩
    rw [List.map_append]
    exact before.concat last reads.opened_eq_foldl

/-- Where a reader stands in a text is told by a `<` behind that place or a `>` in front of it. -/
theorem Takes.eq_of_ahead (h : Takes r es r' u x) {before after : List Char}
    (whole : before ++ after = u ++ x) (ahead : r'.Ahead after)
    (marked : after.head? = some '<' ∨ before.getLast? = some '>') : before = u ∧ after = x := by
  have of_same (same : after = x) : before = u ∧ after = x :=
    ⟨List.append_cancel_right (same ▸ whole), same⟩
  have left := h.ahead
  cases taken : r'.inTag with
  | false =>
    rw [Ahead, if_neg (by simp [taken])] at left ahead
    exact of_same (ahead.trans left.symm)
  | true =>
    rw [Ahead, if_pos taken] at left ahead
    -- At the end of the text a `<` that was taken along might be there or not.
    rcases ahead with hAfter | ⟨ended, hAfter⟩ <;> rcases left with hx | ⟨ended', hx⟩
    · exact of_same (hAfter.trans hx.symm)
    · rw [ended'] at hAfter
      rw [hAfter, hx, List.append_nil] at whole
      exact absurd (whole ▸ List.getLast?_concat) (h.unmarked taken)
    · rw [ended] at hx
      rw [hAfter, hx, List.append_nil] at whole
      rw [hAfter, whole, List.getLast?_concat] at marked
      rcases marked with marked | marked <;> cases marked
    · exact of_same (hAfter.trans hx.symm)

/-! ## The end of a text -/

theorem declaration_ne_finished (r : Reader) : r.declaration ≠ .finished := by
  simp only [declaration, dataSection, comment, doctype]
  repeat' split
  all_goals simp

/-- Only where nothing is left behind a `<` no construct is read. -/
theorem rest_of_construct_eq_finished (h : r.construct = .finished) : r.rest = [] := by
  unfold construct at h
  split at h
  · next ended => exact ended
  · exact absurd h (declaration_ne_finished r)
  · simp only [endTag] at h
    repeat' split at h
    all_goals simp at h
  · simp only [instruction] at h
    split at h
    all_goals simp at h
  · simp only [startTag] at h
    repeat' split at h
    all_goals simp at h

/-- Whether the text ends here is told by what is ahead. -/
theorem next_eq_finished_of_ahead {r₂ : Reader} (h : r.next = .finished) (ahead : r.Ahead x)
    (ahead₂ : r₂.Ahead x) : r₂.next = .finished := by
  rcases begins_cases x with rfl | ⟨s, rfl⟩ | ⟨u, z, rfl, nonempty, free, ends⟩
  · exact next_eq_finished ahead₂
  · obtain ⟨r₁, next, rest, -⟩ := next_of_ahead ahead
    obtain ⟨r₃, next₂, rest₂, -⟩ := next_of_ahead ahead₂
    have ended : s = [] := rest.symm.trans (rest_of_construct_eq_finished (next.symm.trans h))
    rw [next₂, construct, rest₂, ended]
  · -- Text would be read.
    obtain ⟨r₁, next, -⟩ := yields_text ahead nonempty free ends
    rw [next] at h
    cases h

/-- A reader that finds no fault reads on to the end. -/
theorem exists_reads_trace (h : r.trace.fault? = none) :
    ∃ r', Reads r r.trace.events r' ∧ r'.next = .finished := by
  fun_induction trace r with
  | case1 r ends => exact ⟨r, .nil r, ends⟩
  | case2 r position cause stops => cases h
  | case3 r e r' next ih =>
    obtain ⟨r'', reads, ends⟩ := ih h
    exact ⟨r'', .cons next reads, ends⟩

end TreeQuery.Markup.Reader

import TreeQuery.Proofs.Markup.Trace

/-!
# What lies ahead of a reader

A run of text takes the `<` behind it along, so where a reader stands in the text is not told by
the unread text alone.  `Ahead` says it for both cases, and every statement on reading starts and
ends there: an event takes its own text away and leaves the rest ahead (`Yields`).

`Reads` is a run of such steps.  The events of a run stand first in the trace (`Reads.trace_eq`).
-/

namespace TreeQuery.Markup.Reader

variable {r r' r'' : Reader}

/-- Whether a text is what follows.  A `<` that was taken along still counts, unless the text has
ended. -/
def Ahead (r : Reader) (s : List Char) : Prop :=
  if r.inTag then s = '<' :: r.rest ∨ (r.rest = [] ∧ s = []) else s = r.rest

theorem ahead_rest (outside : r.inTag = false) : r.Ahead r.rest := by
  rw [Ahead, if_neg (by simp [outside])]

/-- Whether a text goes no further where this follows: markup begins, or nothing is left. -/
def EndsText (s : List Char) : Prop := ∀ c, s.head? = some c → c = '<'

theorem endsText_nil : EndsText [] := fun _ h => by cases h

theorem endsText_cons (s : List Char) : EndsText ('<' :: s) := fun _ h =>
  (Option.some.inj h).symm

/-- Whether the next event is the given one, with the given text behind it. -/
def Yields (r : Reader) (e : Event) (s : List Char) : Prop :=
  ∃ r', r.next = .event e r' ∧ r'.Ahead s

theorem ahead_ofText {s : List Char} (h : s.head? ≠ some '\uFEFF') : (ofText s).Ahead s := by
  cases s with
  | nil => rfl
  | cons c s =>
    have other : c ≠ '\uFEFF' := fun eq => h (eq ▸ rfl)
    rw [ofText]
    · rfl
    · intro t eq
      exact other (List.cons.inj eq).1

/-- A byte order mark is passed over. -/
theorem ahead_ofText_mark (s : List Char) : (ofText ('\uFEFF' :: s)).Ahead s := rfl

/-- Behind a `<` a construct is read. -/
theorem next_of_ahead {s : List Char} (h : r.Ahead ('<' :: s)) :
    ∃ r₁ : Reader, r.next = r₁.construct ∧ r₁.rest = s ∧ r₁.opened = r.opened := by
  cases taken : r.inTag with
  | true =>
    rw [Ahead, if_pos taken] at h
    rcases h with h | ⟨-, h⟩
    · exact ⟨r, by rw [next, if_pos taken], (List.cons.inj h).2.symm, rfl⟩
    · cases h
  | false =>
    rw [Ahead, if_neg (by simp [taken])] at h
    exact ⟨{ r with rest := s, offset := r.offset + 1 }, by simp [next, taken, ← h], rfl, rfl⟩

theorem next_eq_finished (h : r.Ahead []) : r.next = .finished := by
  cases taken : r.inTag with
  | true =>
    rw [Ahead, if_pos taken] at h
    rcases h with h | ⟨ended, -⟩
    · cases h
    · rw [next, if_pos taken, construct, ended]
  | false =>
    rw [Ahead, if_neg (by simp [taken])] at h
    simp [next, taken, ← h]

/-- What is ahead of a reader is one text, unless there is nothing left to read. -/
theorem Ahead.unique {s t : List Char} (h : r.Ahead s) (h' : r.Ahead t)
    (goesOn : r.next ≠ .finished) : s = t := by
  have filled : ∀ {u : List Char}, r.Ahead u → u ≠ [] := by
    rintro _ ahead rfl
    exact goesOn (next_eq_finished ahead)
  cases taken : r.inTag with
  | false =>
    rw [Ahead, if_neg (by simp [taken])] at h h'
    exact h.trans h'.symm
  | true =>
    have begins := filled h
    have begins' := filled h'
    rw [Ahead, if_pos taken] at h h'
    rcases h with h | ⟨-, h⟩
    · rcases h' with h' | ⟨-, h'⟩
      · exact h.trans h'.symm
      · exact absurd h' begins'
    · exact absurd h begins

theorem takeWhile_ne {written s : List Char} (free : ∀ c ∈ written, c ≠ '<')
    (ends : EndsText s) :
    (written ++ s).takeWhile (· != '<') = written ∧ (written ++ s).dropWhile (· != '<') = s := by
  have inside : ∀ c ∈ written, (c != '<') = true := fun c hc => bne_iff_ne.mpr (free c hc)
  rw [List.takeWhile_append_of_pos inside, List.dropWhile_append_of_pos inside]
  cases s with
  | nil => simp
  | cons c s => simp [ends c rfl]

/-- **Text is read up to the next `<`**, or up to the end. -/
theorem yields_text {written s : List Char} (h : r.Ahead (written ++ s)) (nonempty : written ≠ [])
    (free : ∀ c ∈ written, c ≠ '<') (ends : EndsText s) :
    r.Yields (.text written) s := by
  obtain ⟨before, behind⟩ := takeWhile_ne free ends
  obtain ⟨c, t, rfl⟩ := List.exists_cons_of_ne_nil nonempty
  have begins : c ≠ '<' := free c List.mem_cons_self
  rw [List.cons_append] at h before behind
  cases taken : r.inTag with
  | true =>
    rw [Ahead, if_pos taken] at h
    rcases h with h | ⟨-, h⟩
    · exact absurd (List.cons.inj h).1 begins
    · cases h
  | false =>
    rw [Ahead, if_neg (by simp [taken])] at h
    rw [Yields, next, if_neg (by simp [taken]), ← h]
    split
    · next eq => cases eq
    · next eq => exact absurd (List.cons.inj eq).1 begins
    · rw [before, behind]
      refine ⟨_, rfl, ?_⟩
      -- Either the `<` behind the text was taken along, or the text ends.
      cases s with
      | nil => exact .inr ⟨rfl, rfl⟩
      | cons d s =>
        rw [ends d rfl]
        exact .inl rfl

/-! ## Runs of events -/

/-- A run of events that a reader reads, with the reader behind it. -/
inductive Reads : Reader → List (Nat × Event) → Reader → Prop where
  | nil (r : Reader) : Reads r [] r
  | cons {r r' r'' : Reader} {e : Event} {run : List (Nat × Event)} :
    r.next = .event e r' → Reads r' run r'' → Reads r ((r'.position, e) :: run) r''

namespace Reads

variable {run later : List (Nat × Event)}

theorem append (h : Reads r run r') (h' : Reads r' later r'') : Reads r (run ++ later) r'' := by
  induction h with
  | nil => exact h'
  | cons reads _ ih => exact .cons reads (ih h')

theorem cons_iff {e : Nat × Event} :
    Reads r (e :: run) r'' ↔
      ∃ r', r.next = .event e.2 r' ∧ e.1 = r'.position ∧ Reads r' run r'' := by
  constructor
  · intro h
    cases h with
    | cons next rest => exact ⟨_, next, rfl, rest⟩
  · obtain ⟨position, e⟩ := e
    rintro ⟨r', next, rfl, rest⟩
    exact .cons next rest

theorem append_iff : Reads r (run ++ later) r'' ↔ ∃ r', Reads r run r' ∧ Reads r' later r'' := by
  refine ⟨fun h => ?_, fun ⟨r', h, h'⟩ => h.append h'⟩
  induction run generalizing r with
  | nil => exact ⟨r, .nil r, h⟩
  | cons e run ih =>
    obtain ⟨r₁, next, position, rest⟩ := cons_iff.mp h
    obtain ⟨r', first, second⟩ := ih rest
    exact ⟨r', cons_iff.mpr ⟨r₁, next, position, first⟩, second⟩

/-- A run of events leads to one place only. -/
theorem unique (h : Reads r run r') (h' : Reads r run r'') : r' = r'' := by
  induction run generalizing r with
  | nil =>
    cases h
    cases h'
    rfl
  | cons e run ih =>
    obtain ⟨r₁, next, -, rest⟩ := cons_iff.mp h
    obtain ⟨r₂, next', -, rest'⟩ := cons_iff.mp h'
    rw [next] at next'
    cases next'
    exact ih rest rest'

/-- The open elements behind a run are those that its events leave open. -/
theorem opened_eq (h : Reads r run r') : r'.opened = openNames r.opened run := by
  induction h with
  | nil => rfl
  | cons reads _ ih => rw [ih, (keeps_next reads).1]; rfl

theorem trace_eq (h : Reads r run r') :
    r.trace = ⟨run ++ r'.trace.events, r'.trace.fault?⟩ := by
  induction h with
  | nil => rfl
  | cons reads _ ih => rw [trace_of_event reads, ih]; rfl

/-- In a run every end tag ends the innermost open element. -/
theorem matched (h : Reads r run r') : Matched r.opened run := by
  have all := matched_trace r
  rw [h.trace_eq] at all
  exact all.of_append

end Reads

end TreeQuery.Markup.Reader

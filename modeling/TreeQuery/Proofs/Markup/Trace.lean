import TreeQuery.Markup.Reader

/-!
# The events of a text

A `Trace` is everything that a reader makes of a text: the events up to the end or up to the first
fault, and that fault.  Each event carries the byte position at which a fault inside of it is
reported.

`openBehind` says which elements are open behind a run of events, by the events alone.  The reader
keeps the same names (`opened_of_next`), and refuses an end tag that would not close the innermost
of them; so in a trace every end tag closes the innermost open element (`matched_trace`).
-/

namespace TreeQuery.Markup

/-- What a reader makes of a text. -/
structure Trace where
  /-- The events, each with the position at which a fault inside of it is reported. -/
  events : List (Nat × Event)
  /-- The fault that stops the reader, and its position. -/
  fault? : Option (Nat × Fault)

/-- Everything that is left to a reader. -/
def Reader.trace (r : Reader) : Trace :=
  match _h : r.next with
  | .finished => ⟨[], none⟩
  | .fault position cause => ⟨[], some (position, cause)⟩
  | .event e r' => ⟨(r'.position, e) :: r'.trace.events, r'.trace.fault?⟩
termination_by r.rest.length
decreasing_by all_goals exact Reader.length_of_next _h

namespace Reader

theorem trace_of_finished {r : Reader} (h : r.next = .finished) : r.trace = ⟨[], none⟩ := by
  rw [trace]
  split <;> simp_all

theorem trace_of_fault {r : Reader} {position : Nat} {cause : Fault}
    (h : r.next = .fault position cause) : r.trace = ⟨[], some (position, cause)⟩ := by
  rw [trace]
  split <;> simp_all

theorem trace_of_event {r r' : Reader} {e : Event} (h : r.next = .event e r') :
    r.trace = ⟨(r'.position, e) :: r'.trace.events, r'.trace.fault?⟩ := by
  rw [trace]
  split <;> simp_all

end Reader

/-! ## The open elements -/

namespace Event

/-- The names of the open elements behind an event, the innermost first. -/
def nest (names : List (List Char)) : Event → List (List Char)
  | .opened name => name :: names
  | .closed _ => names.tail
  | _ => names

/-- Whether an event, if it ends an element, ends the innermost open one. -/
def Matches (names : List (List Char)) (e : Event) : Prop :=
  ∀ name, e = .closed name → names.head? = some name

end Event

/-- The names of the open elements behind a run of events, the innermost first. -/
def openNames (names : List (List Char)) (run : List (Nat × Event)) : List (List Char) :=
  run.foldl (fun names e => e.2.nest names) names

/-- The names of the elements that are open behind a run of events from the beginning of a text. -/
def openBehind (run : List (Nat × Event)) : List (List Char) := openNames [] run

theorem openNames_append (names : List (List Char)) (run later : List (Nat × Event)) :
    openNames names (run ++ later) = openNames (openNames names run) later := List.foldl_append

theorem openBehind_concat (run : List (Nat × Event)) (e : Nat × Event) :
    openBehind (run ++ [e]) = e.2.nest (openBehind run) := by
  rw [openBehind, openNames_append]
  rfl

namespace Reader

variable {r r' : Reader} {e : Event}

/-- What an event does to the names that the reader keeps. -/
def Keeps (r : Reader) (e : Event) (r' : Reader) : Prop :=
  r'.opened = e.nest r.opened ∧ e.Matches r.opened

theorem keeps_declaration (h : r.declaration = .event e r') : r.Keeps e r' := by
  simp only [declaration] at h
  split at h
  · cases h
  · simp only [dataSection] at h
    split at h
    · cases h
    · split at h
      · cases h
        exact ⟨rfl, fun name h => by cases h⟩
      · cases h
  · simp only [comment] at h
    split at h
    · cases h
    · split at h
      · cases h
        exact ⟨rfl, fun name h => by cases h⟩
      · cases h
  · split at h
    · simp only [doctype] at h
      split at h
      · cases h
      · split at h
        · cases h
        · split at h
          · cases h
          · cases h
            exact ⟨rfl, fun name h => by cases h⟩
    · cases h

theorem keeps_endTag (h : r.endTag = .event e r') : r.Keeps e r' := by
  simp only [endTag] at h
  split at h
  · cases h
  · next expected outer names =>
    split at h
    · next found =>
      cases h
      refine ⟨by rw [names]; rfl, fun name h => ?_⟩
      cases h
      rw [names, List.head?_cons, eq_of_beq found]
    · cases h

theorem keeps_instruction (h : r.instruction = .event e r') : r.Keeps e r' := by
  simp only [instruction] at h
  split at h
  · cases h
    exact ⟨rfl, fun name h => by cases h⟩
  · cases h

theorem keeps_startTag (h : r.startTag = .event e r') : r.Keeps e r' := by
  simp only [startTag] at h
  split at h
  · cases h
  · split at h
    · cases h
      exact ⟨rfl, fun name h => by cases h⟩
    · cases h
      exact ⟨rfl, fun name h => by cases h⟩

theorem keeps_construct (h : r.construct = .event e r') : r.Keeps e r' := by
  simp only [construct] at h
  split at h
  · cases h
  · exact keeps_declaration h
  · exact keeps_endTag h
  · exact keeps_instruction h
  · exact keeps_startTag h

/-- **The reader keeps the names of the open elements**, and ends only the innermost one. -/
theorem keeps_next (h : r.next = .event e r') : r.Keeps e r' := by
  simp only [next] at h
  split at h
  · exact keeps_construct h
  · split at h
    · cases h
    · exact keeps_construct (r := { r with rest := _, offset := r.offset + 1 }) h
    · cases h
      exact ⟨rfl, fun name h => by cases h⟩

end Reader

/-! ## Traces -/

/-- Whether every end tag of a run ends the innermost open element. -/
def Matched (names : List (List Char)) (run : List (Nat × Event)) : Prop :=
  ∀ before e after, run = before ++ e :: after → e.2.Matches (openNames names before)

theorem matched_cons {names : List (List Char)} {e : Nat × Event} {run : List (Nat × Event)}
    (he : e.2.Matches names) (hrun : Matched (e.2.nest names) run) : Matched names (e :: run) := by
  intro before e' after split
  cases before with
  | nil =>
    cases split
    exact he
  | cons first before =>
    cases split
    exact hrun before e' after rfl

theorem Matched.of_append {names : List (List Char)} {run later : List (Nat × Event)}
    (h : Matched names (run ++ later)) : Matched names run := by
  intro before e after split
  exact h before e (after ++ later) (by rw [split]; simp)

namespace Reader

/-- **In a trace every end tag ends the innermost open element.** -/
theorem matched_trace (r : Reader) : Matched r.opened r.trace.events := by
  -- The names that the reader keeps are carried along as what is open before each event.
  fun_induction trace r with
  | case1 r ends =>
    intro before e after split
    cases before <;> cases split
  | case2 r position cause stops =>
    intro before e after split
    cases before <;> cases split
  | case3 r e r' reads ih =>
    obtain ⟨names, matching⟩ := keeps_next reads
    exact matched_cons matching (names ▸ ih)

end Reader

end TreeQuery.Markup

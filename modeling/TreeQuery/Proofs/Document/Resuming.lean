import TreeQuery.Proofs.Document.Insertion

/-!
# Two texts that part and meet again

What is built of a text is built of what its first events leave behind (`build_of_reads`), and only
the unread text and the names of the open elements matter for the rest (`build_eq_ok_of_ahead`).  So
two texts give the same tree if their events lead the builder to the same place and the same text is
ahead there (`parse_of_agree`).
-/

namespace TreeQuery

open Markup (Event Reader)
open Markup.Reader (ofText Reads)

namespace Markup

/-- Whether the reader comes to a piece of a text and reads just that piece as one event. -/
def ReadsAs (before written after : List Char) (e : Event) : Prop :=
  ∃ run r r', Reads (ofText (before ++ (written ++ after))) run r ∧ r.Ahead (written ++ after) ∧
    r.next = .event e r' ∧ r'.Ahead after

end Markup

namespace Document

variable {text text₂ : String} {root : Node} {run run₂ : List (Nat × Event)} {r r₂ r' : Reader}
  {x : List Char}

namespace Builder

theorem takeAll_singleton (b : Builder) (e : Nat × Event) : b.takeAll [e] = b.take e.1 e.2 :=
  bind_pure (b.take e.1 e.2)

theorem takeAll_append_eq_ok_iff {b b' : Builder} {later : List (Nat × Event)} :
    b.takeAll (run ++ later) = .ok b' ↔
      ∃ b₁, b.takeAll run = .ok b₁ ∧ b₁.takeAll later = .ok b' := by
  rw [takeAll_append]
  cases b.takeAll run with
  | error error => simp [bind, Except.bind]
  | ok b₁ => simp [bind, Except.bind]

theorem takeAll_same_iff {b b' : Builder} (same : run₂.map (·.2) = run.map (·.2)) :
    b.takeAll run = .ok b' ↔ b.takeAll run₂ = .ok b' :=
  ⟨fun h => takeAll_same h same, fun h => takeAll_same h same.symm⟩

theorem takeAll_append_iff {b b' : Builder} {later later₂ : List (Nat × Event)}
    (same : run₂.map (·.2) = run.map (·.2))
    (tail : ∀ b : Builder, b.takeAll later = b.takeAll later₂) :
    b.takeAll (run ++ later) = .ok b' ↔ b.takeAll (run₂ ++ later₂) = .ok b' := by
  have front : (run₂ ++ later).map (·.2) = (run ++ later).map (·.2) := by simp [same]
  rw [takeAll_same_iff front, takeAll_append, takeAll_append]
  simp only [tail]

theorem push_nil (b : Builder) : b.push [] = .ok b := by
  obtain ⟨frames, root⟩ := b
  cases frames <;> rfl

/-- A run of text is decoded and taken, if there is any. -/
theorem takeAll_textEvents {b b' : Builder} {u : List Char}
    (events : run.map (·.2) = Markup.textEvents u) :
    b.takeAll run = .ok b' ↔ ∃ a, Markup.decode u = .ok a ∧ b.push a = .ok b' := by
  by_cases empty : u = []
  · subst empty
    obtain rfl : run = [] := List.map_eq_nil_iff.mp events
    have nothing : Markup.decode [] = .ok [] := rfl
    simp [nothing, push_nil]
  · rw [Markup.textEvents, if_neg empty] at events
    obtain ⟨e, rfl, event⟩ := List.map_eq_singleton_iff.mp events
    rw [takeAll_singleton, event]
    cases decoded : Markup.decode u with
    | error fault => simp [take, decoded]
    | ok a => simp [take, decoded]

end Builder

/-- **What is built of a text is built of what its first events leave behind.** -/
theorem build_of_reads (reads : Reads r run r') (b : Builder) :
    build b r = b.takeAll run >>= fun b' => build b' r' := by
  rw [build_eq_conclude, reads.trace_eq, conclude, Builder.takeAll_append]
  cases b.takeAll run with
  | error error => rfl
  | ok b' => exact (build_eq_conclude b' r').symm

theorem build_of_finished (b : Builder) (ends : r.next = .finished) : build b r = b.finish := by
  rw [build_eq_conclude, Reader.trace_of_finished ends]
  rfl

theorem build_of_fault (b : Builder) {position : Nat} {cause : Markup.Fault}
    (stops : r.next = .fault position cause) : build b r = .error (.markup position cause) := by
  rw [build_eq_conclude, Reader.trace_of_fault stops]
  rfl

theorem build_eq_ok_iff_of_reads {b : Builder} (reads : Reads r run r') :
    build b r = .ok root ↔ ∃ b', b.takeAll run = .ok b' ∧ build b' r' = .ok root := by
  rw [build_of_reads reads]
  cases b.takeAll run with
  | error error => simp [bind, Except.bind]
  | ok b' => simp [bind, Except.bind]

theorem parse_eq_ok_iff_of_reads (reads : Reads (ofText text.toList) run r) :
    parse text .plain = .ok root ↔
      ∃ b, Builder.start.takeAll run = .ok b ∧ build b r = .ok root :=
  build_eq_ok_iff_of_reads reads

/-- A document is read without a fault. -/
theorem next_of_parse (h : parse text .plain = .ok root)
    (reads : Reads (ofText text.toList) run r) :
    r.next = .finished ∨ ∃ e r', r.next = .event e r' := by
  obtain ⟨b, -, built⟩ := (parse_eq_ok_iff_of_reads reads).mp h
  cases next : r.next with
  | finished => exact .inl rfl
  | event e r' => exact .inr ⟨e, r', rfl⟩
  | fault position cause =>
    rw [build_of_fault b next] at built
    cases built

/-- **The unread text and the open elements decide the rest.** -/
theorem build_eq_ok_of_ahead {b : Builder} (ahead : r.Ahead x) (ahead₂ : r₂.Ahead x)
    (opened : r₂.opened = r.opened) (h : build b r = .ok root) : build b r₂ = .ok root := by
  have sound : r.trace.fault? = none := by
    rw [build_eq_conclude, conclude] at h
    split at h
    · cases h
    · split at h
      · cases h
      · next none => exact none
  obtain ⟨last, reads, ends⟩ := Markup.Reader.exists_reads_trace sound
  obtain ⟨run₂, last₂, reads₂, same, ends₂⟩ :=
    Markup.exists_reads_on ahead ahead₂ opened reads ends
  rw [build_of_reads reads] at h
  rw [build_of_reads reads₂]
  cases taken : b.takeAll r.trace.events with
  | error error =>
    rw [taken] at h
    cases h
  | ok b' =>
    rw [taken] at h
    rw [(Builder.takeAll_same_iff same).mp taken]
    exact (build_of_finished b' ends₂).trans ((build_of_finished b' ends).symm.trans h)

/-- **Two texts whose events lead to the same place write the same tree**, if the same text is ahead
there. -/
theorem parse_of_agree (reads : Reads (ofText text.toList) run r)
    (reads₂ : Reads (ofText text₂.toList) run₂ r₂) (ahead : r.Ahead x) (ahead₂ : r₂.Ahead x)
    (opened : r₂.opened = r.opened)
    (agree : ∀ b, Builder.start.takeAll run = .ok b → Builder.start.takeAll run₂ = .ok b)
    (h : parse text .plain = .ok root) : parse text₂ .plain = .ok root := by
  obtain ⟨b, taken, built⟩ := (parse_eq_ok_iff_of_reads reads).mp h
  exact (parse_eq_ok_iff_of_reads reads₂).mpr
    ⟨b, agree b taken, build_eq_ok_of_ahead ahead ahead₂ opened built⟩

end Document

end TreeQuery

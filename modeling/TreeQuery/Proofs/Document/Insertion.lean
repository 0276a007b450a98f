import Mathlib
import TreeQuery.Proofs.Markup.Again
import TreeQuery.Proofs.Written.RoundTrip

/-!
# Comments and instructions may stand anywhere between two events

Where a construct begins or ends, a comment or an instruction can be written without any effect on
the tree (`parse_insert`).  The reader stands at such a place (`Edge`, and `edges_of_next` finds one
on either side of every construct); what it read before is read again, as it takes the same text,
then the aside is read, and then the reader has the same text ahead as before.  So the events are
the same but for one that is silent (`exists_trace_insert`), and the builder does nothing with that
one.

Offsets change behind the aside.  They are reported with faults only, and a document has none.
-/

namespace TreeQuery

namespace Markup

open Reader (ofText Reads takes_of_next takes_of_reads head_of_construct exists_reads_trace)

/-- A place in a text where markup begins or ends: the reader stands there between two events, with
a `<` behind the place or a `>` in front of it. -/
structure Edge (before after : List Char) : Prop where
  stands : ∃ run r, Reads (ofText (before ++ after)) run r ∧ r.Ahead after
  marked : after.head? = some '<' ∨ before.getLast? = some '>'

/-- Every construct that is read begins at an edge, and ends at one if it has a `>`. -/
theorem edges_of_next {text : List Char} {run : List (Nat × Event)} {r r' : Reader} {e : Event}
    (reads : Reads (ofText text) run r) (next : r.next = .event e r')
    (construct : ∀ s, e ≠ .text s) :
    ∃ before written after, text = before ++ (written ++ after) ∧ Edge before (written ++ after) ∧
      (written.getLast? = some '>' → Edge (before ++ written) after) := by
  obtain ⟨lead, body, rfl, ahead₀⟩ := exists_ahead_ofText text
  obtain ⟨u, y, rfl, first⟩ := takes_of_reads ahead₀ reads
  have begins := head_of_construct first.ahead next construct
  obtain ⟨written, after, rfl, second⟩ := takes_of_next first.ahead next
  have nonempty : written ≠ [] := second.nonempty (List.cons_ne_nil _ _)
  refine ⟨lead ++ u, written, after, by simp, ?_, fun last => ?_⟩
  · exact ⟨⟨run, r, by simpa using reads, first.ahead⟩, .inl begins⟩
  · refine ⟨⟨run ++ [(r'.position, e)], r', ?_, second.ahead⟩, .inr ?_⟩
    · simpa using reads.append (.cons next (.nil r'))
    · rw [List.getLast?_append_of_ne_nil _ nonempty, last]

/-- **With an aside at an edge the events are the same**, and one more that is silent. -/
theorem exists_trace_insert {before after : List Char} (edge : Edge before after)
    (a : Written.Aside) (sound : (ofText (before ++ after)).trace.fault? = none) :
    ∃ run later run₂ later₂ position,
      (ofText (before ++ after)).trace.events = run ++ later ∧
      (ofText (before ++ (a.written ++ after))).trace =
        ⟨run₂ ++ (position, .silent) :: later₂, none⟩ ∧
      run₂.map (·.2) = run.map (·.2) ∧ later₂.map (·.2) = later.map (·.2) := by
  obtain ⟨⟨run, r, reads, ahead⟩, marked⟩ := edge
  have whole := reads.trace_eq
  rw [whole] at sound
  obtain ⟨last, readsOn, ends⟩ := exists_reads_trace sound
  obtain ⟨run₂, r₂, reads₂, same, ahead₂, opened⟩ :=
    exists_reads_again reads ahead marked (a.endsText after)
  obtain ⟨r₃, next, ahead₃⟩ := a.yields ahead₂
  have kept : r₃.opened = r₂.opened := (Reader.keeps_next next).1
  obtain ⟨later₂, last₂, readsOn₂, same₂, ends₂⟩ :=
    exists_reads_on ahead ahead₃ (kept.trans opened) readsOn ends
  refine ⟨run, r.trace.events, run₂, later₂, r₃.position, by rw [whole], ?_, same, same₂⟩
  rw [(reads₂.append (.cons next readsOn₂)).trace_eq, Reader.trace_of_finished ends₂,
    List.append_nil]

end Markup

namespace Document

open Markup (Event Edge Reader)

namespace Builder

/-- Where an event is taken it is taken at any position. -/
theorem take_at {b b' : Builder} {position : Nat} {e : Event} (h : b.take position e = .ok b')
    (position' : Nat) : b.take position' e = .ok b' := by
  cases e with
  | text written =>
    cases decoded : Markup.decode written with
    | error fault => simp [take, decoded] at h
    | ok s => simpa only [take, decoded] using h
  | data s => exact h
  | opened name => exact h
  | empty name => exact h
  | closed name => exact h
  | silent => exact h

theorem takeAll_same {b b' : Builder} {run run₂ : List (Nat × Event)}
    (h : b.takeAll run = .ok b') (same : run₂.map (·.2) = run.map (·.2)) :
    b.takeAll run₂ = .ok b' := by
  induction run generalizing b run₂ with
  | nil =>
    rw [List.map_nil, List.map_eq_nil_iff] at same
    rw [same, h]
  | cons e run ih =>
    obtain ⟨e₂, later, rfl, event, same⟩ := List.map_eq_cons_iff.mp same
    rw [takeAll_cons] at h ⊢
    cases taken : b.take e.1 e.2 with
    | error error =>
      rw [taken] at h
      cases h
    | ok b₁ =>
      rw [taken] at h
      rw [event, take_at taken e₂.1]
      exact ih h same

end Builder

theorem parse_eq_ok_iff (document : String) (root : Node) :
    parse document .plain = .ok root ↔
      (Reader.ofText document.toList).trace.fault? = none ∧
        Builder.start.takeAll (Reader.ofText document.toList).trace.events =
          .ok ⟨[], some root⟩ := by
  have matched := Markup.Reader.matched_trace (Reader.ofText document.toList)
  rw [Builder.takeAll_eq_iff_isDocument matched, ← conclude_eq_ok_iff matched, ← build_eq_conclude]
  rfl

/-- **A comment or an instruction may be inserted at every edge of a document** without a change to
the tree. -/
theorem parse_insert {before after : String} (edge : Edge before.toList after.toList) {root : Node}
    (h : parse (before ++ after) .plain = .ok root) (a : Written.Aside) :
    parse (before ++ String.ofList a.written ++ after) .plain = .ok root := by
  rw [parse_eq_ok_iff, String.toList_append] at h
  obtain ⟨sound, taken⟩ := h
  obtain ⟨run, later, run₂, later₂, position, events, trace, same, same'⟩ :=
    Markup.exists_trace_insert edge a sound
  have kept : Builder.start.takeAll (run₂ ++ later₂) = .ok ⟨[], some root⟩ := by
    refine Builder.takeAll_same taken ?_
    rw [events, List.map_append, List.map_append, same, same']
  rw [parse_eq_ok_iff, String.toList_append, String.toList_append, String.toList_ofList,
    List.append_assoc, trace]
  refine ⟨rfl, ?_⟩
  rw [← kept, Builder.takeAll_append, Builder.takeAll_append]
  rfl

/-- A comment between a text and a data section, and an instruction behind the root. -/
theorem parse_insert_comment_instruction :
    parse ("<r>a" ++ "<!-- > -->" ++ "<![CDATA[b]]>c</r>") .plain = .ok ⟨"r", [], some "abc"⟩ ∧
      parse ("<r>a</r >" ++ "<?x?>" ++ "") .plain = .ok ⟨"r", [], some "a"⟩ := by
  have between : Edge "<r>a".toList "<![CDATA[b]]>c</r>".toList :=
    ⟨⟨_, _, .cons rfl (.cons rfl (.nil _)), .inl rfl⟩, .inl rfl⟩
  have behind : Edge "<r>a</r >".toList "".toList :=
    ⟨⟨_, _, .cons rfl (.cons rfl (.cons rfl (.nil _))), rfl⟩, .inr rfl⟩
  exact ⟨parse_insert between (by cbv) (.comment ⟨[' ', '>', ' '], by decide⟩),
    parse_insert behind (by cbv) (.instruction ⟨['x'], by simp, by simp⟩)⟩

end Document

end TreeQuery

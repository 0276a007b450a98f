import TreeQuery.Proofs.Document.FaultPosition
import TreeQuery.Proofs.Loop

/-!
# A document is read to its end

Building a tree is a loop: each turn reads one event and gives it to the builder, until the text
ends or something is at fault (`turn`, `build_eq_turn`).  Nothing counts the turns.  But every event
takes at least one byte of the text that is left, even where nothing is written in it, so the bytes
left are the measure that gets smaller (`rest_lt_of_turn`): the loop ends after no more turns than
the text has bytes, and a reader cannot deliver events for ever (`turns_end`).
-/

namespace TreeQuery.Document

open Loop (After)
open Text (byteLength)
open Markup (Event Reader)
open Markup.Reader (Reads ofText)

/-- One turn of building: the builder and the reader behind one event, or the result. -/
def turn (s : Builder × Reader) : (Builder × Reader) ⊕ Except Error Node :=
  match s.2.next with
  | .finished => .inr s.1.finish
  | .fault position cause => .inr (.error (.markup position cause))
  | .event e r => match s.1.take r.position e with
    | .ok b => .inl (b, r)
    | .error error => .inr (.error error)

variable {s t : Builder × Reader} {result : Except Error Node}

/-- A turn that goes on has taken an event. -/
theorem exists_of_turn (h : turn s = .inl t) :
    ∃ e, s.2.next = .event e t.2 ∧ s.1.take t.2.position e = .ok t.1 := by
  unfold turn at h
  split at h
  · cases h
  · cases h
  · next e r next =>
    split at h
    · next b taken =>
      cases h
      exact ⟨e, next, taken⟩
    · cases h

/-- Building is nothing but these turns. -/
theorem build_eq_turn (s : Builder × Reader) :
    build s.1 s.2 = (turn s).elim (fun t => build t.1 t.2) id := by
  unfold turn
  cases next : s.2.next with
  | finished => exact build_of_finished s.1 next
  | fault position cause => exact build_of_fault s.1 next
  | event e r =>
    rw [build_of_reads (.cons next (.nil r)), Builder.takeAll_singleton]
    dsimp only
    cases s.1.take r.position e with
    | ok b => rfl
    | error error => rfl

/-- **Every turn that goes on takes some of the text.** -/
theorem rest_lt_of_turn (h : turn s = .inl t) :
    byteLength t.2.rest < byteLength s.2.rest := by
  obtain ⟨e, next, -⟩ := exists_of_turn h
  exact (Reader.advances_of_next next).rest_lt

theorem rest_ofText_le (text : List Char) : byteLength (ofText text).rest ≤ byteLength text :=
  Nat.le_trans (Nat.le_add_left _ _) (total_ofText_le text)

/-- Events that follow each other without end would take bytes without end. -/
theorem exists_ne_event (readers : Nat → Reader) :
    ∃ i, ∀ e, (readers i).next ≠ .event e (readers (i + 1)) := by
  obtain ⟨i, rises⟩ := WellFounded.not_rel_apply_succ (r := (· < ·))
    fun i => byteLength (readers i).rest
  exact ⟨i, fun e next => rises (Reader.advances_of_next next).rest_lt⟩

/-- **Every text is read to an end.**  Building a tree goes on turn by turn, and every turn that
goes on leaves fewer bytes of the text.  So there are at most as many turns as the text has bytes,
and then the loop has the result of the text.  No more events than bytes are ever delivered, and
there is no endless sequence of readers, each behind an event of the one before. -/
theorem turns_end (text : String) (options : Options) :
    let bytes := byteLength (source text options)
    let start := (Builder.start, ofText (source text options))
    (∀ s, build s.1 s.2 = (turn s).elim (fun t => build t.1 t.2) id) ∧
    (∀ s t, turn s = .inl t → byteLength t.2.rest < byteLength s.2.rest) ∧
    (∃ n last, n ≤ bytes ∧ After turn n start last ∧ turn last = .inr (parse text options)) ∧
    (∀ run r, Reads start.2 run r → run.length + byteLength r.rest ≤ bytes) ∧
    ∀ readers : Nat → Reader, ∃ i, ∀ e, (readers i).next ≠ .event e (readers (i + 1)) := by
  intro bytes start
  refine ⟨build_eq_turn, fun s t => rest_lt_of_turn, ?_, fun run r reads => ?_, exists_ne_event⟩
  · obtain ⟨n, last, bound, after, ended⟩ := Loop.exists_end (fun s => byteLength s.2.rest)
      (fun s => build s.1 s.2) (fun s t => rest_lt_of_turn) build_eq_turn start
    exact ⟨n, last, Nat.le_trans bound (rest_ofText_le _), after, ended⟩
  · exact Nat.le_trans reads.length_le (rest_ofText_le _)

/-- A tag, a comment and a data section with nothing in them, and the beginning of an end tag. -/
theorem turns_end_nothing_written :
    let text := "<><!----><![CDATA[]]></"
    ∃ n last, n ≤ 23 ∧ After turn n (Builder.start, ofText (source text .plain)) last ∧
      turn last = .inr (.ok (Node.new "")) := by
  intro text
  have result : parse text .plain = .ok (Node.new "") := by cbv
  have bytes : byteLength (source text .plain) = 23 := by cbv
  obtain ⟨n, last, bound, after, ended⟩ := (turns_end text .plain).2.2.1
  exact ⟨n, last, bytes ▸ bound, after, result ▸ ended⟩

end TreeQuery.Document

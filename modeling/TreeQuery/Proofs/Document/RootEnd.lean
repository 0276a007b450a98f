import Mathlib
import TreeQuery.Proofs.Document.Insertion
import TreeQuery.Proofs.Document.Verdict
import TreeQuery.Proofs.Markup.Kind

/-!
# Where the root element ends

The root element ends with its end tag, or with its only tag if that opens and closes it.  Along
any run of events as many elements have ended outside of all others as have started there, but for
one that is still open (`length_rootTags`).  So a document has exactly one such place
(`exists_rootEnd`, `RootEnd.unique`).

A text that is longer has its root element end there too if it is a document, with the same tag or,
where the shorter text ends inside of an end tag, with an end tag that goes on (`RootEnd.extend`).
-/

namespace TreeQuery

open Markup

namespace Markup.Event

/-- The name of the element that ends with an event and lies in no other one; `names` are the
elements open before the event. -/
def endedRoot? (names : List (List Char)) : Event → Option (List Char)
  | .closed name => if names.length = 1 then some name else none
  | .empty name => if names = [] then some name else none
  | _ => none

end Markup.Event

namespace Document

open Markup.Reader (ofText Reads EndsText takes_of_reads takes_of_next exists_construct
  rest_of_construct_closed rest_of_construct_empty)

/-- The names of the elements that have ended outside of all others, in order. -/
def rootEnds (run : List (Nat × Event)) : List (List Char) :=
  gather (fun before e => e.2.endedRoot? (openBehind before)) run

/-- **What has started outside of all elements has ended there**, or is still open. -/
theorem length_rootTags (run : List (Nat × Event)) :
    (rootTags run).length = (rootEnds run).length + if openBehind run = [] then 0 else 1 := by
  induction run using List.reverseRecOn with
  | nil => rfl
  | append_singleton run e ih =>
    have ends : rootEnds (run ++ [e]) =
        rootEnds run ++ (e.2.endedRoot? (openBehind run)).toList := gather_concat ..
    rw [rootTags_concat, ends, openBehind_concat, List.length_append, List.length_append, ih,
      rootTag?]
    obtain ⟨position, e⟩ := e
    -- What an event does depends on whether it stands outside, inside of one element, or deeper.
    rcases openBehind run with _ | ⟨name, _ | ⟨outer, names⟩⟩ <;> cases e <;>
      simp [startTag?, Event.endedRoot?, Event.nest]

/-- A tag with which the root element of a text ends, `before` in front of it and `after` behind:
the reader comes to it, and it ends an element that lies in no other one. -/
structure RootEnd (before tag after : List Char) (e : Event) : Prop where
  stands : ∃ run r r', Reads (ofText (before ++ (tag ++ after))) run r ∧ r.Ahead (tag ++ after) ∧
    r.next = .event e r' ∧ r'.Ahead after ∧ ∃ name, e.endedRoot? r.opened = some name

variable {document : String} {root : Node} {before tag after before' tag' after' : List Char}
  {e e' : Event}

theorem ne_text_of_endedRoot {names : List (List Char)} {name : List Char}
    (h : e.endedRoot? names = some name) : ∀ s, e ≠ .text s := by
  rintro s rfl
  cases h

/-! ## There is one such place -/

theorem length_rootEnds (h : parse document .plain = .ok root) :
    (rootEnds (ofText document.toList).trace.events).length = 1 := by
  obtain ⟨-, taken⟩ := (parse_eq_ok_iff document root).mp h
  have run := takeAll_start (Markup.Reader.matched_trace (ofText document.toList))
  cases found : offences (ofText document.toList).trace.events with
  | cons error later =>
    rw [found] at run
    cases run.symm.trans taken
  | nil =>
    rw [found] at run
    obtain ⟨b, taken', agrees⟩ := run
    cases taken.symm.trans taken'
    have rooted := List.length_pos_iff.mpr fun none => by cases (agrees.unrooted_iff.mp none).2
    have count := length_rootTags (ofText document.toList).trace.events
    rw [if_pos (agrees.outside_iff.mp rfl)] at count
    have := agrees.roots_le
    omega

theorem exists_rootEnd (h : parse document .plain = .ok root) :
    ∃ before tag after e, document.toList = before ++ (tag ++ after) ∧
      RootEnd before tag after e := by
  obtain ⟨sound, -⟩ := (parse_eq_ok_iff document root).mp h
  obtain ⟨last, all, -⟩ := Markup.Reader.exists_reads_trace sound
  obtain ⟨name, mem⟩ := List.exists_mem_of_length_pos (Nat.lt_of_lt_of_eq Nat.one_pos
    (length_rootEnds h).symm)
  obtain ⟨run, e, later, split, ended⟩ := mem_gather.mp mem
  rw [split] at all
  obtain ⟨r, reads, readsOn⟩ := Reads.append_iff.mp all
  obtain ⟨r', next, -, -⟩ := Reads.cons_iff.mp readsOn
  -- The events before it take the text in front of it.
  obtain ⟨lead, body, whole, ahead⟩ := exists_ahead_ofText document.toList
  obtain ⟨u, y, rfl, first⟩ := takes_of_reads ahead reads
  obtain ⟨tag, after, rfl, second⟩ := takes_of_next first.ahead next
  have whole : document.toList = (lead ++ u) ++ (tag ++ after) := by simp [whole]
  refine ⟨lead ++ u, tag, after, e.2, whole, ⟨run, r, r', whole ▸ reads, first.ahead, next,
    second.ahead, name, ?_⟩⟩
  rw [reads.opened_eq]
  exact ended

theorem RootEnd.unique (h : parse document .plain = .ok root)
    (whole : document.toList = before ++ (tag ++ after)) (ends : RootEnd before tag after e)
    (whole' : document.toList = before' ++ (tag' ++ after'))
    (ends' : RootEnd before' tag' after' e') :
    before = before' ∧ tag = tag' ∧ after = after' ∧ e = e' := by
  obtain ⟨run, r, r₁, reads, ahead, next, behind, name, ended⟩ := ends
  obtain ⟨run', r', r₁', reads', ahead', next', behind', name', ended'⟩ := ends'
  rw [← whole] at reads
  rw [← whole'] at reads'
  have events : (ofText document.toList).trace.events =
      run ++ (r₁.position, e) :: r₁.trace.events := by
    simp [(reads.append (.cons next (.nil r₁))).trace_eq]
  have events' : (ofText document.toList).trace.events =
      run' ++ (r₁'.position, e') :: r₁'.trace.events := by
    simp [(reads'.append (.cons next' (.nil r₁'))).trace_eq]
  have one := Nat.le_of_eq (length_rootEnds h)
  rw [events, rootEnds] at one
  rw [reads.opened_eq] at ended
  rw [reads'.opened_eq] at ended'
  obtain ⟨rfl, same, -⟩ := eq_of_gather_le_one ended ended' (events.symm.trans events') one
  obtain rfl := reads.unique reads'
  rw [next] at next'
  cases next'
  -- Both readers are one, so the same text is ahead of it before the tag and behind it.
  have construct := ne_text_of_endedRoot ended
  have text := ahead.unique ahead' (by rw [next]; simp)
  obtain rfl : after = after' :=
    (Markup.Reader.rest_of_ahead ahead next construct behind).trans
      (Markup.Reader.rest_of_ahead ahead next construct behind').symm
  rw [text] at whole
  have lead : before = before' := List.append_cancel_right (whole.symm.trans whole')
  exact ⟨lead, List.append_cancel_right text, rfl, rfl⟩

/-! ## What its text is -/

/-- The tag is an end tag, or one that opens and closes an element and has its `>`. -/
theorem RootEnd.shape (ends : RootEnd before tag after e) :
    (∃ name u, e = .closed name ∧ tag = '<' :: '/' :: u) ∨
      ∃ name u, e = .empty name ∧ tag = '<' :: (u ++ ['>']) := by
  obtain ⟨run, r, r', -, ahead, next, behind, name, ended⟩ := ends
  have construct := ne_text_of_endedRoot ended
  obtain ⟨r₁, text, -, reads⟩ := exists_construct ahead next construct
  obtain rfl := Markup.Reader.rest_of_ahead ahead next construct behind
  cases e with
  | closed name =>
    obtain ⟨s, begins⟩ := rest_of_construct_closed reads
    -- More than the `<` was read, so the slash belongs to the tag.
    have shorter := Markup.Reader.length_of_construct reads
    rw [begins] at text shorter
    rcases tag with _ | ⟨c, _ | ⟨d, u⟩⟩
    · have := congrArg List.length text
      simp only [List.nil_append, List.length_cons] at this shorter
      omega
    · have := congrArg List.length text
      simp only [List.cons_append, List.nil_append, List.length_cons] at this shorter
      omega
    · obtain ⟨rfl, rfl, -⟩ : c = '<' ∧ d = '/' ∧ _ := by simpa using text
      exact .inl ⟨name, u, rfl, rfl⟩
  | empty name =>
    obtain ⟨content, begins, -⟩ := rest_of_construct_empty reads
    refine .inr ⟨name, content ++ ['/'], rfl, List.append_cancel_right (text.trans ?_)⟩
    simp [begins]
  | text s => cases ended
  | data s => cases ended
  | opened name => cases ended
  | silent => cases ended

/-! ## In a longer text -/

/-- **The root element of a longer text ends in the same place**, if no fault is found there: with
the same tag, or with an end tag where the shorter text ends inside of one. -/
theorem RootEnd.extend (ends : RootEnd before tag after e) (rest : List Char)
    (sound : (ofText (before ++ (tag ++ (after ++ rest)))).trace.fault? = none) :
    ∃ tag' after' e', tag ++ (after ++ rest) = tag' ++ after' ∧ RootEnd before tag' after' e' ∧
      ((∃ name, e = .closed name ∧ ∃ name', e' = .closed name') ∨ (tag' = tag ∧ e' = e)) := by
  have shape := ends.shape
  obtain ⟨run, r, r', reads, ahead, next, behind, name, ended⟩ := ends
  have begins (y : List Char) : (tag ++ y).head? = some '<' := by
    rcases shape with ⟨_, u, -, rfl⟩ | ⟨_, u, -, rfl⟩ <;> rfl
  have marks : EndsText (tag ++ (after ++ rest)) := fun c first =>
    Option.some.inj (first.symm.trans (begins _))
  obtain ⟨run₂, r₂, reads₂, -, ahead₂, opened⟩ :=
    exists_reads_again reads ahead (.inl (begins after)) marks
  rcases shape with ⟨_, u, rfl, written⟩ | ⟨_, u, rfl, written⟩
  · -- An end tag is read there, as nothing else begins in this way.
    obtain ⟨r₃, next₃, rest₃, -⟩ := Markup.Reader.next_of_ahead (written ▸ ahead₂)
    rw [Written.construct_endTag rest₃] at next₃
    rcases r₃.endTag_cases with ⟨name', r₃', reads₃⟩ | ⟨position, cause, fault⟩
    · rw [reads₃] at next₃
      obtain ⟨tag', after', text, taken⟩ := takes_of_next ahead₂ next₃
      have ended' : (Event.closed name').endedRoot? r₂.opened = some name' := by
        rw [opened]
        simp only [Event.endedRoot?] at ended ⊢
        split at ended
        · next one => rw [if_pos one]
        · cases ended
      exact ⟨tag', after', .closed name', text, ⟨run₂, r₂, r₃', text ▸ reads₂, text ▸ ahead₂, next₃,
        taken.ahead, name', ended'⟩, .inl ⟨_, rfl, name', rfl⟩⟩
    · rw [reads₂.trace_eq, Markup.Reader.trace_of_fault (next₃.trans fault)] at sound
      cases sound
  · -- The tag is there with its end, so it is read again.
    have closed : Closes tag (after ++ rest) := by
      rw [written, closes_cons_iff]
      exact closes_concat u _
    obtain ⟨-, -, again⟩ := yields_again ahead next (ne_text_of_endedRoot ended) behind
    obtain ⟨r₃, next₃, ahead₃⟩ := again opened ahead₂ closed
    exact ⟨tag, after ++ rest, _, rfl, ⟨run₂, r₂, r₃, reads₂, ahead₂, next₃, ahead₃, name,
      opened ▸ ended⟩, .inr ⟨rfl, rfl⟩⟩

end Document

end TreeQuery

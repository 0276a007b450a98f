import Mathlib
import TreeQuery.Proofs.Document.Resuming
import TreeQuery.Proofs.Document.Verdict
import TreeQuery.Proofs.Markup.EndTag

/-!
# The open elements, kept twice

The reader keeps the names of the open elements to judge end tags, and the builder keeps a frame for
each of them.  At every point that the loop comes to (`Reached`) both are the same elements
(`Reached.frames_eq`), so an end tag that the reader accepts closes the innermost frame
(`Reached.closes`), and every other one is refused by the reader, with the tag of that frame in its
message (`Reached.stray`, `Reached.mismatched`).  The builder is never given an end tag without a
frame for it.
-/

namespace TreeQuery.Document

open Markup
open Markup.Reader (ofText Reads)

/-- The points that the loop comes to in a text: its beginning, and the place behind every event
that the builder takes. -/
inductive Reached (chars : List Char) : Builder → Reader → Prop where
  | start : Reached chars Builder.start (ofText chars)
  | step {b b' : Builder} {r r' : Reader} {e : Event} : Reached chars b r →
    r.next = .event e r' → b.take r'.position e = .ok b' → Reached chars b' r'

variable {chars s name : List Char} {text : String} {options : Options} {b : Builder}
  {r r' : Reader} {frame : Frame} {outer : List Frame}

namespace Reached

/-- What the loop has done at a point. -/
theorem exists_reads (point : Reached chars b r) :
    ∃ run, Reads (ofText chars) run r ∧ Builder.start.takeAll run = .ok b := by
  induction point with
  | start => exact ⟨[], .nil _, rfl⟩
  | step _ next taken ih =>
    obtain ⟨run, reads, before⟩ := ih
    refine ⟨_, reads.append (.cons next (.nil _)), ?_⟩
    rw [Builder.takeAll_append_eq_ok_iff]
    exact ⟨_, before, (Builder.takeAll_singleton _ _).trans taken⟩

/-- What is left to do at a point decides what is made of the text. -/
theorem build_eq (point : Reached chars b r) : build Builder.start (ofText chars) = build b r := by
  obtain ⟨run, reads, taken⟩ := point.exists_reads
  rw [build_of_reads reads, taken]
  rfl

/-- **The tags of the frames are the names of the open elements.** -/
theorem frames_eq (point : Reached chars b r) :
    b.frames.map (·.tag) = r.opened.map String.ofList := by
  obtain ⟨run, reads, taken⟩ := point.exists_reads
  have agrees := takeAll_start reads.matched
  rw [taken] at agrees
  cases found : offences run with
  | cons error later =>
    rw [found] at agrees
    cases agrees
  | nil =>
    rw [found] at agrees
    obtain ⟨b', same, agrees⟩ := agrees
    cases same
    rw [agrees.frames_eq, reads.opened_eq]
    rfl

/-- No open element has a gap in its name. -/
theorem gapless (point : Reached chars b r) : ∀ name ∈ r.opened, ∀ c ∈ name, isGap c = false := by
  induction point with
  | start => exact fun name h => by cases h
  | step _ next _ ih => exact Reader.gapless_opened next ih

/-- There is a frame for the innermost open element. -/
theorem exists_frame {names : List (List Char)} (point : Reached chars b r)
    (opened : r.opened = name :: names) :
    ∃ frame outer, b.frames = frame :: outer ∧ frame.tag = String.ofList name := by
  have same := point.frames_eq
  rw [opened] at same
  obtain ⟨frame, outer, frames, tag, -⟩ := List.map_eq_cons_iff.mp same
  exact ⟨frame, outer, frames, tag⟩

/-- The innermost frame is that of an open element. -/
theorem exists_opened (point : Reached chars b r) (frames : b.frames = frame :: outer) :
    ∃ name names, r.opened = name :: names ∧ frame.tag = String.ofList name := by
  have same := point.frames_eq
  rw [frames] at same
  obtain ⟨name, names, opened, tag, -⟩ := List.map_eq_cons_iff.mp same.symm
  exact ⟨name, names, opened, tag.symm⟩

/-- **An end tag that is accepted closes the innermost frame**: it has the tag of that frame, with
nothing but gaps behind it. -/
theorem closes (point : Reached chars b r) (next : r.next = .event (.closed name) r') :
    ∃ s frame outer, r.Ahead ('<' :: '/' :: s) ∧ b.frames = frame :: outer ∧
      frame.tag = String.ofList name ∧ name = (closingName s).rdropWhile isGap := by
  obtain ⟨y, ahead⟩ := r.exists_ahead
  have construct : ∀ s, Event.closed name ≠ .text s := fun s other => by cases other
  obtain ⟨r₁, rfl, opened, reads⟩ := Reader.exists_construct ahead next construct
  obtain ⟨s, begins⟩ := Reader.rest_of_construct_closed reads
  rw [Written.construct_endTag begins] at reads
  obtain ⟨_, others, names, same, ⟨⟩⟩ := (Reader.exists_endTag_iff begins).mp ⟨r', reads⟩
  have innermost : r.opened = name :: others := opened.symm.trans names
  obtain ⟨frame, outer, frames, tag⟩ := point.exists_frame innermost
  have gapless := point.gapless name (innermost ▸ List.mem_cons_self)
  have trimmed := rdropWhile_of_endName gapless same
  exact ⟨s, frame, outer, begins ▸ ahead, frames, tag, trimmed.symm⟩

/-- An end tag outside of all elements is refused, as it is written. -/
theorem stray (point : Reached chars b r) (ahead : r.Ahead ('<' :: '/' :: s))
    (outside : b.frames = []) : ∃ position, build Builder.start (ofText chars) =
      .error (.markup position (.mismatchedEnd [] (closingName s))) := by
  obtain ⟨r₁, next, rest, opened⟩ := Reader.next_of_ahead ahead
  have none : r₁.opened = [] := by
    have same := point.frames_eq
    rw [outside] at same
    rw [opened, ← List.map_eq_nil_iff, ← same]
    rfl
  have judged := Reader.endTag_of_begins rest
  rw [none] at judged
  obtain ⟨position, fault⟩ := judged
  rw [Written.construct_endTag rest, fault] at next
  exact ⟨position, point.build_eq.trans (build_of_fault b next)⟩

/-- An end tag with another name than the innermost frame has is refused. -/
theorem mismatched (point : Reached chars b r) (ahead : r.Ahead ('<' :: '/' :: s))
    (frames : b.frames = frame :: outer)
    (other : frame.tag ≠ String.ofList ((closingName s).rdropWhile isGap)) :
    ∃ position expected, String.ofList expected = frame.tag ∧
      build Builder.start (ofText chars) =
        .error (.markup position (.mismatchedEnd expected (endName (closingName s)))) := by
  obtain ⟨r₁, next, rest, opened⟩ := Reader.next_of_ahead ahead
  obtain ⟨expected, names, innermost, tag⟩ := point.exists_opened frames
  have gapless := point.gapless expected (innermost ▸ List.mem_cons_self)
  have differs : endName (closingName s) ≠ expected := fun same =>
    other (by rw [tag, rdropWhile_of_endName gapless same])
  have judged := Reader.endTag_of_begins rest
  simp only [opened, innermost, if_neg differs] at judged
  obtain ⟨position, fault⟩ := judged
  rw [Written.construct_endTag rest, fault] at next
  exact ⟨position, expected, tag.symm, point.build_eq.trans (build_of_fault b next)⟩

end Reached

/-- No event is refused for want of an open element. -/
theorem offence?_ne_unexpectedClose (before : List (Nat × Event)) (e : Nat × Event) (tag : String) :
    offence? before e ≠ some (.unexpectedClose tag) := by
  unfold offence?
  repeat' split
  all_goals simp

theorem refusal?_ne_unexpectedClose (trace : Trace) (tag : String) :
    refusal? trace ≠ some (.unexpectedClose tag) := by
  unfold refusal?
  split
  · next error later found =>
    have offends : error ∈ offences trace.events := found ▸ List.mem_cons_self
    obtain ⟨before, e, after, -, offends⟩ := mem_gather.mp offends
    rintro ⟨⟩
    exact offence?_ne_unexpectedClose before e tag offends
  · simp
  · unfold missing?
    repeat' split
    all_goals simp

theorem build_ne_unexpectedClose (chars : List Char) (tag : String) :
    build Builder.start (ofText chars) ≠ .error (.unexpectedClose tag) := by
  intro refused
  have matched : Matched [] (ofText chars).trace.events := Reader.matched_trace (ofText chars)
  rw [build_eq_conclude, conclude_eq_error_iff matched] at refused
  exact refusal?_ne_unexpectedClose _ tag refused

/-- **The reader and the builder agree on the open elements**, at every point of the loop.  So an
end tag that is accepted closes the innermost frame, there is always one, and every other end tag is
reported with the tag of the innermost frame as the one that was expected. -/
theorem lockstep (point : Reached (source text options) b r) :
    b.frames.map (·.tag) = r.opened.map String.ofList ∧
      (∀ name r', r.next = .event (.closed name) r' → ∃ s frame outer b',
        r.Ahead ('<' :: '/' :: s) ∧ b.frames = frame :: outer ∧ frame.tag = String.ofList name ∧
          name = (closingName s).rdropWhile isGap ∧ b.take r'.position (.closed name) = .ok b') ∧
      (∀ tag, parse text options ≠ .error (.unexpectedClose tag)) ∧
      ∀ s, r.Ahead ('<' :: '/' :: s) →
        (b.frames = [] → ∃ position cause, parse text options = .error (.markup position cause) ∧
          cause.message = "Expecting </> found </" ++ String.ofList (closingName s) ++ ">") ∧
        ∀ frame outer, b.frames = frame :: outer →
          frame.tag ≠ String.ofList ((closingName s).rdropWhile isGap) →
          ∃ position cause, parse text options = .error (.markup position cause) ∧
            cause.message = "Expecting </" ++ frame.tag ++ "> found </" ++
              String.ofList (endName (closingName s)) ++ ">" := by
  refine ⟨point.frames_eq, fun name r' next => ?_, build_ne_unexpectedClose _,
    fun s ahead => ⟨?_, ?_⟩⟩
  · obtain ⟨s, frame, outer, ahead, frames, tag, trimmed⟩ := point.closes next
    exact ⟨s, frame, outer, _, ahead, frames, tag, trimmed, by rw [Builder.take, frames]⟩
  · intro outside
    obtain ⟨position, refused⟩ := point.stray ahead outside
    exact ⟨position, _, refused, rfl⟩
  · intro frame outer frames other
    obtain ⟨position, expected, tag, refused⟩ := point.mismatched ahead frames other
    refine ⟨position, _, refused, ?_⟩
    rw [← tag]
    rfl

/-- An end tag for an element that is not open, and one behind the root element. -/
theorem lockstep_endTags :
    (∃ position cause, parse "<a><b>x</b ></c>" .plain = .error (.markup position cause) ∧
      cause.message = "Expecting </a> found </c>") ∧
    ∃ position cause, parse "<a/></a >" .plain = .error (.markup position cause) ∧
      cause.message = "Expecting </> found </a >" := by
  have inside : ∃ b r frame, Reached (source "<a><b>x</b ></c>" .plain) b r ∧
      r.Ahead ('<' :: '/' :: ['c', '>']) ∧ b.frames = [frame] ∧ frame.tag = "a" :=
    ⟨_, _, _, .step (.step (.step (.step .start rfl rfl) rfl rfl) rfl rfl) rfl rfl, rfl, rfl, rfl⟩
  have outside : ∃ b r, Reached (source "<a/></a >" .plain) b r ∧
      r.Ahead ('<' :: '/' :: ['a', ' ', '>']) ∧ b.frames = [] :=
    ⟨_, _, .step .start rfl rfl, rfl, rfl⟩
  obtain ⟨b, r, frame, point, ahead, frames, tag⟩ := inside
  obtain ⟨b', r', point', ahead', none⟩ := outside
  have mismatched := ((lockstep point).2.2.2 _ ahead).2 frame [] frames (by rw [tag]; decide)
  have stray := ((lockstep point').2.2.2 _ ahead').1 none
  rw [tag] at mismatched
  exact ⟨mismatched, stray⟩

end TreeQuery.Document

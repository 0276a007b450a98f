import Mathlib
import TreeQuery.Proofs.Document.Resuming
import TreeQuery.Proofs.Markup.EndTag

/-!
# Elements without content

A tag that opens and closes an element may be written as a start tag and an end tag side by side
(`parse_tagPair_iff`).  The reader finds the end tag where it was written, as the name has no `>`
in it, and comes to what follows with the same elements open.  The builder attaches the same element
in both cases (`takeAll_open_close`): a frame that is opened and closed again holds nothing, and
whether the element may begin is asked in the same way.
-/

namespace TreeQuery

open Markup
open Markup.Reader (ofText Reads)

namespace Markup

/-- A tag that opens and closes an element, as it is written. -/
def emptyTag (content : List Char) : List Char := '<' :: (content ++ ['/', '>'])

/-- A start tag with the end tag of the same element behind it, as they are written. -/
def tagPair (content : List Char) : List Char :=
  '<' :: (content ++ '>' :: '<' :: '/' :: (leadingName content ++ ['>']))

end Markup

namespace Document

/-- A start tag and its end tag side by side do what the one tag does. -/
theorem Builder.takeAll_open_close (b : Builder) (position position' position'' : Nat)
    (name : List Char) :
    b.takeAll [(position, .opened name), (position', .closed name)] =
      b.takeAll [(position'', .empty name)] := by
  have nothing : ∀ b : Builder, b.takeAll [] = b.placeAll [] := fun b => rfl
  have pair := takeAll_element b position position' name nothing
  rw [List.cons_append, List.nil_append] at pair
  -- An element without content has neither children nor text.
  rw [pair, takeAll_singleton, take_empty_eq_place]
  rfl

/-- Either way of writing an element without content is read behind the same events, and both lead
to the same place. -/
theorem exists_reads_tagPair {before content after name : List Char}
    (reads : ReadsAs before (emptyTag content) after (.empty name))
    (unslashed : content.getLast? ≠ some '/') (free : '>' ∉ leadingName content) :
    ∃ run r run₂ r₂, Reads (ofText (before ++ (emptyTag content ++ after))) run r ∧
      Reads (ofText (before ++ (tagPair content ++ after))) run₂ r₂ ∧ r.Ahead after ∧
      r₂.Ahead after ∧ r₂.opened = r.opened ∧
      ∀ b, Builder.start.takeAll run = .ok b ↔ Builder.start.takeAll run₂ = .ok b := by
  obtain ⟨run, r, r', reads, ahead, next, behind⟩ := reads
  have construct : ∀ s, Event.empty name ≠ .text s := fun s h => by cases h
  obtain ⟨r₁, text, -, tag⟩ := Reader.exists_construct ahead next construct
  obtain rfl := Reader.rest_of_ahead ahead next construct behind
  obtain ⟨written, whole, begins, closed, rfl⟩ := Reader.rest_of_construct_empty tag
  obtain rfl : content = written := by
    rw [whole, emptyTag, List.cons_append, List.append_assoc] at text
    exact List.append_cancel_right (List.cons.inj text).2
  -- With the start tag in its place the reader comes there again.
  have pair : tagPair content ++ r'.rest =
      '<' :: (content ++ '>' :: '<' :: '/' :: (leadingName content ++ '>' :: r'.rest)) := by
    simp [tagPair]
  obtain ⟨run₂, r₂, reads₂, same, ahead₂, opened₂⟩ :=
    exists_reads_again reads ahead (.inl rfl) (pair ▸ Reader.endsText_cons _)
  obtain ⟨r₃, next₃, ahead₃⟩ := Written.yields_opened begins closed unslashed (pair ▸ ahead₂)
  have opened₃ : r₃.opened = leadingName content :: r.opened := by
    rw [(Reader.keeps_next next₃).1, opened₂]
    rfl
  -- The end tag closes the element that has just been opened.
  have whole : endName (leadingName content) = leadingName content :=
    endName_of_gapless fun c => isGap_of_mem_leadingName
  obtain ⟨r₄, next₄, ahead₄⟩ := Written.yields_closed free (by rw [opened₃, whole]) ahead₃
  rw [whole] at next₄
  refine ⟨_, r', _, r₄, reads.append (.cons next (.nil r')),
    reads₂.append (.cons next₃ (.cons next₄ (.nil r₄))), behind, ahead₄, ?_, fun b => ?_⟩
  · rw [(Reader.keeps_next next₄).1, opened₃, (Reader.keeps_next next).1]
    rfl
  · rw [Builder.takeAll_append_iff same fun b => ?_]
    exact (Builder.takeAll_open_close b _ _ _ _).symm

/-- **A tag that opens and closes an element may be written as a start tag and an end tag**, and the
other way round: either text is a document if the other one is, and they write the same tree. -/
theorem parse_tagPair_iff {before content after : String} {name : List Char}
    (reads : ReadsAs before.toList (emptyTag content.toList) after.toList (.empty name))
    (unslashed : content.toList.getLast? ≠ some '/') (free : '>' ∉ leadingName content.toList)
    (root : Node) :
    parse (before ++ String.ofList (emptyTag content.toList) ++ after) .plain = .ok root ↔
      parse (before ++ String.ofList (tagPair content.toList) ++ after) .plain = .ok root := by
  obtain ⟨run, r, run₂, r₂, reads, reads₂, ahead, ahead₂, opened, agree⟩ :=
    exists_reads_tagPair reads unslashed free
  have text (s : List Char) : (before ++ String.ofList s ++ after).toList =
      before.toList ++ (s ++ after.toList) := by simp
  rw [← text] at reads reads₂
  constructor
  · exact parse_of_agree reads reads₂ ahead ahead₂ opened fun b => (agree b).mp
  · exact parse_of_agree reads₂ reads ahead₂ ahead opened.symm fun b => (agree b).mpr

/-- A tag with a `/>` inside of a quoted stretch, next to text. -/
theorem parse_tagPair_iff_quoted :
    parse ("<r>a" ++ "<b x='/>' />" ++ "c</r>") .plain = .ok ⟨"r", [⟨"b", [], none⟩], some "a"⟩ ∧
      parse ("<r>a" ++ "<b x='/>' ></b>" ++ "c</r>") .plain =
        .ok ⟨"r", [⟨"b", [], none⟩], some "a"⟩ := by
  have reads : ReadsAs "<r>a".toList (emptyTag "b x='/>' ".toList) "c</r>".toList (.empty ['b']) :=
    ⟨_, _, _, .cons rfl (.cons rfl (.nil _)), .inl rfl, rfl, rfl⟩
  have written : parse ("<r>a" ++ "<b x='/>' />" ++ "c</r>") .plain =
      .ok ⟨"r", [⟨"b", [], none⟩], some "a"⟩ := by cbv
  exact ⟨written, (parse_tagPair_iff reads (by decide) (by decide) _).mp written⟩

end Document

end TreeQuery

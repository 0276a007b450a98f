import Mathlib
import TreeQuery.Proofs.Document.Resuming
import TreeQuery.Proofs.Markup.Decoding

/-!
# Data sections as text

A data section may be written as text with `&`, `<` and `>` named (`parse_escape`), wherever it
stands.  The text then joins the text on both sides, so that up to three events become one or none:
the reader comes to where the text in front of the section began, and reads all of it up to the next
markup.  Decoding does not care where a run is divided, and the builder adds up what it is given in
one run (`push_append`), or asks of each part whether it is blank.
-/

namespace TreeQuery

open Markup
open Markup.Reader (ofText Reads EndsText)

namespace Markup

/-- A data section, as it is written. -/
def dataWritten (s : List Char) : List Char :=
  '<' :: (['!', '[', 'C', 'D', 'A', 'T', 'A', '['] ++ (s ++ [']', ']', '>']))

/-- Text leaves open what is open. -/
theorem foldl_nest_textEvents (u : List Char) (names : List (List Char)) :
    (textEvents u).foldl Event.nest names = names := by
  unfold textEvents
  split <;> rfl

end Markup

namespace Document

variable {b b' : Builder} {run : List (Nat × Event)} {s t u v : List Char}

namespace Builder

/-- **Texts that are taken one behind the other are one text.** -/
theorem push_append (b : Builder) (s t : List Char) :
    b.push (s ++ t) = b.push s >>= fun b' => b'.push t := by
  obtain ⟨frames, root⟩ := b
  rcases frames with _ | ⟨f, outer⟩
  · simp only [push, Text.allBlank, List.all_append, Bool.and_eq_true]
    by_cases blank : s.all Text.isBlank = true
    · simp [blank, bind, Except.bind]
    · simp [blank, bind, Except.bind]
  · simp [push, bind, Except.bind, List.reverseAux_eq]

/-- A data section and the text on both sides of it are taken as one run of text. -/
theorem takeAll_joined {before after : List (Nat × Event)} {position : Nat}
    (events : before.map (·.2) = textEvents u) (events' : after.map (·.2) = textEvents v)
    (taken : b.takeAll (before ++ ([(position, .data s)] ++ after)) = .ok b') :
    ∃ a, decode (u ++ (escape s ++ v)) = .ok a ∧ b.push a = .ok b' := by
  obtain ⟨b₁, first, rest⟩ := takeAll_append_eq_ok_iff.mp taken
  obtain ⟨b₂, second, third⟩ := takeAll_append_eq_ok_iff.mp rest
  rw [takeAll_singleton] at second
  obtain ⟨a, decoded, pushed⟩ := (takeAll_textEvents events).mp first
  obtain ⟨c, decoded', pushed'⟩ := (takeAll_textEvents events').mp third
  refine ⟨a ++ (s ++ c), decode_append decoded (decode_append (decode_escape s) decoded'), ?_⟩
  calc b.push (a ++ (s ++ c)) = b.push a >>= fun b₁ => b₁.push (s ++ c) := push_append b a _
    _ = b₁.push (s ++ c) := by rw [pushed]; rfl
    _ = b₁.push s >>= fun b₂ => b₂.push c := push_append b₁ s c
    _ = b₂.push c := by rw [show b₁.push s = .ok b₂ from second]; rfl
    _ = .ok b' := pushed'

/-- Outside of all elements no text begins with a byte order mark, which is not blank. -/
theorem head_ne_mark {w a : List Char} (outside : b.frames = []) (decoded : decode w = .ok a)
    (taken : b.push a = .ok b') : w.head? ≠ some '\uFEFF' := by
  intro mark
  obtain ⟨t, rfl⟩ := List.head?_eq_some_iff.mp mark
  obtain ⟨later, rfl⟩ := List.head?_eq_some_iff.mp (head_of_decode (by decide) decoded)
  have printed : Text.isBlank '\uFEFF' = false := by decide
  simp [push, outside, Text.allBlank, printed] at taken

end Builder

variable {before after : List Char} {root : Node}

/-- Where the builder has got to, a run of text is read and taken up to the next markup. -/
theorem exists_reads_run {chars w a x : List Char} {r : Reader} (reads : Reads (ofText chars) run r)
    (taken : Builder.start.takeAll run = .ok b) (ahead : r.Ahead (w ++ x)) (ends : EndsText x)
    (free : ∀ c ∈ w, c ≠ '<') (decoded : decode w = .ok a) (pushed : b.push a = .ok b') :
    ∃ run' r', Reads (ofText chars) run' r' ∧ Builder.start.takeAll run' = .ok b' ∧ r'.Ahead x ∧
      r'.opened = r.opened := by
  obtain ⟨later, r', reads', events, ahead', opened⟩ := exists_reads_text ahead free ends
  refine ⟨run ++ later, r', reads.append reads', ?_, ahead', opened⟩
  rw [Builder.takeAll_append_eq_ok_iff]
  exact ⟨b, taken, (Builder.takeAll_textEvents events).mpr ⟨a, decoded, pushed⟩⟩

/-- Text in the place of a data section is read as one run with the text on both sides, and leads to
the same place. -/
theorem exists_reads_escape (reads : ReadsAs before (dataWritten s) after (.data s))
    (h : build Builder.start (ofText (before ++ (dataWritten s ++ after))) = .ok root) :
    ∃ run r, Reads (ofText (before ++ (escape s ++ after))) run r ∧
      ∃ b, Builder.start.takeAll run = .ok b ∧ build b r = .ok root := by
  obtain ⟨run, r, r₁, reads, ahead, next, behind⟩ := reads
  obtain ⟨front, u, es, rfl, free, events, first, again⟩ := exists_reads_behind reads ahead rfl
  obtain ⟨v, x, rfl, free', ends⟩ := Reader.exists_free_append after
  obtain ⟨later, r₂, reads', events', ahead', opened'⟩ := exists_reads_text behind free' ends
  -- What the section and the text on both sides of it do to the builder.
  obtain ⟨earlier, text, rfl, sameEarlier, sameText⟩ := List.map_eq_append_iff.mp events
  obtain ⟨b, taken, built⟩ := (build_eq_ok_iff_of_reads (reads.append (.cons next reads'))).mp h
  rw [List.append_assoc] at taken
  obtain ⟨b₀, takenEarlier, takenRun⟩ := Builder.takeAll_append_eq_ok_iff.mp taken
  obtain ⟨a, decoded, pushed⟩ := Builder.takeAll_joined sameText events' takenRun
  -- With nothing in front of it the run begins outside of all elements.
  have unmarked : front = [] → (u ++ (escape s ++ v) ++ x).head? ≠ some '\uFEFF' := by
    intro none
    obtain rfl : earlier = [] := by rw [← List.map_eq_nil_iff, sameEarlier, first none]
    cases takenEarlier
    exact head_append_ne (fun _ => Builder.head_ne_mark rfl decoded pushed)
      fun _ mark => absurd (ends _ mark) (by decide)
  obtain ⟨earlier₂, r₃, reads₃, events₃, ahead₃⟩ := again _ unmarked
  have freeRun : ∀ c ∈ u ++ (escape s ++ v), c ≠ '<' := by
    simp only [List.forall_mem_append]
    exact ⟨free, fun c => ne_of_mem_escape, free'⟩
  have takenEarlier₂ : Builder.start.takeAll earlier₂ = .ok b₀ :=
    (Builder.takeAll_same_iff (events₃.trans sameEarlier.symm)).mp takenEarlier
  obtain ⟨run₂, r₄, reads₄, taken₄, ahead₄, opened₄⟩ :=
    exists_reads_run reads₃ takenEarlier₂ ahead₃ ends freeRun decoded pushed
  -- Neither text nor data opens or closes an element.
  have opened : r₄.opened = r₂.opened := by
    rw [opened₄, opened', reads₃.opened_eq_foldl, (Reader.keeps_next next).1,
      reads.opened_eq_foldl, events, events₃, List.foldl_append, foldl_nest_textEvents]
    rfl
  refine ⟨run₂, r₄, ?_, b, taken₄, build_eq_ok_of_ahead ahead' ahead₄ opened built⟩
  simpa using reads₄

/-- **A data section may be written as text in which `&`, `<` and `>` are named**, wherever the
reader finds it: what was a document is one, and it writes the same tree. -/
theorem parse_escape {before s after : String}
    (reads : ReadsAs before.toList (dataWritten s.toList) after.toList (.data s.toList))
    (h : parse (before ++ String.ofList (dataWritten s.toList) ++ after) .plain = .ok root) :
    parse (before ++ String.ofList (escape s.toList) ++ after) .plain = .ok root := by
  have text (w : List Char) : (before ++ String.ofList w ++ after).toList =
      before.toList ++ (w ++ after.toList) := by simp
  have built : build Builder.start
      (ofText (before.toList ++ (dataWritten s.toList ++ after.toList))) = .ok root := text _ ▸ h
  obtain ⟨run, r, reads', place⟩ := exists_reads_escape reads built
  rw [← text] at reads'
  exact (parse_eq_ok_iff_of_reads reads').mpr place

/-- Between two runs of text, with characters that need names. -/
theorem parse_escape_between :
    parse ("<r>a &lt;" ++ "<![CDATA[ b & <c> ]]>" ++ " d<e/></r>") .plain =
        .ok ⟨"r", [⟨"e", [], none⟩], some "a < b & <c> d"⟩ ∧
      parse ("<r>a &lt;" ++ " b &amp; &lt;c&gt; " ++ " d<e/></r>") .plain =
        .ok ⟨"r", [⟨"e", [], none⟩], some "a < b & <c> d"⟩ := by
  have reads : ReadsAs "<r>a &lt;".toList (dataWritten " b & <c> ".toList) " d<e/></r>".toList
      (.data " b & <c> ".toList) :=
    ⟨_, _, _, .cons rfl (.cons rfl (.nil _)), .inl rfl, rfl, rfl⟩
  have written : parse ("<r>a &lt;" ++ "<![CDATA[ b & <c> ]]>" ++ " d<e/></r>") .plain =
      .ok ⟨"r", [⟨"e", [], none⟩], some "a < b & <c> d"⟩ := by cbv
  have data : "<![CDATA[ b & <c> ]]>" = String.ofList (dataWritten " b & <c> ".toList) := by decide
  have named : " b &amp; &lt;c&gt; " = String.ofList (escape " b & <c> ".toList) := by decide
  refine ⟨written, ?_⟩
  rw [data] at written
  rw [named]
  exact parse_escape reads written

end Document

end TreeQuery

import TreeQuery.Proofs.Document.Unfinished
import TreeQuery.Proofs.Document.Enclosing
import TreeQuery.Proofs.Markup.EndTag

/-!
# A line feed at the end of a document

The line feed that a document ends with may be missing (`parse_of_feed`).  It is the end of a blank
run behind the root element, or it stands among the gaps behind the name in an end tag that has no
`>`; nothing else that takes the end of a text with it ends with a line feed.
-/

namespace TreeQuery

open Markup (Event Reader isGap closingName decode BeginsPlain cutOff?)
open Markup.Reader (ofText Reads Takes)

namespace Document

variable {r r₂ r' : Reader} {b b' : Builder} {x : List Char} {e : Event} {root : Node}
  {position : Nat}

theorem finish_eq_ok_iff : b.finish = .ok root ↔ b = ⟨[], some root⟩ := by
  obtain ⟨frames, root'⟩ := b
  cases frames <;> cases root' <;> simp [Builder.finish]

/-- Where a line feed is left something is left to read. -/
theorem ne_finished_of_feed (ahead : r.Ahead (x ++ ['\n'])) : r.next ≠ .finished := by
  intro ends
  rcases Reader.begins_cases (x ++ ['\n']) with
    nothing | ⟨s, text⟩ | ⟨u, z, split, nonempty, free, last⟩
  · simp at nothing
  · -- A single `<` would be left, which is no line feed.
    rw [text] at ahead
    obtain rfl := Reader.eq_nil_of_finished ahead ends
    simpa using congrArg List.getLast? text
  · obtain ⟨r₁, next, -⟩ := Reader.yields_text (split ▸ ahead) nonempty free last
    cases ends.symm.trans next

/-- A last run of text is blank, and stays so without its line feed. -/
theorem build_of_last_text (ahead : r.Ahead x) (free : ∀ c ∈ x, c ≠ '<')
    (taken : b.take position (.text (x ++ ['\n'])) = .ok ⟨[], some root⟩) :
    build b r = .ok root := by
  cases decoded : decode (x ++ ['\n']) with
  | error fault => simp [Builder.take, decoded] at taken
  | ok w =>
    simp only [Builder.take, decoded] at taken
    obtain ⟨rfl, blank⟩ := Builder.eq_of_push (.inr rfl) taken
    obtain ⟨a, decoded', rfl⟩ := Markup.exists_of_decode_concat (by decide) decoded
    have blank' : Text.allBlank a = true := by
      rw [Text.allBlank, List.all_append, Bool.and_eq_true] at blank
      exact blank.1
    obtain ⟨run, r', reads, events, behind, -⟩ :=
      Markup.exists_reads_text (x := []) (by rwa [List.append_nil]) free Reader.endsText_nil
    have kept : Builder.takeAll ⟨[], some root⟩ run = .ok ⟨[], some root⟩ :=
      (Builder.takeAll_textEvents events).mpr ⟨a, decoded', if_pos blank'⟩
    rw [build_of_reads reads, kept]
    exact build_of_finished _ (Reader.next_eq_finished behind)

/-- An end tag at the end of a text is read without its last gap. -/
theorem yields_of_last_endTag {s : List Char} (rest : r.rest = '/' :: (s ++ ['\n']))
    (free : '>' ∉ s ++ ['\n']) (gapless : ∀ name ∈ r.opened, ∀ c ∈ name, isGap c = false)
    (reads : r.endTag = .event e r') (rest₂ : r₂.rest = '/' :: s) (opened : r₂.opened = r.opened) :
    ∃ r₂', r₂.endTag = .event e r₂' ∧ r₂'.Ahead [] := by
  have free₂ : '>' ∉ s := fun inside => free (List.mem_append_left _ inside)
  obtain ⟨expected, outer, names, same, rfl⟩ := (Reader.exists_endTag_iff rest).mp ⟨r', reads⟩
  rw [Markup.closingName_of_free free] at same
  have same₂ : Markup.endName (closingName s) = expected := by
    rw [Markup.closingName_of_free free₂]
    exact Markup.endName_of_concat (gapless expected (names ▸ List.mem_cons_self)) rfl same
  obtain ⟨r₂', reads₂⟩ :=
    (Reader.exists_endTag_iff rest₂).mpr ⟨expected, outer, opened.trans names, same₂, rfl⟩
  obtain ⟨_, cut, outside, behind, -⟩ := Reader.judges_endTag reads₂
  cases cut
  refine ⟨r₂', reads₂, ?_⟩
  have unended : '>' ∉ '/' :: s := List.not_mem_cons_of_ne_of_not_mem (by decide) free₂
  rw [rest₂, Markup.plain_of_free unended] at behind
  have ahead := Reader.ahead_rest outside
  rwa [behind] at ahead

/-- Nothing else than an end tag ends with the line feed that a text ends with. -/
theorem yields_of_last_construct {s : List Char} (rest : r.rest = s ++ ['\n'])
    (gapless : ∀ name ∈ r.opened, ∀ c ∈ name, isGap c = false) (reads : r.construct = .event e r')
    (ends : r'.rest = []) (rest₂ : r₂.rest = s) (opened : r₂.opened = r.opened) :
    ∃ r₂', r₂.construct = .event e r₂' ∧ r₂'.Ahead [] := by
  -- The construct is not over at a `>`, so it is an end tag or an instruction.
  have unfinished : cutOff? r.rest = none := by
    cases found : cutOff? r.rest with
    | none => rfl
    | some cut =>
      obtain ⟨inner, whole⟩ := Markup.exists_of_cutOff found
      rw [← Reader.rest_of_cutOff reads found, ends, rest] at whole
      cases List.append_inj_right' whole rfl
  have begins := Reader.beginsPlain_of_construct reads unfinished
  have free := begins.free unfinished
  rcases begins with slash | question
  · obtain ⟨t, text⟩ := List.head?_eq_some_iff.mp slash
    obtain ⟨s, rfl, rfl⟩ : ∃ s', s = '/' :: s' ∧ t = s' ++ ['\n'] := by
      rcases s with _ | ⟨c, s⟩
      · cases rest.symm.trans text
      · obtain ⟨rfl, tail⟩ := List.cons.inj (rest.symm.trans text)
        exact ⟨s, rfl, tail.symm⟩
    rw [text, List.mem_cons, not_or] at free
    rw [Written.construct_endTag text] at reads
    rw [Written.construct_endTag rest₂]
    exact yields_of_last_endTag text free.2 gapless reads rest₂ opened
  · -- An instruction would end with a question mark.
    obtain ⟨t, text⟩ := List.head?_eq_some_iff.mp question
    rw [Written.construct_instruction text] at reads
    simp only [Reader.instruction, Markup.plain_of_free free] at reads
    split at reads
    · next last => simp [rest] at last
    · cases reads

/-- The last event is taken to the same end without the line feed. -/
theorem build_of_last (ahead : r.Ahead (x ++ ['\n'])) (ahead₂ : r₂.Ahead x)
    (opened : r₂.opened = r.opened)
    (gapless : ∀ name ∈ r.opened, ∀ c ∈ name, isGap c = false) (next : r.next = .event e r')
    (behind : r'.Ahead []) (taken : b.take r'.position e = .ok ⟨[], some root⟩) :
    build b r₂ = .ok root := by
  by_cases isText : ∃ t, e = .text t
  · obtain ⟨t, rfl⟩ := isText
    obtain ⟨z, split, nonempty, free, ends⟩ := Markup.exists_of_next_text ahead next
    rcases List.eq_nil_or_concat' z with rfl | ⟨z, c, rfl⟩
    swap
    · -- The run would not be the last event.
      rw [← List.append_assoc] at split
      obtain rfl : c = '\n' := (List.singleton_inj.mp (List.append_inj_right' split rfl)).symm
      rw [split, List.append_assoc] at ahead
      obtain ⟨r₁, next₁, behind₁⟩ := Reader.yields_text ahead nonempty free ends
      cases next.symm.trans next₁
      exact absurd (Reader.next_eq_finished behind) (ne_finished_of_feed behind₁)
    rw [List.append_nil] at split
    subst split
    exact build_of_last_text ahead₂ (fun c hc => free c (List.mem_append_left _ hc)) taken
  · have construct : ∀ s, e ≠ .text s := fun s eq => isText ⟨s, eq⟩
    obtain ⟨r₁, text, opened₁, reads⟩ := Reader.exists_construct ahead next construct
    have ends : [] = r'.rest := Reader.rest_of_ahead ahead next construct behind
    obtain ⟨s, rfl, rest⟩ : ∃ s, x = '<' :: s ∧ r₁.rest = s ++ ['\n'] := by
      rcases x with _ | ⟨c, s⟩
      · cases text
      · obtain ⟨rfl, rest⟩ := List.cons.inj text
        exact ⟨s, rfl, rest.symm⟩
    obtain ⟨r₃, next₂, rest₂, opened₂⟩ := Reader.next_of_ahead ahead₂
    obtain ⟨r₂', reads₂, behind₂⟩ := yields_of_last_construct rest (opened₁ ▸ gapless) reads
      ends.symm rest₂ (by rw [opened₁, opened₂, opened])
    have run : Reads r₂ [(r₂'.position, e)] r₂' := .cons (next₂.trans reads₂) (.nil r₂')
    rw [build_of_reads run, Builder.takeAll_singleton, Builder.take_at taken]
    exact build_of_finished _ (Reader.next_eq_finished behind₂)

/-- **What is built of a text is built without the line feed at its end.** -/
theorem build_of_feed (ahead : r.Ahead (x ++ ['\n'])) (ahead₂ : r₂.Ahead x)
    (opened : r₂.opened = r.opened)
    (gapless : ∀ name ∈ r.opened, ∀ c ∈ name, isGap c = false)
    (built : build b r = .ok root) : build b r₂ = .ok root := by
  fun_induction build b r generalizing r₂ x with
  | case1 b r ends => exact absurd ends (ne_finished_of_feed ahead)
  | case2 b r position cause stops => cases built
  | case3 b r e r' next b' taken ih =>
    obtain ⟨u, z, split, takes⟩ := Reader.takes_of_next ahead next
    rcases List.eq_nil_or_concat' z with rfl | ⟨z, c, rfl⟩
    · have ended := Reader.next_eq_finished takes.ahead
      rw [build_of_finished b' ended, finish_eq_ok_iff] at built
      exact build_of_last ahead ahead₂ opened gapless next takes.ahead (built ▸ taken)
    · rw [← List.append_assoc] at split
      obtain ⟨rfl, last⟩ := List.append_inj' split rfl
      obtain rfl : c = '\n' := (List.singleton_inj.mp last).symm
      have replaces : Reader.Replaces u (z ++ ['\n']) z := by
        refine ⟨fun ends d first => ends d ?_, fun empty => absurd empty (by simp)⟩
        rw [List.head?_append, first]
        rfl
      obtain ⟨run₂, r₂', reads₂, same, ahead₂'⟩ := takes.again opened ahead₂ replaces
      have alone : b.takeAll [(r'.position, e)] = .ok b' := by
        rw [Builder.takeAll_singleton, taken]
      have taken₂ : b.takeAll run₂ = .ok b' := Builder.takeAll_same alone (by simpa using same)
      have opened' : r₂'.opened = r'.opened := by
        rw [reads₂.opened_eq_foldl, same, (Reader.keeps_next next).1, opened]
        rfl
      have later := ih takes.ahead ahead₂' opened' (Reader.gapless_opened next gapless) built
      rw [build_of_reads reads₂, taken₂]
      exact later
  | case4 b r e r' next error taken => cases built

/-- **A document may lose the line feed at its end.** -/
theorem parse_of_feed {text text₂ : String} (ends : text.toList = text₂.toList ++ ['\n'])
    (parsed : parse text .plain = .ok root) : parse text₂ .plain = .ok root := by
  obtain ⟨y, ahead, ahead₂⟩ : ∃ y, (ofText text.toList).Ahead (y ++ ['\n']) ∧
      (ofText text₂.toList).Ahead y := by
    rw [ends]
    generalize text₂.toList = t
    by_cases mark : t.head? = some '\uFEFF'
    · obtain ⟨t, rfl⟩ := List.head?_eq_some_iff.mp mark
      exact ⟨t, Reader.ahead_ofText_mark _, Reader.ahead_ofText_mark t⟩
    · refine ⟨t, Reader.ahead_ofText ?_, Reader.ahead_ofText mark⟩
      exact Markup.head_append_ne (fun _ => mark) fun _ => by decide
  exact build_of_feed ahead ahead₂ rfl (fun _ mem => nomatch mem) parsed

end Document

end TreeQuery

import TreeQuery.Proofs.Markup.Ahead
import TreeQuery.Proofs.Written.Construct
import TreeQuery.Proofs.Written.Reference

/-!
# Reading written constructs

Every construct that was written is read as one event, whatever follows it (`yields_comment` to
`yields_endTag`).  An end tag asks for more than its own text: the element that it names must be the
innermost open one.
-/

namespace TreeQuery.Written

open Markup (Event Reader isGap leadingName endName)

variable {r : Reader} {s : List Char}

/-! ## What a construct begins with -/

theorem construct_declaration (h : r.rest = '!' :: s) : r.construct = r.declaration := by
  rw [Reader.construct, h]
  rfl

theorem construct_endTag (h : r.rest = '/' :: s) : r.construct = r.endTag := by
  rw [Reader.construct, h]
  rfl

theorem construct_instruction (h : r.rest = '?' :: s) : r.construct = r.instruction := by
  rw [Reader.construct, h]
  rfl

/-- Whether a tag begins as none of the other constructs does. -/
def BeginsTag (content : List Char) : Prop :=
  ∃ c u, content = c :: u ∧ c ≠ '!' ∧ c ≠ '/' ∧ c ≠ '?'

theorem construct_startTag {content : List Char} (begins : BeginsTag content)
    (h : r.rest = content ++ s) : r.construct = r.startTag := by
  obtain ⟨c, u, rfl, bang, slash, question⟩ := begins
  rw [List.cons_append] at h
  rw [Reader.construct, h]
  split
  · next eq => cases eq
  · next eq => exact absurd (List.cons.inj eq).1 bang
  · next eq => exact absurd (List.cons.inj eq).1 slash
  · next eq => exact absurd (List.cons.inj eq).1 question
  · rfl

theorem Tag.begins_append (t : Tag) (s : List Char) : BeginsTag (t.name ++ s) := by
  obtain ⟨c, u, name, kinds⟩ := t.exists_cons
  exact ⟨c, u ++ s, by rw [name, List.cons_append], kinds⟩

/-! ## Declarations and instructions -/

theorem yields_comment (c : Comment)
    (h : r.Ahead ('<' :: '!' :: '-' :: '-' :: (c.written ++ (['-', '-', '>'] ++ s)))) :
    r.Yields .silent s := by
  obtain ⟨r₁, next, rest, -⟩ := Reader.next_of_ahead h
  rw [Reader.Yields, next, construct_declaration rest, Reader.declaration, rest]
  change ∃ r', r₁.comment = _ ∧ _
  rw [Reader.comment, rest, comment_append]
  exact ⟨_, if_pos rfl, rfl⟩

theorem yields_data (d : Data)
    (h : r.Ahead ('<' :: (['!', '[', 'C', 'D', 'A', 'T', 'A', '['] ++
      (d.written ++ ([']', ']', '>'] ++ s))))) :
    r.Yields (.data d.written) s := by
  obtain ⟨r₁, next, rest, -⟩ := Reader.next_of_ahead h
  rw [Reader.Yields, next, construct_declaration rest, Reader.declaration, rest]
  change ∃ r', r₁.dataSection = _ ∧ _
  rw [Reader.dataSection, rest, dataSection_append]
  -- The two brackets at the end of what was cut off are no data.
  have content : ∀ head : List Char, (head ++ (d.written ++ [']', ']'])).take
      ((head ++ (d.written ++ [']', ']'])).length - 2) = head ++ d.written := by
    intro head
    rw [← List.append_assoc]
    refine List.take_left' ?_
    simp only [List.length_append, List.length_cons, List.length_nil]
    omega
  simp only [content]
  exact ⟨_, if_pos rfl, rfl⟩

/-- The space behind `DOCTYPE` alone would declare nothing. -/
theorem yields_doctype (d : Doctype)
    (h : r.Ahead ('<' :: (['!', 'D', 'O', 'C', 'T', 'Y', 'P', 'E', ' '] ++
      (d.written ++ '>' :: s)))) :
    r.Yields .silent s := by
  obtain ⟨r₁, next, rest, -⟩ := Reader.next_of_ahead h
  have cut := doctype_append (s := ['!', 'D', 'O', 'C', 'T', 'Y', 'P', 'E', ' '] ++ d.written)
    ⟨by simpa using d.free.1, by simpa using d.free.2⟩ s
  rw [List.append_assoc] at cut
  have declares : (' ' :: d.written).all isGap = false := by
    obtain ⟨c, hc, notGap⟩ := d.declares
    exact List.all_eq_false.mpr ⟨c, List.mem_cons_of_mem _ hc, by simp [notGap]⟩
  rw [Reader.Yields, next, construct_declaration rest, Reader.declaration, rest]
  change ∃ r', r₁.doctype = _ ∧ _
  rw [Reader.doctype, rest, cut]
  refine ⟨_, (if_neg ?_).trans (if_neg ?_), rfl⟩
  · simp [Markup.beginsWith]
  · change ¬ (' ' :: d.written).all isGap = true
    simp [declares]

theorem yields_instruction (i : Instruction)
    (h : r.Ahead ('<' :: '?' :: (i.written ++ '?' :: '>' :: s))) : r.Yields .silent s := by
  obtain ⟨r₁, next, rest, -⟩ := Reader.next_of_ahead h
  have cut : Markup.plain ('?' :: (i.written ++ '?' :: '>' :: s)) =
      (⟨'?' :: i.written ++ ['?'], s⟩, true) := by
    simpa using plain_append (s := '?' :: i.written ++ ['?']) (by simpa using i.free) s
  have long : 2 < ('?' :: i.written ++ ['?']).length := by
    have := List.length_pos_iff.mpr i.nonempty
    simp only [List.length_append, List.length_cons, List.length_nil]
    omega
  rw [Reader.Yields, next, construct_instruction rest, Reader.instruction, rest]
  simp only [cut, long, List.getLast?_concat]
  exact ⟨_, if_pos rfl, rfl⟩

/-! ## Tags -/

/-- **A start tag is read up to the `>` behind its closed content.** -/
theorem yields_opened {content : List Char} (begins : BeginsTag content) (closed : Closed content)
    (unslashed : content.getLast? ≠ some '/') (h : r.Ahead ('<' :: (content ++ '>' :: s))) :
    r.Yields (.opened (leadingName content)) s := by
  obtain ⟨r₁, next, rest, -⟩ := Reader.next_of_ahead h
  rw [Reader.Yields, next, construct_startTag begins rest, Reader.startTag, rest, tag_closed closed]
  simp only [beq_iff_eq, if_neg unslashed]
  exact ⟨_, rfl, rfl⟩

/-- The name of a start tag ends where its attributes begin. -/
theorem yields_startTag (t : Tag) (a : Attributes)
    (h : r.Ahead ('<' :: (t.name ++ (a.written ++ '>' :: s)))) :
    r.Yields (.opened t.name) s := by
  rw [← List.append_assoc] at h
  have last : (t.name ++ a.written).getLast? ≠ some '/' := by
    rw [List.getLast?_append]
    intro slash
    rcases Option.or_eq_some_iff.mp slash with h | ⟨-, h⟩
    · exact a.unslashed h
    · exact t.getLast_ne_slash h
  have reads := yields_opened (t.begins_append _) (t.closed.append a.closed) last h
  rwa [t.leadingName_append a.spaced] at reads

/-- **A tag that opens and closes an element is read up to the `>` behind its closed content.** -/
theorem yields_empty {content : List Char} (begins : BeginsTag content) (closed : Closed content)
    (h : r.Ahead ('<' :: (content ++ '/' :: '>' :: s))) :
    r.Yields (.empty (leadingName content)) s := by
  obtain ⟨r₁, next, rest, -⟩ := Reader.next_of_ahead h
  have slash : Closed ['/'] := .bare (by decide) (by decide) .nil
  have cut : Markup.tag? (content ++ '/' :: '>' :: s) = some ⟨content ++ ['/'], s⟩ := by
    simpa using tag_closed (closed.append slash) s
  rw [Reader.Yields, next, construct_startTag begins rest, Reader.startTag, rest, cut]
  simp only [beq_iff_eq, if_pos List.getLast?_concat, emptyName]
  exact ⟨_, rfl, rfl⟩

theorem yields_emptyTag (t : Tag) (a : Attributes)
    (h : r.Ahead ('<' :: (t.name ++ (a.written ++ '/' :: '>' :: s)))) :
    r.Yields (.empty t.name) s := by
  rw [← List.append_assoc] at h
  have reads := yields_empty (t.begins_append _) (t.closed.append a.closed) h
  rwa [t.leadingName_append a.spaced] at reads

/-- **An end tag is read if it names the innermost open element.** -/
theorem yields_closed {written : List Char} {outer : List (List Char)} (free : '>' ∉ written)
    (opened : r.opened = endName written :: outer)
    (h : r.Ahead ('<' :: '/' :: (written ++ '>' :: s))) :
    r.Yields (.closed (endName written)) s := by
  obtain ⟨r₁, next, rest, same⟩ := Reader.next_of_ahead h
  have cut : Markup.plain ('/' :: (written ++ '>' :: s)) = (⟨'/' :: written, s⟩, true) :=
    plain_append (s := '/' :: written) (by simpa using free) s
  rw [Reader.Yields, next, construct_endTag rest, Reader.endTag, rest]
  simp only [cut, same, opened, List.drop_succ_cons, List.drop_zero]
  exact ⟨_, if_pos (beq_self_eq_true _), rfl⟩

/-- A gap behind the name of an end tag is no part of it. -/
theorem yields_endTag (t : Tag) (g : Gap) {outer : List (List Char)}
    (opened : r.opened = t.name :: outer)
    (h : r.Ahead ('<' :: '/' :: (t.name ++ (g.written ++ '>' :: s)))) :
    r.Yields (.closed t.name) s := by
  rw [← List.append_assoc] at h
  -- Neither a name nor a gap has a `>`, so the first one is where the tag ends.
  have free : '>' ∉ t.name ++ g.written := by
    intro hc
    rcases List.mem_append.mp hc with hc | hc
    · exact (t.free '>' hc).2.2.1 rfl
    · exact absurd (g.gap '>' hc) (by decide)
  have name := t.endName_append g
  have reads := yields_closed free (opened.trans (by rw [name])) h
  rwa [name] at reads

end TreeQuery.Written

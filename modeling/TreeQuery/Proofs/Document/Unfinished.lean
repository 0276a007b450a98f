import Mathlib
import TreeQuery.Proofs.Document.Resuming

/-!
# Texts that end inside of markup

Each kind of construct has an end of its own, and a text may be over before it (`cutOff?` finds
none).  The reader refuses to go on there, except for end tags and instructions: these are cut off
at the end of the text as they are at a `>` (`again_plain`).  So a text that ends inside of markup
is a document exactly if it ends inside of an end tag or an instruction, and is a document with the
missing `>`; or if nothing at all follows its last `<`, which is passed over
(`parse_unfinished_iff`).
-/

namespace TreeQuery

open Markup
open Markup.Reader (ofText Reads Yields)

namespace Markup

variable {s t : List Char} {r r₂ r' : Reader} {e : Event}

/-- The construct that begins at a `<`, if it has its end: what stands behind the `<` tells the
kind.  Declarations of no known kind are taken to end as document types do. -/
def cutOff? (s : List Char) : Option Cut :=
  match s with
  | '!' :: '[' :: _ => dataSection? s
  | '!' :: '-' :: _ => comment? s
  | '!' :: _ => doctype? s
  | '/' :: _ => if (plain s).2 then some (plain s).1 else none
  | '?' :: _ => if (plain s).2 then some (plain s).1 else none
  | _ => tag? s

theorem cutOff?_startTag (begins : Written.BeginsTag s) : cutOff? s = tag? s := by
  obtain ⟨c, u, rfl, bang, slash, question⟩ := begins
  rw [cutOff?]
  · exact fun v eq => bang (List.cons.inj eq).1
  · exact fun v eq => bang (List.cons.inj eq).1
  · exact fun v eq => bang (List.cons.inj eq).1
  · exact fun v eq => slash (List.cons.inj eq).1
  · exact fun v eq => question (List.cons.inj eq).1

/-- Whether an end tag or an instruction begins behind a `<`. -/
def BeginsPlain (s : List Char) : Prop := s.head? = some '/' ∨ s.head? = some '?'

instance (s : List Char) : Decidable (BeginsPlain s) := inferInstanceAs (Decidable (_ ∨ _))

theorem plain_ended_iff (s : List Char) : (plain s).2 = true ↔ '>' ∈ s := by
  by_cases ended : '>' ∈ s
  · obtain ⟨inner, rest, rfl, free⟩ := List.eq_append_cons_of_mem ended
    simp [Written.plain_append free]
  · simp [plain_of_free ended, ended]

/-- End tags and instructions end at a `>`. -/
theorem BeginsPlain.free (begins : BeginsPlain s) (unfinished : cutOff? s = none) : '>' ∉ s := by
  intro ended
  have flag := (plain_ended_iff s).mpr ended
  rcases begins with slash | question
  · obtain ⟨t, rfl⟩ := List.head?_eq_some_iff.mp slash
    simp [cutOff?, flag] at unfinished
  · obtain ⟨t, rfl⟩ := List.head?_eq_some_iff.mp question
    simp [cutOff?, flag] at unfinished

/-- The end of a construct is a `>`. -/
theorem exists_of_cutOff {cut : Cut} (found : cutOff? s = some cut) :
    ∃ inner, s = inner ++ '>' :: cut.rest := by
  have ofPlain : ∀ {t : List Char}, (if (plain t).2 then some (plain t).1 else none) = some cut →
      ∃ inner, t = inner ++ '>' :: cut.rest := by
    intro t found
    obtain ⟨flag, found⟩ := Option.ite_none_right_eq_some.mp found
    obtain ⟨inner, rest, rfl, free⟩ := List.eq_append_cons_of_mem ((plain_ended_iff t).mp flag)
    rw [Written.plain_append free] at found
    cases found
    exact ⟨inner, rfl⟩
  unfold cutOff? at found
  split at found
  · exact (bounds_dataSection found).imp fun _ => And.left
  · exact (bounds_comment found).imp fun _ => And.left
  · exact (bounds_doctype found).imp fun _ => And.left
  · exact ofPlain found
  · exact ofPlain found
  · exact (bounds_tag found).imp fun _ => And.left

/-- A declaration is read up to its end. -/
theorem Reader.exists_cutOff_of_declaration (begins : r.rest = '!' :: s)
    (h : r.declaration = .event e r') :
    ∃ cut, cutOff? r.rest = some cut ∧ r'.rest = cut.rest := by
  rcases declaration_cases begins h with
    ⟨t, rfl, h⟩ | ⟨t, rfl, h⟩ | ⟨c, t, rfl, letter, h⟩
  · obtain ⟨cut, found, -, behind, -⟩ := judges_dataSection h
    rw [begins] at found ⊢
    exact ⟨cut, found, behind⟩
  · obtain ⟨cut, found, -, behind, -⟩ := judges_comment h
    rw [begins] at found ⊢
    exact ⟨cut, found, behind⟩
  · have kind : cutOff? r.rest = doctype? r.rest := by
      rw [begins, cutOff?]
      · rintro v ⟨⟩
        simp at letter
      · rintro v ⟨⟩
        simp at letter
    obtain ⟨cut, found, -, behind, -⟩ := judges_doctype h
    exact ⟨cut, kind.trans found, behind⟩

/-- **A construct that has its end is read up to it.** -/
theorem Reader.rest_of_cutOff {cut : Cut} (h : r.construct = .event e r')
    (found : cutOff? r.rest = some cut) : r'.rest = cut.rest := by
  rcases construct_cases h with ⟨s, begins, h⟩ | ⟨s, begins, h⟩ | ⟨s, begins, h⟩ | ⟨begins, h⟩
  · obtain ⟨_, found', behind⟩ := exists_cutOff_of_declaration begins h
    cases found.symm.trans found'
    exact behind
  · obtain ⟨_, found', -, behind, -⟩ := judges_endTag h
    rw [begins] at found found'
    cases (Option.ite_none_right_eq_some.mp found).2.symm.trans found'
    exact behind
  · obtain ⟨_, found', -, behind, -⟩ := judges_instruction h
    rw [begins] at found found'
    cases (Option.ite_none_right_eq_some.mp found).2.symm.trans found'
    exact behind
  · obtain ⟨_, found', -, behind, -⟩ := judges_startTag h
    cases found.symm.trans ((cutOff?_startTag begins).trans found')
    exact behind

/-- **Only end tags and instructions are read without their end.** -/
theorem Reader.beginsPlain_of_construct (h : r.construct = .event e r')
    (unfinished : cutOff? r.rest = none) : BeginsPlain r.rest := by
  rcases construct_cases h with ⟨s, begins, h⟩ | ⟨s, begins, -⟩ | ⟨s, begins, -⟩ | ⟨begins, h⟩
  · obtain ⟨cut, found, -⟩ := exists_cutOff_of_declaration begins h
    cases unfinished.symm.trans found
  · exact .inl (begins ▸ rfl)
  · exact .inr (begins ▸ rfl)
  · obtain ⟨cut, found, -⟩ := judges_startTag h
    cases (unfinished.symm.trans (cutOff?_startTag begins)).trans found

theorem Reader.eq_nil_of_finished (ahead : r.Ahead ('<' :: s)) (h : r.next = .finished) :
    s = [] := by
  obtain ⟨r₁, next, rest, -⟩ := next_of_ahead ahead
  exact rest ▸ rest_of_construct_eq_finished (next.symm.trans h)

/-- What reads up to a `>`, or up to the end, reads the same content again if the same elements are
open. -/
theorem again_of_judges {c : Char} {read : Reader → Reader.Step}
    (judges : Reader.Judges read fun s => some (plain s).1)
    (told : ∀ {r : Reader} {u}, r.rest = c :: u → r.construct = read r)
    (begins : s.head? = some c) (begins₂ : t.head? = some c)
    (content : (plain t).1.content = (plain s).1.content) (ahead : r.Ahead ('<' :: s))
    (ahead₂ : r₂.Ahead ('<' :: t)) (opened : r₂.opened = r.opened) (h : r.next = .event e r') :
    r'.Ahead (plain s).1.rest ∧ r₂.Yields e (plain t).1.rest := by
  obtain ⟨u, rfl⟩ := List.head?_eq_some_iff.mp begins
  obtain ⟨v, rfl⟩ := List.head?_eq_some_iff.mp begins₂
  obtain ⟨r₁, next₁, rest₁, opened₁⟩ := Reader.next_of_ahead ahead
  obtain ⟨r₃, next₃, rest₃, opened₃⟩ := Reader.next_of_ahead ahead₂
  rw [next₁, told rest₁] at h
  obtain ⟨_, found, outside, behind, again⟩ := judges h
  cases found
  have opened : r₃.opened = r₁.opened := by rw [opened₃, opened, opened₁]
  obtain ⟨r₂', reads, ahead'⟩ := again opened (x := (plain (c :: v)).1.rest)
    (by simp only [rest₁, rest₃, ← content])
  refine ⟨?_, r₂', next₃.trans ((told rest₃).trans reads), ahead'⟩
  rw [Reader.Ahead, if_neg (by simp [outside]), behind, rest₁]

/-- **An end tag or an instruction is read with and without its `>`** at the end of a text. -/
theorem again_plain (begins : BeginsPlain s) (same : t.head? = s.head?)
    (content : (plain t).1.content = (plain s).1.content) (ahead : r.Ahead ('<' :: s))
    (ahead₂ : r₂.Ahead ('<' :: t)) (opened : r₂.opened = r.opened) (h : r.next = .event e r') :
    r'.Ahead (plain s).1.rest ∧ r₂.Yields e (plain t).1.rest := by
  rcases begins with slash | question
  · exact again_of_judges Reader.judges_endTag Written.construct_endTag slash (same.trans slash)
      content ahead ahead₂ opened h
  · exact again_of_judges Reader.judges_instruction Written.construct_instruction question
      (same.trans question) content ahead ahead₂ opened h

end Markup

namespace Document

variable {before s t : String} {root : Node}

/-- With a `>` and without it, a text that ends with an end tag or an instruction writes the same
tree. -/
theorem parse_of_again {run : List (Nat × Event)} {r : Reader}
    (reads : Reads (ofText (before.toList ++ '<' :: s.toList)) run r)
    (ahead : r.Ahead ('<' :: s.toList)) (begins : BeginsPlain s.toList)
    (same : t.toList.head? = s.toList.head?)
    (content : (plain t.toList).1.content = (plain s.toList).1.content)
    (ends : (plain s.toList).1.rest = []) (ends₂ : (plain t.toList).1.rest = [])
    (h : parse (before ++ "<" ++ s) .plain = .ok root) :
    parse (before ++ "<" ++ t) .plain = .ok root := by
  have text (w : String) : (before ++ "<" ++ w).toList = before.toList ++ '<' :: w.toList := by
    simp
  obtain ⟨run₂, r₂, reads₂, events, ahead₂, opened⟩ :=
    exists_reads_again reads ahead (.inl rfl) (Reader.endsText_cons t.toList)
  rw [← text] at reads reads₂
  rcases next_of_parse h reads with finished | ⟨e, r', next⟩
  · rw [Reader.eq_nil_of_finished ahead finished] at begins
    exact absurd begins (by simp [BeginsPlain])
  obtain ⟨behind, r₂', next₂, behind₂⟩ := again_plain begins same content ahead ahead₂ opened next
  rw [ends] at behind
  rw [ends₂] at behind₂
  refine parse_of_agree (reads.append (.cons next (.nil r')))
    (reads₂.append (.cons next₂ (.nil r₂'))) behind behind₂ ?_ (fun b taken => ?_) h
  · rw [(Reader.keeps_next next₂).1, (Reader.keeps_next next).1, opened]
  · refine (Builder.takeAll_same_iff ?_).mp taken
    simp [events]

/-- At the end of a text an end tag or an instruction does not need its `>`. -/
theorem parse_ended_iff {run : List (Nat × Event)} {r : Reader}
    (reads : Reads (ofText (before.toList ++ '<' :: s.toList)) run r)
    (ahead : r.Ahead ('<' :: s.toList)) (begins : BeginsPlain s.toList) (free : '>' ∉ s.toList) :
    parse (before ++ "<" ++ s) .plain = .ok root ↔
      parse (before ++ "<" ++ s ++ ">") .plain = .ok root := by
  have ended : (s ++ ">").toList = s.toList ++ ['>'] := by simp
  have cut : plain s.toList = (⟨s.toList, []⟩, false) := plain_of_free free
  have cut₂ : plain (s ++ ">").toList = (⟨s.toList, []⟩, true) := by
    rw [ended, Written.plain_append free]
  have same : (s ++ ">").toList.head? = s.toList.head? := by
    rw [ended, List.head?_append]
    rcases begins with slash | question
    · rw [slash]
      rfl
    · rw [question]
      rfl
  have content : (plain (s ++ ">").toList).1.content = (plain s.toList).1.content := by
    rw [cut, cut₂]
  have rest : (plain s.toList).1.rest = [] := by rw [cut]
  have rest₂ : (plain (s ++ ">").toList).1.rest = [] := by rw [cut₂]
  have joined : before ++ "<" ++ s ++ ">" = before ++ "<" ++ (s ++ ">") := String.append_assoc ..
  rw [joined]
  constructor
  · exact parse_of_again reads ahead begins same content rest rest₂
  · obtain ⟨run₂, r₂, reads₂, -, ahead₂, -⟩ :=
      exists_reads_again reads ahead (.inl rfl) (Reader.endsText_cons (s ++ ">").toList)
    have begins₂ : BeginsPlain (s ++ ">").toList := by rwa [BeginsPlain, same]
    exact parse_of_again reads₂ ahead₂ begins₂ same.symm content.symm rest₂ rest

/-- A `<` at the very end of a text is passed over. -/
theorem parse_lone_iff {run : List (Nat × Event)} {r : Reader}
    (reads : Reads (ofText (before.toList ++ ['<'])) run r) (ahead : r.Ahead ['<']) :
    parse (before ++ "<") .plain = .ok root ↔ parse before .plain = .ok root := by
  obtain ⟨run₂, r₂, reads₂, events, ahead₂, -⟩ :=
    exists_reads_again reads ahead (.inl rfl) Reader.endsText_nil
  obtain ⟨r₁, next, rest, -⟩ := Reader.next_of_ahead ahead
  have finished : r.next = .finished := by rw [next, Reader.construct, rest]
  have text : (before ++ "<").toList = before.toList ++ ['<'] := by simp
  rw [← text] at reads
  rw [List.append_nil] at reads₂
  rw [parse_eq_ok_iff_of_reads reads, parse_eq_ok_iff_of_reads reads₂]
  -- There is nothing to read any more, so the builder finishes in both cases.
  simp only [build_of_finished _ finished, build_of_finished _ (Reader.next_eq_finished ahead₂),
    Builder.takeAll_same_iff events]

/-- **A text that ends inside of markup** is a document exactly if nothing but the `<` is there of
the markup, and what stands in front of it is a document; or if the text ends inside of an end tag
or an instruction, and is a document with a `>` behind it.  Both write the same tree. -/
theorem parse_unfinished_iff
    (stands : ∃ run r, Reads (ofText (before.toList ++ '<' :: s.toList)) run r ∧
      r.Ahead ('<' :: s.toList))
    (unfinished : cutOff? s.toList = none) :
    parse (before ++ "<" ++ s) .plain = .ok root ↔
      s = "" ∧ parse before .plain = .ok root ∨
        BeginsPlain s.toList ∧ parse (before ++ "<" ++ s ++ ">") .plain = .ok root := by
  obtain ⟨run, r, reads, ahead⟩ := stands
  have text : (before ++ "<" ++ s).toList = before.toList ++ '<' :: s.toList := by simp
  constructor
  · intro h
    rcases next_of_parse h (text ▸ reads) with finished | ⟨e, r', next⟩
    · obtain rfl := String.toList_eq_nil_iff.mp (Reader.eq_nil_of_finished ahead finished)
      rw [String.append_empty] at h
      exact .inl ⟨rfl, (parse_lone_iff reads ahead).mp h⟩
    · obtain ⟨r₁, next₁, rest, -⟩ := Reader.next_of_ahead ahead
      have begins : BeginsPlain s.toList :=
        rest ▸ Reader.beginsPlain_of_construct (next₁.symm.trans next) (rest ▸ unfinished)
      have free := begins.free unfinished
      exact .inr ⟨begins, (parse_ended_iff reads ahead begins free).mp h⟩
  · rintro (⟨rfl, h⟩ | ⟨begins, h⟩)
    · rw [String.append_empty]
      exact (parse_lone_iff reads ahead).mpr h
    · exact (parse_ended_iff reads ahead begins (begins.free unfinished)).mpr h

/-- The end tag of the root element without its `>`, and a comment that goes on to the end. -/
theorem parse_unfinished_iff_endTag_comment :
    parse ("<r>1" ++ "<" ++ "/r ") .plain = .ok ⟨"r", [], some "1"⟩ ∧
      ∀ root, parse ("<r/>" ++ "<" ++ "!-- ->") .plain ≠ .ok root := by
  have ended : parse ("<r>1" ++ "<" ++ "/r " ++ ">") .plain = .ok ⟨"r", [], some "1"⟩ := by cbv
  constructor
  · have stands : ∃ run r, Reads (ofText ("<r>1".toList ++ '<' :: "/r ".toList)) run r ∧
        r.Ahead ('<' :: "/r ".toList) := ⟨_, _, .cons rfl (.cons rfl (.nil _)), .inl rfl⟩
    exact (parse_unfinished_iff stands (by decide)).mpr (.inr ⟨.inl rfl, ended⟩)
  · intro root h
    have stands : ∃ run r, Reads (ofText ("<r/>".toList ++ '<' :: "!-- ->".toList)) run r ∧
        r.Ahead ('<' :: "!-- ->".toList) := ⟨_, _, .cons rfl (.nil _), rfl⟩
    rcases (parse_unfinished_iff stands (by decide)).mp h with ⟨empty, -⟩ | ⟨begins, -⟩
    · exact absurd empty (by decide)
    · exact absurd begins (by decide)

/-- So not every text that ends inside of markup is refused. -/
theorem not_unfinished_refused :
    ¬ ∀ before s : String, (∃ run r, Reads (ofText (before.toList ++ '<' :: s.toList)) run r ∧
      r.Ahead ('<' :: s.toList)) → s ≠ "" → cutOff? s.toList = none →
        ∃ error, parse (before ++ "<" ++ s) .plain = .error error := by
  intro refused
  have taken : parse ("<r>" ++ "<" ++ "/r") .plain = .ok ⟨"r", [], none⟩ := by cbv
  obtain ⟨error, refused⟩ := refused "<r>" "/r" ⟨_, _, .cons rfl (.nil _), rfl⟩ (by decide)
    (by decide)
  cases taken.symm.trans refused

end Document

end TreeQuery

import Mathlib.Data.List.DropRight
import TreeQuery.Proofs.Markup.Kind

/-!
# End tags

What an end tag is read as is told by its name, as it is written up to the `>`, and by the innermost
open element (`endTag_of_begins`).  Gaps at the end of the name do not count: as no open element has
a gap in its name (`gapless_of_next`), an end tag that is accepted has just this name without them
(`rdropWhile_of_endName`).
-/

namespace TreeQuery.Markup

variable {s w name content : List Char} {r r' : Reader} {e : Event}

/-- The name of an end tag, as it is written behind the `</`. -/
def closingName (s : List Char) : List Char := s.takeWhile (· != '>')

theorem closingName_of_free (free : '>' ∉ s) : closingName s = s :=
  List.takeWhile_eq_self_iff.mpr fun _ hc => bne_iff_ne.mpr fun eq => free (eq ▸ hc)

theorem isGap_of_mem_leadingName {c : Char} (h : c ∈ leadingName content) :
    isGap c = false := by
  simpa using List.mem_takeWhile_imp h

theorem endName_eq (w : List Char) :
    endName w = if (w.rdropWhile isGap).isEmpty then w else w.rdropWhile isGap := rfl

theorem rdropWhile_of_gapless (gapless : ∀ c ∈ name, isGap c = false) :
    name.rdropWhile isGap = name :=
  List.rdropWhile_eq_self_iff.mpr fun filled => by simp [gapless _ (List.getLast_mem filled)]

/-- A name without gaps is the whole name of its end tag. -/
theorem endName_of_gapless (gapless : ∀ c ∈ name, isGap c = false) : endName name = name := by
  rw [endName_eq, rdropWhile_of_gapless gapless]
  split <;> rfl

/-- A name without gaps is what is left of its end tag without the gaps at the end. -/
theorem rdropWhile_of_endName (gapless : ∀ c ∈ name, isGap c = false) (h : endName w = name) :
    w.rdropWhile isGap = name := by
  rw [endName_eq] at h
  split at h
  · next blank =>
    -- Nothing but gaps was written, and there are none in the name.
    have trimmed : w.rdropWhile isGap = [] := List.isEmpty_iff.mp blank
    subst h
    rcases w with _ | ⟨c, w⟩
    · exact trimmed
    · have gap := List.rdropWhile_eq_nil_iff.mp trimmed c List.mem_cons_self
      cases gap.symm.trans (gapless c List.mem_cons_self)
  · exact h

/-- **A name without gaps is read with gaps behind it**, if there is a name at all. -/
theorem endName_append_iff (gapless : ∀ c ∈ name, isGap c = false) {gaps : List Char}
    (gap : ∀ c ∈ gaps, isGap c = true) :
    endName (name ++ gaps) = name ↔ (name = [] → gaps = []) := by
  have trimmed : (name ++ gaps).rdropWhile isGap = name := by
    rw [List.rdropWhile, List.reverse_append, List.dropWhile_append_of_pos (by simpa using gap)]
    exact rdropWhile_of_gapless gapless
  rw [endName_eq, trimmed]
  cases name with
  | nil => simp
  | cons c w => simp

/-- An end tag that has a name without gaps has nothing but gaps behind it. -/
theorem exists_gaps_of_endName (gapless : ∀ c ∈ name, isGap c = false) (h : endName w = name) :
    ∃ gaps, w = name ++ gaps ∧ (∀ c ∈ gaps, isGap c = true) ∧ (name = [] → gaps = []) := by
  have whole := List.rdropWhile_append_rtakeWhile (p := isGap) (l := w)
  rw [rdropWhile_of_endName gapless h] at whole
  have gap : ∀ c ∈ w.rtakeWhile isGap, isGap c = true := fun c => List.mem_rtakeWhile_imp
  rw [← whole, endName_append_iff gapless gap] at h
  exact ⟨_, whole.symm, gap, h⟩

/-- The last gap behind a name may be missing. -/
theorem endName_of_concat (gapless : ∀ c ∈ name, isGap c = false) {c : Char} (gap : isGap c = true)
    (h : endName (w ++ [c]) = name) : endName w = name := by
  obtain ⟨gaps, split, gap', filled⟩ := exists_gaps_of_endName gapless h
  rcases List.eq_nil_or_concat' gaps with rfl | ⟨gaps, d, rfl⟩
  · -- The gap would belong to the name.
    rw [List.append_nil] at split
    have solid := gapless c (split ▸ List.mem_append_right w List.mem_cons_self)
    cases gap.symm.trans solid
  · rw [← List.append_assoc] at split
    obtain ⟨rfl, -⟩ := List.append_inj' split rfl
    have named : name ≠ [] := fun empty => by simpa using filled empty
    exact (endName_append_iff gapless fun c hc => gap' c (List.mem_append_left _ hc)).mpr
      fun empty => absurd empty named

theorem content_plain (s : List Char) : (plain s).1.content = s.takeWhile (· != '>') := by
  rw [plain]
  split
  · next passed =>
    have whole := List.takeWhile_append_dropWhile (p := (· != '>')) (l := s)
    rw [passed, List.append_nil] at whole
    exact whole.symm
  · rfl

namespace Reader

theorem content_of_begins {c : Char} (begins : r.rest = c :: s) (other : c ≠ '>') :
    (plain r.rest).1.content = c :: closingName s := by
  rw [content_plain, begins, List.takeWhile_cons_of_pos (by simpa using other)]
  rfl

/-- What an end tag is read as, by the innermost open element. -/
theorem endTag_of_begins (begins : r.rest = '/' :: s) :
    match r.opened with
    | [] => ∃ position, r.endTag = .fault position (.mismatchedEnd [] (closingName s))
    | expected :: _ =>
      if endName (closingName s) = expected then ∃ r', r.endTag = .event (.closed expected) r'
      else ∃ position,
        r.endTag = .fault position (.mismatchedEnd expected (endName (closingName s))) := by
  simp only [endTag, content_of_begins begins (by decide), List.drop_succ_cons, List.drop_zero]
  rcases r.opened with _ | ⟨expected, outer⟩
  · exact ⟨_, rfl⟩
  · by_cases same : endName (closingName s) = expected
    · simp [same]
    · simp [same]

/-- An end tag is read exactly if it has the name of the innermost open element. -/
theorem exists_endTag_iff (begins : r.rest = '/' :: s) :
    (∃ r', r.endTag = .event e r') ↔
      ∃ expected outer, r.opened = expected :: outer ∧ endName (closingName s) = expected ∧
        e = .closed expected := by
  have judged := endTag_of_begins begins
  rcases names : r.opened with _ | ⟨expected, outer⟩
  · rw [names] at judged
    obtain ⟨_, fault⟩ := judged
    simp [fault]
  · simp only [names] at judged
    split at judged
    · next same =>
      obtain ⟨_, event⟩ := judged
      simp [event, same, eq_comm]
    · next other =>
      obtain ⟨_, fault⟩ := judged
      refine iff_of_false (by simp [fault]) ?_
      rintro ⟨_, _, ⟨⟩, same, -⟩
      exact other same

/-- Every reader has some text ahead. -/
theorem exists_ahead (r : Reader) : ∃ y, r.Ahead y := by
  by_cases taken : r.inTag = true
  · exact ⟨'<' :: r.rest, by rw [Ahead, if_pos taken]; exact .inl rfl⟩
  · exact ⟨r.rest, by rw [Ahead, if_neg taken]⟩

theorem gapless_of_next (h : r.next = .event (.opened name) r') : ∀ c ∈ name, isGap c = false := by
  obtain ⟨y, ahead⟩ := r.exists_ahead
  obtain ⟨r₁, -, -, reads⟩ := exists_construct ahead h fun s other => by cases other
  obtain ⟨-, tag⟩ := startTag_of_construct reads (.inl ⟨name, rfl⟩)
  simp only [startTag] at tag
  split at tag
  · cases tag
  · split at tag
    · cases tag
    · cases tag
      exact fun c => isGap_of_mem_leadingName

/-- Names without gaps are all that a reader adds to those of the open elements. -/
theorem gapless_opened (h : r.next = .event e r')
    (gapless : ∀ name ∈ r.opened, ∀ c ∈ name, isGap c = false) :
    ∀ name ∈ r'.opened, ∀ c ∈ name, isGap c = false := by
  rw [(keeps_next h).1]
  cases e with
  | opened name => exact List.forall_mem_cons.mpr ⟨gapless_of_next h, gapless⟩
  | closed name => exact fun other mem => gapless other (List.mem_of_mem_tail mem)
  | _ => exact gapless

end Reader

end TreeQuery.Markup

import Mathlib.Data.List.Basic
import TreeQuery.Markup.Construct
import TreeQuery.Proofs.Text.Pieces

/-!
# Written constructs

What may stand between `<` and `>`, one structure for each kind of construct, with the conditions
under which it ends where it was written to end: a comment does not contain `-->`, a data section
does not contain `]]>`, and behind the name of a tag every quoted stretch is closed.

Behind each structure follows what is cut off where it was written.
-/

namespace TreeQuery.Written

open Markup (Cut isGap cutBy? tag? doctype? comment? dataSection? plain leadingName endName)

/-! ## Cutting by a state -/

section CutBy

variable {σ : Type} {next : σ → Char → Option σ} {state state' : σ} {c : Char}

theorem cutBy_cons (h : next state c = some state') (content s : List Char) :
    cutBy? next state content (c :: s) = cutBy? next state' (c :: content) s := by
  rw [cutBy?, h]

theorem cutBy_end (h : next state c = none) (content s : List Char) :
    cutBy? next state content (c :: s) = some ⟨content.reverse, s⟩ := by
  rw [cutBy?, h]

/-- Characters that keep the state are content. -/
theorem cutBy_append {s : List Char} (h : ∀ c ∈ s, next state c = some state)
    (content t : List Char) :
    cutBy? next state content (s ++ t) = cutBy? next state (s.reverse ++ content) t := by
  induction s generalizing content with
  | nil => rfl
  | cons c s ih =>
    rw [List.cons_append, cutBy_cons (h c List.mem_cons_self),
      ih (fun d hd => h d (List.mem_cons_of_mem c hd))]
    simp

end CutBy

/-! ## Quotes in tags -/

/-- Whether a character begins and ends a quoted stretch. -/
def IsQuote (c : Char) : Prop := c = '"' ∨ c = '\''

instance (c : Char) : Decidable (IsQuote c) := inferInstanceAs (Decidable (_ ∨ _))

/-- A part of a tag in which every quoted stretch is closed and no `>` stands outside of one. -/
inductive Closed : List Char → Prop where
  | nil : Closed []
  | bare {c : Char} {s : List Char} : c ≠ '>' → ¬ IsQuote c → Closed s → Closed (c :: s)
  | quoted {q : Char} {inner s : List Char} :
    IsQuote q → q ∉ inner → Closed s → Closed (q :: (inner ++ q :: s))

namespace Closed

theorem of_bare {s : List Char} (h : ∀ c ∈ s, c ≠ '>' ∧ ¬ IsQuote c) : Closed s := by
  induction s with
  | nil => exact .nil
  | cons c s ih =>
    obtain ⟨h₁, h₂⟩ := h c List.mem_cons_self
    exact .bare h₁ h₂ (ih fun d hd => h d (List.mem_cons_of_mem c hd))

theorem append {s t : List Char} (hs : Closed s) (ht : Closed t) : Closed (s ++ t) := by
  induction hs with
  | nil => exact ht
  | bare h₁ h₂ _ ih => exact .bare h₁ h₂ ih
  | quoted hq hinner _ ih =>
    rw [List.cons_append, List.append_assoc, List.cons_append]
    exact .quoted hq hinner ih

/-- A last character that is no quote may be left out. -/
theorem of_concat {s : List Char} {c : Char} (bare : ¬ IsQuote c) (h : Closed (s ++ [c])) :
    Closed s := by
  generalize whole : s ++ [c] = t at h
  induction h generalizing s with
  | nil => cases List.append_ne_nil_of_right_ne_nil s (List.cons_ne_nil c []) whole
  | @bare d t h₁ h₂ _ ih =>
    rcases s with _ | ⟨e, s⟩
    · exact .nil
    · obtain ⟨rfl, tail⟩ := List.cons_eq_cons.mp whole
      exact .bare h₁ h₂ (ih tail)
  | @quoted q inner t hq free _ ih =>
    rcases s with _ | ⟨e, s⟩
    · obtain ⟨rfl, -⟩ := List.cons_eq_cons.mp whole
      exact absurd hq bare
    · obtain ⟨rfl, tail⟩ := List.cons_eq_cons.mp whole
      -- The quote that ends the stretch is not the last character.
      rcases List.eq_nil_or_concat' t with rfl | ⟨t, d, rfl⟩
      · obtain ⟨-, last⟩ := List.append_inj' tail rfl
        exact absurd (List.singleton_inj.mp last ▸ hq) bare
      · have split : s ++ [c] = (inner ++ e :: t) ++ [d] := tail.trans (by simp)
        obtain ⟨rfl, last⟩ := List.append_inj' split rfl
        exact .quoted hq free (ih (by rw [List.singleton_inj.mp last]))

end Closed

/-- What a character of a tag does to the quote that is open. -/
def quoteStep (quote : Option Char) (c : Char) : Option (Option Char) :=
  match quote with
  | none =>
    if c == '>' then none
    else some (if c == '"' || c == '\'' then some c else none)
  | some q => some (if c == q then none else some q)

theorem tag_eq_cutBy (s : List Char) : tag? s = cutBy? quoteStep none [] s := rfl

theorem quoteStep_bare {c : Char} (h₁ : c ≠ '>') (h₂ : ¬ IsQuote c) :
    quoteStep none c = some none := by
  rw [IsQuote, not_or] at h₂
  simp [quoteStep, h₁, h₂]

theorem quoteStep_begin {q : Char} (h : IsQuote q) : quoteStep none q = some (some q) := by
  rcases h with rfl | rfl <;> rfl

theorem quoteStep_end (q : Char) : quoteStep (some q) q = some none := by
  simp [quoteStep]

theorem quoteStep_inside {q c : Char} (h : c ≠ q) : quoteStep (some q) c = some (some q) := by
  simp [quoteStep, h]

theorem cutBy_closed {s : List Char} (h : Closed s) (content t : List Char) :
    cutBy? quoteStep none content (s ++ t) =
      cutBy? quoteStep none (s.reverse ++ content) t := by
  induction h generalizing content with
  | nil => rfl
  | bare h₁ h₂ _ ih =>
    rw [List.cons_append, cutBy_cons (quoteStep_bare h₁ h₂), ih]
    simp
  | @quoted q inner s hq hinner _ ih =>
    have inside : ∀ c ∈ inner, quoteStep (some q) c = some (some q) :=
      fun c hc => quoteStep_inside fun eq => hinner (eq ▸ hc)
    rw [List.cons_append, cutBy_cons (quoteStep_begin hq), List.append_assoc, cutBy_append inside,
      List.cons_append, cutBy_cons (quoteStep_end q), ih]
    simp

/-- **A tag ends behind its closed content.** -/
theorem tag_closed {s : List Char} (h : Closed s) (rest : List Char) :
    tag? (s ++ '>' :: rest) = some ⟨s, rest⟩ := by
  rw [tag_eq_cutBy, cutBy_closed h, cutBy_end rfl]
  simp

/-- What a tag is cut off to is closed.  Inside of quotes it goes on to where they end first. -/
theorem exists_closed_of_cutBy {quote : Option Char} {content s : List Char} {cut : Cut}
    (h : cutBy? quoteStep quote content s = some cut) :
    ∃ inner, s = inner ++ '>' :: cut.rest ∧ cut.content = content.reverse ++ inner ∧
      match quote with
      | none => Closed inner
      | some q => ∃ u v, inner = u ++ q :: v ∧ q ∉ u ∧ Closed v := by
  induction s generalizing quote content with
  | nil => cases h
  | cons c s ih =>
    cases quote with
    | none =>
      by_cases ends : c = '>'
      · subst ends
        rw [cutBy_end rfl] at h
        cases h
        exact ⟨[], rfl, by simp, .nil⟩
      · by_cases begins : IsQuote c
        · rw [cutBy_cons (quoteStep_begin begins)] at h
          obtain ⟨_, rfl, whole, u, v, rfl, free, closed⟩ := ih h
          exact ⟨c :: (u ++ c :: v), rfl, by simp [whole], .quoted begins free closed⟩
        · rw [cutBy_cons (quoteStep_bare ends begins)] at h
          obtain ⟨inner, rfl, whole, closed⟩ := ih h
          exact ⟨c :: inner, rfl, by simp [whole], .bare ends begins closed⟩
    | some q =>
      by_cases ends : c = q
      · subst ends
        rw [cutBy_cons (quoteStep_end c)] at h
        obtain ⟨inner, rfl, whole, closed⟩ := ih h
        exact ⟨c :: inner, rfl, by simp [whole], [], inner, rfl, List.not_mem_nil, closed⟩
      · rw [cutBy_cons (quoteStep_inside ends)] at h
        obtain ⟨_, rfl, whole, u, v, rfl, free, closed⟩ := ih h
        refine ⟨c :: (u ++ q :: v), rfl, by simp [whole], c :: u, v, rfl, ?_, closed⟩
        exact List.not_mem_cons_of_ne_of_not_mem (Ne.symm ends) free

/-- **A tag is cut off at the first `>` behind closed content**, and nowhere else. -/
theorem tag_eq_some_iff {s : List Char} {cut : Cut} :
    tag? s = some cut ↔ s = cut.content ++ '>' :: cut.rest ∧ Closed cut.content := by
  constructor
  · intro h
    obtain ⟨inner, whole, content, closed⟩ := exists_closed_of_cutBy (tag_eq_cutBy s ▸ h)
    rw [List.reverse_nil, List.nil_append] at content
    exact ⟨content ▸ whole, content ▸ closed⟩
  · rintro ⟨whole, closed⟩
    rw [whole, tag_closed closed]

/-! ## Names and attributes -/

/-- The name of an element. -/
structure Tag where
  name : List Char
  nonempty : name ≠ []
  free : ∀ c ∈ name, isGap c = false ∧ c ≠ '<' ∧ c ≠ '>' ∧ c ≠ '/' ∧ ¬ IsQuote c
  begins : name.head? ≠ some '!' ∧ name.head? ≠ some '?'

/-- In a tag without gaps the name takes the slash along, and it is taken off again. -/
theorem emptyName (content : List Char) :
    (if (leadingName (content ++ ['/'])).length < (content ++ ['/']).length
      then leadingName (content ++ ['/']) else (content ++ ['/']).dropLast) =
      leadingName content := by
  have slash : ['/'].takeWhile (fun c => !isGap c) = ['/'] := rfl
  have shorter := (List.takeWhile_prefix (fun c => !isGap c) (l := content)).length_le
  rw [leadingName, leadingName, List.takeWhile_append, slash]
  by_cases whole : (content.takeWhile fun c => !isGap c).length = content.length
  · rw [if_pos whole, if_neg (Nat.lt_irrefl _), List.dropLast_concat]
    exact ((List.takeWhile_prefix _).eq_of_length whole).symm
  · rw [if_neg whole, if_pos]
    rw [List.length_append, List.length_singleton]
    omega

/-- What stands behind the name in a start tag. -/
structure Attributes where
  written : List Char
  spaced : ∀ c, written.head? = some c → isGap c = true
  closed : Closed written
  unslashed : written.getLast? ≠ some '/'

/-- Blanks within markup. -/
structure Gap where
  written : List Char
  gap : ∀ c ∈ written, isGap c = true

namespace Tag

variable (t : Tag)

theorem closed : Closed t.name :=
  .of_bare fun c hc => ⟨(t.free c hc).2.2.1, (t.free c hc).2.2.2.2⟩

/-- The first character of a name tells a tag from every other construct. -/
theorem exists_cons : ∃ c s, t.name = c :: s ∧ c ≠ '!' ∧ c ≠ '/' ∧ c ≠ '?' := by
  obtain ⟨c, s, eq⟩ := List.exists_cons_of_ne_nil t.nonempty
  have begins := t.begins
  have slash := (t.free c (eq ▸ List.mem_cons_self)).2.2.2.1
  rw [eq] at begins
  exact ⟨c, s, eq, fun h => begins.1 (h ▸ rfl), slash, fun h => begins.2 (h ▸ rfl)⟩

theorem getLast_ne_slash : t.name.getLast? ≠ some '/' := by
  intro h
  exact (t.free '/' (List.mem_of_getLast? h)).2.2.2.1 rfl

theorem leadingName_name_append (s : List Char) :
    leadingName (t.name ++ s) = t.name ++ leadingName s := by
  have inside : ∀ c ∈ t.name, (!isGap c) = true := fun c hc => by rw [(t.free c hc).1]; rfl
  exact List.takeWhile_append_of_pos inside

/-- The name ends at the first gap behind it. -/
theorem leadingName_append {s : List Char} (h : ∀ c, s.head? = some c → isGap c = true) :
    leadingName (t.name ++ s) = t.name := by
  rw [leadingName_name_append, leadingName]
  cases s with
  | nil => simp
  | cons c s => simp [h c rfl]

/-- Gaps behind the name of an end tag do not count. -/
theorem endName_append (g : Gap) : endName (t.name ++ g.written) = t.name := by
  have trimmed : ((t.name ++ g.written).reverse.dropWhile isGap).reverse = t.name := by
    rw [List.reverse_append, List.dropWhile_append_of_pos
      (fun c hc => g.gap c (List.mem_reverse.mp hc))]
    obtain ⟨c, s, eq⟩ := List.exists_cons_of_ne_nil (mt List.reverse_eq_nil_iff.mp t.nonempty)
    have last : isGap c = false :=
      (t.free c (List.mem_reverse.mp (eq ▸ List.mem_cons_self))).1
    rw [eq, List.dropWhile_cons_of_neg (by simp [last]), ← eq, List.reverse_reverse]
  rw [endName, trimmed]
  simp [t.nonempty]

end Tag

/-! ## What the tree does not keep -/

/-- What stands between `<!--` and `-->`. -/
structure Comment where
  written : List Char
  inside : ¬ ['-', '-', '>'] <:+: written

/-- What stands between `<?` and `?>`. -/
structure Instruction where
  written : List Char
  nonempty : written ≠ []
  free : '>' ∉ written

/-- What stands between `<!DOCTYPE` with a space behind it and `>`. -/
structure Doctype where
  written : List Char
  declares : ∃ c ∈ written, isGap c = false
  free : '<' ∉ written ∧ '>' ∉ written

/-- What stands between `<![CDATA[` and `]]>`. -/
structure Data where
  written : List Char
  inside : ¬ [']', ']', '>'] <:+: written

/-- **A comment ends at the mark that was written.** -/
theorem comment_append (c : Comment) (rest : List Char) :
    comment? ('!' :: '-' :: '-' :: (c.written ++ (['-', '-', '>'] ++ rest))) =
      some ⟨'!' :: '-' :: '-' :: (c.written ++ ['-', '-']), rest⟩ := by
  have cut : Text.cutAt? ['-', '-', '>'] (c.written ++ (['-', '-', '>'] ++ rest)) =
      some (c.written, rest) :=
    Text.cutAt_append (m := ['-', '-']) (by decide) c.inside rest
  rw [comment?, List.drop_succ_cons, List.drop_succ_cons, List.drop_succ_cons, List.drop_zero, cut]
  rfl

/-- **A data section ends at the mark that was written.** -/
theorem dataSection_append (d : Data) (rest : List Char) :
    dataSection? (['!', '[', 'C', 'D', 'A', 'T', 'A', '['] ++
        (d.written ++ ([']', ']', '>'] ++ rest))) =
      some ⟨['!', '[', 'C', 'D', 'A', 'T', 'A', '['] ++ (d.written ++ [']', ']']), rest⟩ := by
  -- The mark does not begin in what stands before the data, which has no bracket of its kind.
  have cut : Text.cutAt? [']', ']', '>'] (['!', '[', 'C', 'D', 'A', 'T', 'A', '['] ++
      (d.written ++ ([']', ']', '>'] ++ rest))) =
      some (['!', '[', 'C', 'D', 'A', 'T', 'A', '['] ++ d.written, rest) :=
    Text.go_append (m := [']', ']']) (by decide) d.inside
      ['[', 'A', 'T', 'A', 'D', 'C', '[', '!'] rest
  rw [dataSection?, cut]
  simp

/-- An instruction or an end tag ends at the first `>`. -/
theorem plain_append {s : List Char} (h : '>' ∉ s) (rest : List Char) :
    plain (s ++ '>' :: rest) = (⟨s, rest⟩, true) := by
  have inside : ∀ c ∈ s, (c != '>') = true := fun c hc =>
    bne_iff_ne.mpr fun eq => h (eq ▸ hc)
  rw [plain, List.dropWhile_append_of_pos inside, List.takeWhile_append_of_pos inside]
  simp

/-- A declaration without brackets ends at the first `>`. -/
theorem doctype_append {s : List Char} (h : '<' ∉ s ∧ '>' ∉ s) (rest : List Char) :
    doctype? (s ++ '>' :: rest) = some ⟨s, rest⟩ := by
  rw [doctype?, cutBy_append, cutBy_end rfl]
  · simp
  · intro c hc
    have h₁ : c ≠ '<' := fun eq => h.1 (eq ▸ hc)
    have h₂ : c ≠ '>' := fun eq => h.2 (eq ▸ hc)
    simp [h₁, h₂]

end TreeQuery.Written

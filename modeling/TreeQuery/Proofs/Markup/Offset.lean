import TreeQuery.Proofs.Markup.Span
import TreeQuery.Proofs.Text.Bytes

/-!
# What has been read and what is left

A reader counts the bytes that it takes, so the bytes that were counted and those that are left are
together always the same number, the `Reader.total`.  Every event takes at least one byte, and a
fault is never placed behind the end of the text (`Reader.accounts_next`).  So a run of events is no
longer than what it takes (`Reader.Reads.length_le`).

The count rests on what a cut is: its content, the `>` behind it and the rest are the whole text
(`Whole`); an end tag and an instruction may lack the `>`, and then nothing is left
(`byteLength_plain`).
-/

namespace TreeQuery.Markup

open Text (byteLength)

/-! ## Nothing is lost by a cut -/

/-- Whether a construct is cut off with nothing lost but the `>` that ends it. -/
def Whole (cut? : List Char → Option Cut) : Prop :=
  ∀ {s cut}, cut? s = some cut → s = cut.content ++ '>' :: cut.rest

theorem exists_content_of_cutBy {σ : Type} {next : σ → Char → Option σ} {state : σ}
    {content s : List Char} {cut : Cut} (h : cutBy? next state content s = some cut) :
    ∃ c, content.reverse ++ s = cut.content ++ c :: cut.rest := by
  induction s generalizing state content with
  | nil => cases h
  | cons c s ih =>
    cases step : next state c with
    | none =>
      rw [Written.cutBy_end step] at h
      cases h
      exact ⟨c, rfl⟩
    | some state' =>
      rw [Written.cutBy_cons step] at h
      simpa using ih h

/-- A cut by states that ends at a `>` has all characters before it as its content. -/
theorem whole_cutBy {σ : Type} {next : σ → Char → Option σ} {state : σ}
    (bounds : Bounds (cutBy? next state [])) : Whole (cutBy? next state []) := by
  intro s cut h
  obtain ⟨c, all⟩ := exists_content_of_cutBy h
  obtain ⟨inner, ended, -⟩ := bounds h
  have same : cut.content ++ [c] ++ cut.rest = inner ++ ['>'] ++ cut.rest := by
    simpa using all.symm.trans ended
  obtain ⟨content, -⟩ := List.append_inj' (List.append_cancel_right same) rfl
  rw [content]
  exact ended

theorem whole_tag : Whole tag? := whole_cutBy bounds_tag

theorem whole_doctype : Whole doctype? := whole_cutBy bounds_doctype

theorem whole_dataSection : Whole dataSection? := by
  intro s cut h
  obtain ⟨⟨inner, rest⟩, found, rfl⟩ := Option.map_eq_some_iff.mp h
  obtain ⟨rfl, -⟩ := Text.cutAt_eq_some (by decide) found
  simp

theorem whole_comment : Whole comment? := by
  intro s cut h
  obtain ⟨⟨inner, rest⟩, found, rfl⟩ := Option.map_eq_some_iff.mp h
  obtain ⟨behind, -⟩ := Text.cutAt_eq_some (by decide) found
  calc
    s = s.take 3 ++ s.drop 3 := (List.take_append_drop 3 s).symm
    _ = s.take 3 ++ inner ++ ['-', '-'] ++ '>' :: rest := by rw [behind]; simp

/-- The end of the text may stand for the `>`. -/
theorem byteLength_plain (s : List Char) :
    byteLength (plain s).1.content + (if (plain s).2 then 1 else 0) +
      byteLength (plain s).1.rest = byteLength s := by
  by_cases ended : '>' ∈ s
  · obtain ⟨inner, rest, rfl, free⟩ := List.eq_append_cons_of_mem ended
    have single : Char.utf8Size '>' = 1 := rfl
    simp only [Written.plain_append free, Text.byteLength_append, Text.byteLength_cons, single,
      if_true, Nat.add_assoc]
  · simp [plain_of_free ended]

namespace Reader

variable {r r₁ r' : Reader} {e : Event} {cut : Cut}

/-- The bytes that were counted and those that are left. -/
def total (r : Reader) : Nat := r.offset + byteLength r.rest

theorem offset_le_total (r : Reader) : r.offset ≤ r.total := Nat.le_add_right _ _

/-- Whether reading goes on within a text: something is counted, and as much is taken. -/
structure Advances (r r' : Reader) : Prop where
  offset_lt : r.offset < r'.offset
  total_eq : r'.total = r.total

theorem Advances.offset_le_total (h : r.Advances r') : r'.offset ≤ r.total :=
  h.total_eq ▸ r'.offset_le_total

theorem Advances.rest_lt (h : r.Advances r') : byteLength r'.rest < byteLength r.rest := by
  have counted := h.offset_lt
  have taken := h.total_eq
  simp only [total] at taken
  omega

theorem advances_behind (whole : r.rest = cut.content ++ '>' :: cut.rest) :
    r.Advances (r.behind cut true) := by
  have single : Char.utf8Size '>' = 1 := rfl
  constructor
  · simp only [behind, if_true]
    omega
  · simp only [total, behind, whole, Text.byteLength_append, Text.byteLength_cons, single, if_true]
    omega

theorem advances_plain (nonempty : r.rest ≠ []) :
    r.Advances (r.behind (plain r.rest).1 (plain r.rest).2) := by
  have bytes := byteLength_plain r.rest
  have some := Text.byteLength_pos nonempty
  constructor
  · -- Without a `>` the content is the whole text.
    by_cases ended : '>' ∈ r.rest
    · obtain ⟨inner, rest, eq, free⟩ := List.eq_append_cons_of_mem ended
      simp only [behind, eq, Written.plain_append free, if_true]
      omega
    · simp only [behind, plain_of_free ended, Bool.false_eq_true, if_false]
      omega
  · simp only [total, behind]
    omega

/-- A run of text takes the `<` behind it along, if there is one. -/
theorem advances_text (nonempty : r.rest ≠ []) :
    r.Advances
      { r with
        rest := (r.rest.dropWhile (· != '<')).drop 1
        offset := r.offset + byteLength (r.rest.takeWhile (· != '<')) +
          (if (r.rest.dropWhile (· != '<')).isEmpty then 0 else 1)
        inTag := true } := by
  have some := Text.byteLength_pos nonempty
  have whole : byteLength (r.rest.takeWhile (· != '<')) +
      byteLength (r.rest.dropWhile (· != '<')) = byteLength r.rest := by
    rw [← Text.byteLength_append, List.takeWhile_append_dropWhile]
  have ends := endsText_dropWhile r.rest
  cases behind : r.rest.dropWhile (· != '<') with
  | nil =>
    rw [behind] at whole
    constructor <;> simp only [total, List.isEmpty_nil, List.drop_nil, if_true,
      Text.byteLength_nil] at whole ⊢ <;> omega
  | cons c t =>
    have single : Char.utf8Size '<' = 1 := rfl
    rw [behind] at whole ends
    rw [ends c rfl, Text.byteLength_cons, single] at whole
    constructor <;> simp only [total, List.isEmpty_cons, List.drop_succ_cons, List.drop_zero,
      Bool.false_eq_true, if_false] <;> omega

/-- Whether a step accounts for the text: an event takes some of it, and a fault lies within. -/
def Step.Accounts (r : Reader) : Step → Prop
  | .event _ r' => r.Advances r'
  | .fault position _ => position ≤ r.total
  | .finished => True

theorem Step.Accounts.of_counted {step : Step} (h : step.Accounts r₁) (counted : r.Advances r₁) :
    step.Accounts r := by
  cases step with
  | event e r' =>
    exact ⟨Nat.lt_trans counted.offset_lt h.offset_lt, h.total_eq.trans counted.total_eq⟩
  | fault position cause =>
    rw [Accounts, ← counted.total_eq]
    exact h
  | finished => trivial

/-! ## One event -/

theorem accounts_dataSection (r : Reader) : r.dataSection.Accounts r := by
  unfold dataSection
  split
  · exact r.offset_le_total
  · next cut found =>
    have behind := advances_behind (whole_dataSection found)
    dsimp only
    split
    · exact behind
    · exact behind.offset_le_total

theorem accounts_comment (r : Reader) : r.comment.Accounts r := by
  unfold comment
  split
  · exact r.offset_le_total
  · next cut found =>
    have behind := advances_behind (whole_comment found)
    dsimp only
    split
    · exact behind
    · exact behind.offset_le_total

theorem accounts_doctype (r : Reader) : r.doctype.Accounts r := by
  unfold doctype
  split
  · exact r.offset_le_total
  · next cut found =>
    have behind := advances_behind (whole_doctype found)
    dsimp only
    split
    · exact behind.offset_le_total
    · split
      · exact behind.offset_le_total
      · exact behind

theorem accounts_declaration (r : Reader) : r.declaration.Accounts r := by
  unfold declaration
  split
  · exact r.offset_le_total
  · exact r.accounts_dataSection
  · exact r.accounts_comment
  · split
    · exact r.accounts_doctype
    · exact r.offset_le_total

/-- The fault of an end tag is placed by stepping back over its content. -/
theorem accounts_endTag (nonempty : r.rest ≠ []) : r.endTag.Accounts r := by
  have behind := advances_plain nonempty
  have placed : (r.behind (plain r.rest).1 (plain r.rest).2).offset -
      byteLength (plain r.rest).1.content ≤ r.total :=
    Nat.le_trans (Nat.sub_le _ _) behind.offset_le_total
  unfold endTag
  dsimp only
  split
  · exact placed
  · split
    · exact ⟨behind.offset_lt, behind.total_eq⟩
    · exact placed

theorem accounts_instruction (nonempty : r.rest ≠ []) : r.instruction.Accounts r := by
  have behind := advances_plain nonempty
  unfold instruction
  dsimp only
  split
  · exact behind
  · exact Nat.le_trans (Nat.sub_le _ _) behind.offset_le_total

theorem accounts_startTag (r : Reader) : r.startTag.Accounts r := by
  unfold startTag
  split
  · exact r.offset_le_total
  · next cut found =>
    have behind := advances_behind (whole_tag found)
    dsimp only
    split
    · exact behind
    · exact ⟨behind.offset_lt, behind.total_eq⟩

theorem accounts_construct (r : Reader) : r.construct.Accounts r := by
  unfold construct
  split
  · trivial
  · exact r.accounts_declaration
  · next s begins => exact accounts_endTag (begins ▸ List.cons_ne_nil _ _)
  · next s begins => exact accounts_instruction (begins ▸ List.cons_ne_nil _ _)
  · exact r.accounts_startTag

/-- **Every event takes some of the text, and no fault lies behind its end.** -/
theorem accounts_next (r : Reader) : r.next.Accounts r := by
  unfold next
  split
  · exact r.accounts_construct
  · split
    · trivial
    · next s begins =>
      have single : Char.utf8Size '<' = 1 := rfl
      refine (accounts_construct _).of_counted ⟨Nat.lt_succ_self _, ?_⟩
      simp only [total, begins, Text.byteLength_cons, single]
      omega
    · next nonempty _ => exact advances_text nonempty

theorem advances_of_next (h : r.next = .event e r') : r.Advances r' := by
  have step := r.accounts_next
  rwa [h] at step

/-! ## Runs of events -/

/-- A run of events takes at least as many bytes as it has events. -/
theorem Reads.length_le {run : List (Nat × Event)} (h : Reads r run r') :
    run.length + byteLength r'.rest ≤ byteLength r.rest := by
  induction h with
  | nil r => simp
  | @cons r r₁ r' e run next later ih =>
    have taken := (advances_of_next next).rest_lt
    rw [List.length_cons]
    omega

theorem Reads.total_eq {run : List (Nat × Event)} (h : Reads r run r') : r'.total = r.total := by
  induction h with
  | nil r => rfl
  | cons next _ ih => exact ih.trans (advances_of_next next).total_eq

end Reader

end TreeQuery.Markup

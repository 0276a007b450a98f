import Mathlib.Data.List.Basic
import TreeQuery.Template.Grammar

/-!
# What the readers of tags leave

A reader takes a part from the beginning of a text and leaves the rest, so whatever occurs in what
it leaves occurs in the text (`LeavesEnd`).  There is one lemma for each reader of the grammar; the
readers of nested literals and of nested calls are treated together, by induction on their bound.
-/

namespace TreeQuery.Template

variable {α β : Type}

/-- Whether what a reader leaves is the end of what it was given. -/
def LeavesEnd (read : Reads α) : Prop := ∀ ⦃s a rest⦄, read s = some (a, rest) → rest <:+ s

/-- Something else may be made of what was read. -/
theorem LeavesEnd.map {read : Reads α} (h : LeavesEnd read)
    {f : α × List Char → β × List Char} (kept : ∀ a rest, (f (a, rest)).2 = rest)
    {s : List Char} {b : β} {rest : List Char} (made : (read s).map f = some (b, rest)) :
    rest <:+ s := by
  obtain ⟨⟨a, rest'⟩, found, same⟩ := Option.map_eq_some_iff.mp made
  obtain rfl : rest = rest' := by rw [← kept a rest', same]
  exact h found

theorem orElse_eq_some {x y : Option α} {a : α} (h : (x.orElse fun _ => y) = some a) :
    x = some a ∨ y = some a := by
  rw [Option.orElse_eq_or, Option.or_eq_some_iff] at h
  exact h.imp_right And.right

/-- Of two readers the second one may be tried. -/
theorem LeavesEnd.orElse {read read' : Reads α} (h : LeavesEnd read) (h' : LeavesEnd read') :
    LeavesEnd fun s => (read s).orElse fun _ => read' s := by
  intro s a rest found
  rcases orElse_eq_some found with first | second
  · exact h first
  · exact h' second

/-! ## Marks and names -/

theorem behind?_eq_some_iff {mark s rest : List Char} :
    behind? mark s = some rest ↔ s = mark ++ rest := by
  unfold behind?
  constructor
  · intro h
    split at h
    · next begins =>
      cases h
      exact (List.prefix_iff_eq_append.mp (List.isPrefixOf_iff_prefix.mp begins)).symm
    · cases h
  · rintro rfl
    rw [if_pos (List.isPrefixOf_iff_prefix.mpr (List.prefix_append mark rest)), List.drop_left]

theorem suffix_of_behind {mark s rest : List Char} (h : behind? mark s = some rest) :
    rest <:+ s := by
  rw [behind?_eq_some_iff.mp h]
  exact List.suffix_append mark rest

theorem skipGap_suffix (s : List Char) : skipGap s <:+ s := List.dropWhile_suffix _

theorem leavesEnd_identifier : LeavesEnd identifier? := by
  intro s a rest h
  unfold identifier? at h
  split at h
  · cases h
    exact List.dropWhile_suffix _
  · cases h

theorem leavesEnd_quotedNameRest : LeavesEnd quotedNameRest? := by
  intro s a rest h
  fun_induction quotedNameRest? s generalizing a rest with
  | case1 => cases h
  | case2 s ih =>
    obtain ⟨⟨name, rest'⟩, inner, same⟩ := Option.map_eq_some_iff.mp h
    cases same
    exact (ih inner).trans (List.suffix_append ['\\', '\''] s)
  | case3 s =>
    cases h
    exact List.suffix_cons _ _
  | case4 c s _ _ ih =>
    obtain ⟨⟨name, rest'⟩, inner, same⟩ := Option.map_eq_some_iff.mp h
    cases same
    exact (ih inner).trans (List.suffix_cons c s)

theorem leavesEnd_pieceName : LeavesEnd pieceName? := by
  intro s a rest h
  unfold pieceName? at h
  extract_lets inName at h
  split at h
  · cases h
    exact List.dropWhile_suffix _
  · split at h
    · next t _ =>
      split at h
      · cases h
      · exact (leavesEnd_quotedNameRest.map (fun _ _ => rfl) h).trans (List.suffix_cons _ t)
    · cases h

/-! ## Literals -/

theorem leavesEnd_quotedInner (quote : Char) (done : List Char) :
    LeavesEnd (quotedInner? quote done) := by
  intro s a rest h
  fun_induction quotedInner? quote done s with
  | case1 => cases h
  | case2 done a b c d s hex ih =>
    exact (ih h).trans (List.suffix_append ['\\', 'u', a, b, c, d] s)
  | case3 => cases h
  | case4 done e s _ escape ih => exact (ih h).trans (List.suffix_append ['\\', e] s)
  | case5 => cases h
  | case6 =>
    cases h
    exact List.suffix_cons _ _
  | case7 => cases h
  | case8 done c s _ _ _ _ ih => exact (ih h).trans (List.suffix_cons c s)

theorem leavesEnd_quotedLiteral : LeavesEnd quotedLiteral? := by
  intro s a rest h
  unfold quotedLiteral? at h
  split at h
  · next c t =>
    split at h
    · exact ((leavesEnd_quotedInner c []).map (fun _ _ => rfl) h).trans (List.suffix_cons c t)
    · cases h
  · cases h

theorem leavesEnd_numberLiteral : LeavesEnd numberLiteral? := by
  intro s a rest h
  unfold numberLiteral? at h
  split at h
  next sign s₁ signed =>
  have begins : s₁ <:+ s := by
    split at signed <;> cases signed
    · exact List.suffix_cons _ _
    · exact List.suffix_refl s
  extract_lets whole at h
  split at h
  · cases h
  split at h
  next fraction s₂ fractional =>
  have behind : s₂ <:+ s₁ := by
    split at fractional
    · next t point =>
      cases fractional
      have : t <:+ s₁ := (List.suffix_cons '.' t).trans (point ▸ List.dropWhile_suffix _)
      exact (List.dropWhile_suffix _).trans this
    · cases fractional
      exact List.dropWhile_suffix _
  split at h
  next exponent s₃ exponential =>
  have last : s₃ <:+ s₂ := by
    split at exponential
    · next t =>
      split at exponential
      next minus u signed' =>
      have : u <:+ t := by
        split at signed' <;> cases signed'
        · exact List.suffix_cons _ _
        · exact List.suffix_refl _
      split at exponential <;> cases exponential
      · exact List.suffix_refl _
      · exact (List.dropWhile_suffix _).trans (this.trans (List.suffix_cons _ _))
    · cases exponential
      exact List.suffix_refl _
  split at h <;> cases h
  exact last.trans (behind.trans begins)

theorem leavesEnd_wordLiteral (word : List Char) : LeavesEnd (wordLiteral? word) := by
  intro s a rest h
  obtain ⟨behind, found, h⟩ := Option.bind_eq_some_iff.mp h
  split at h <;> cases h
  exact suffix_of_behind found

/-! The readers of nested literals, each with what it needs to know about the readers inside. -/

section Nested

variable {depth : Nat}

theorem leavesEnd_literalText_succ (array : LeavesEnd (arrayRest? depth))
    (object : LeavesEnd (objectRest? depth)) : LeavesEnd (literalText? (depth + 1)) := by
  intro s a rest h
  unfold literalText? at h
  extract_lets bracketed at h
  have nested : ∀ x, bracketed = some x → x.2 <:+ s := by
    intro x found
    simp only [bracketed] at found
    split at found
    · next t => exact (array.map (fun _ _ => rfl) found).trans (List.suffix_cons _ t)
    · next t => exact (object.map (fun _ _ => rfl) found).trans (List.suffix_cons _ t)
    · cases found
  rcases orElse_eq_some h with h | h
  · exact leavesEnd_quotedLiteral h
  rcases orElse_eq_some h with h | h
  · exact nested _ h
  rcases orElse_eq_some h with h | h
  · exact leavesEnd_numberLiteral h
  rcases orElse_eq_some h with h | h
  · exact leavesEnd_wordLiteral _ h
  rcases orElse_eq_some h with h | h
  · exact leavesEnd_wordLiteral _ h
  · exact leavesEnd_wordLiteral _ h

theorem leavesEnd_arrayRest_succ (item : LeavesEnd (literalText? depth))
    (more : LeavesEnd (moreItems? depth)) : LeavesEnd (arrayRest? (depth + 1)) := by
  intro s a rest h
  unfold arrayRest? at h
  split at h
  · next found =>
    exact (more.map (fun _ _ => rfl) h).trans ((item found).trans (skipGap_suffix s))
  · exact more h

theorem leavesEnd_moreItems_succ (item : LeavesEnd (literalText? depth))
    (more : LeavesEnd (moreItems? depth)) : LeavesEnd (moreItems? (depth + 1)) := by
  intro s a rest h
  unfold moreItems? at h
  split at h
  · next t ends =>
    cases h
    exact (List.suffix_cons _ _).trans (ends ▸ skipGap_suffix s)
  · next t comma =>
    have behind : t <:+ s := (List.suffix_cons _ t).trans (comma ▸ skipGap_suffix s)
    split at h
    · next found =>
      have inside := (item found).trans ((skipGap_suffix t).trans behind)
      exact (more.map (fun _ _ => rfl) h).trans inside
    · cases h
  · cases h

theorem leavesEnd_objectRest_succ (member : LeavesEnd (member? depth))
    (more : LeavesEnd (moreMembers? depth)) : LeavesEnd (objectRest? (depth + 1)) := by
  intro s a rest h
  unfold objectRest? at h
  split at h
  · next found =>
    exact (more.map (fun _ _ => rfl) h).trans ((member found).trans (skipGap_suffix s))
  · exact more h

theorem leavesEnd_moreMembers_succ (member : LeavesEnd (member? depth))
    (more : LeavesEnd (moreMembers? depth)) : LeavesEnd (moreMembers? (depth + 1)) := by
  intro s a rest h
  unfold moreMembers? at h
  split at h
  · next t ends =>
    cases h
    exact (List.suffix_cons _ _).trans (ends ▸ skipGap_suffix s)
  · next t comma =>
    have behind : t <:+ s := (List.suffix_cons _ t).trans (comma ▸ skipGap_suffix s)
    split at h
    · next found =>
      have inside := (member found).trans ((skipGap_suffix t).trans behind)
      exact (more.map (fun _ _ => rfl) h).trans inside
    · cases h
  · cases h

theorem leavesEnd_member_succ (value : LeavesEnd (literalText? depth)) :
    LeavesEnd (member? (depth + 1)) := by
  intro s a rest h
  unfold member? at h
  split at h
  · next name rest' found =>
    split at h
    · next t colon =>
      have behind : t <:+ s := (List.suffix_cons _ t).trans
        ((colon ▸ skipGap_suffix rest').trans (leavesEnd_quotedLiteral found))
      exact (value.map (fun _ _ => rfl) h).trans ((skipGap_suffix t).trans behind)
    · cases h
  · cases h

end Nested

/-- All readers of nested literals, up to a bound on their nesting. -/
theorem leavesEnd_literal (depth : Nat) :
    LeavesEnd (literalText? depth) ∧ LeavesEnd (arrayRest? depth) ∧ LeavesEnd (moreItems? depth) ∧
      LeavesEnd (objectRest? depth) ∧ LeavesEnd (moreMembers? depth) ∧
      LeavesEnd (member? depth) := by
  induction depth with
  | zero => exact ⟨nofun, nofun, nofun, nofun, nofun, nofun⟩
  | succ depth ih =>
    obtain ⟨literal, array, items, object, members, member⟩ := ih
    exact ⟨leavesEnd_literalText_succ array object, leavesEnd_arrayRest_succ literal items,
      leavesEnd_moreItems_succ literal items, leavesEnd_objectRest_succ member members,
      leavesEnd_moreMembers_succ member members, leavesEnd_member_succ literal⟩

theorem leavesEnd_literalText (depth : Nat) : LeavesEnd (literalText? depth) :=
  (leavesEnd_literal depth).1

/-! ## References -/

theorem suffix_of_separator {s rest : List Char} (h : separator? s = some rest) : rest <:+ s := by
  unfold separator? at h
  split at h <;> cases h <;> exact List.suffix_cons _ _

theorem leavesEnd_segment : LeavesEnd segment? := by
  intro s a rest h
  unfold segment? at h
  extract_lets named at h
  split at h
  · next found =>
    cases h
    exact leavesEnd_identifier found
  · split at h
    · cases h
      exact List.suffix_append ['.', '/'] _
    · next t _ =>
      split at h
      · next closing =>
        cases h
        have : rest <:+ t := (List.suffix_cons _ rest).trans (closing ▸ List.dropWhile_suffix _)
        exact this.trans (List.suffix_cons _ t)
      · cases h
    · cases h

theorem moreSegments_suffix (steps : Nat) (s : List Char) : (moreSegments steps s).2 <:+ s := by
  induction steps generalizing s with
  | zero => exact List.suffix_refl s
  | succ steps ih =>
    unfold moreSegments
    split
    · exact List.suffix_refl s
    · next first rest found =>
      obtain ⟨behind, separated, found⟩ := Option.bind_eq_some_iff.mp found
      exact (ih rest).trans ((leavesEnd_segment found).trans (suffix_of_separator separated))

theorem upward_suffix (steps : Nat) (s : List Char) : (upward steps s).2 <:+ s := by
  induction steps generalizing s with
  | zero => exact List.suffix_refl s
  | succ steps ih =>
    unfold upward
    split
    · exact List.suffix_refl s
    · next rest found =>
      obtain ⟨behind, dots, separated⟩ := Option.bind_eq_some_iff.mp found
      exact (ih rest).trans ((suffix_of_separator separated).trans (suffix_of_behind dots))

theorem leavesEnd_segments : LeavesEnd segments? := by
  intro s a rest h
  unfold segments? at h
  extract_lets s₁ at h
  have begins : s₁ <:+ s := by
    simp only [s₁]
    cases found : ((behind? ['t', 'h', 'i', 's'] s).bind separator?).or (behind? ['.', '/'] s) with
    | none => exact List.suffix_refl s
    | some t =>
      rcases Option.or_eq_some_iff.mp found with this | ⟨-, dot⟩
      · obtain ⟨behind, word, separated⟩ := Option.bind_eq_some_iff.mp this
        exact (suffix_of_separator separated).trans (suffix_of_behind word)
      · exact suffix_of_behind dot
  split at h
  next root s₂ rooted =>
  have below : s₂ <:+ s₁ := by
    split at rooted
    · next t found =>
      cases rooted
      obtain ⟨behind, word, separated⟩ := Option.bind_eq_some_iff.mp found
      exact (suffix_of_separator separated).trans (suffix_of_behind word)
    · cases rooted
      exact List.suffix_refl _
  split at h
  next loop s₃ looped =>
  have inside : s₃ <:+ s₂ := by
    split at looped <;> cases looped
    · exact List.suffix_cons _ _
    · exact List.suffix_refl _
  split at h
  next ups s₄ up =>
  have above : s₄ <:+ s₃ := by
    have := upward_suffix s₃.length s₃
    rwa [up] at this
  obtain ⟨⟨first, s₅⟩, found, same⟩ := Option.map_eq_some_iff.mp h
  have last : rest <:+ s₅ := by
    have := moreSegments_suffix s₅.length s₅
    have left : (moreSegments s₅.length s₅).2 = rest := congrArg Prod.snd same
    rwa [left] at this
  exact last.trans ((leavesEnd_segment found).trans
    (above.trans (inside.trans (below.trans begins))))

theorem leavesEnd_reference : LeavesEnd reference? := fun _ _ _ h =>
  leavesEnd_segments.map (fun _ _ => rfl) h

/-! ## Terms and calls -/

section Nested

variable {depth : Nat}

theorem leavesEnd_argument_succ (call : LeavesEnd (parenthesised? depth)) :
    LeavesEnd (argument? (depth + 1)) := by
  intro s a rest h
  unfold argument? at h
  split at h
  · cases h
  · split at h
    · next text rest' found =>
      obtain ⟨v, -, same⟩ := Option.map_eq_some_iff.mp h
      cases same
      exact leavesEnd_literalText _ found
    · exact leavesEnd_reference.orElse call h

theorem leavesEnd_namedOrNot_succ (argument : LeavesEnd (argument? depth)) :
    LeavesEnd (namedOrNot? (depth + 1)) := by
  intro s a rest h
  unfold namedOrNot? at h
  extract_lets named at h
  rcases orElse_eq_some h with h | h
  · obtain ⟨⟨name, t⟩, first, h⟩ := Option.bind_eq_some_iff.mp h
    obtain ⟨u, equals, h⟩ := Option.bind_eq_some_iff.mp h
    obtain ⟨⟨value, v⟩, second, h⟩ := Option.bind_eq_some_iff.mp h
    cases h
    have value := (argument second).trans (skipGap_suffix u)
    exact value.trans ((suffix_of_behind equals).trans
      ((skipGap_suffix t).trans (leavesEnd_identifier first)))
  · exact argument.map (fun _ _ => rfl) h

theorem arguments_succ_suffix (argument : LeavesEnd (namedOrNot? depth))
    (more : ∀ s, (arguments depth s).2 <:+ s) (s : List Char) :
    (arguments (depth + 1) s).2 <:+ s := by
  unfold arguments
  split
  · exact List.suffix_refl s
  · next first rest found => exact (more rest).trans ((argument found).trans (skipGap_suffix s))

theorem leavesEnd_parenthesised_succ (more : ∀ s, (arguments depth s).2 <:+ s) :
    LeavesEnd (parenthesised? (depth + 1)) := by
  intro s a rest h
  unfold parenthesised? at h
  split at h
  · next t =>
    extract_lets t' withArguments inner at h
    have call : ∀ x, inner = some x → x.2 <:+ t' := by
      intro x found
      rcases orElse_eq_some found with found | found
      · simp only [withArguments] at found
        split at found
        · cases found
        · next name rest' first =>
          split at found
          · cases found
          · next args rest'' _ made =>
            cases found
            have := more rest'
            rw [made] at this
            exact this.trans (leavesEnd_identifier first)
      · exact leavesEnd_reference.map (fun _ _ => rfl) found
    obtain ⟨⟨term, rest'⟩, found, h⟩ := Option.bind_eq_some_iff.mp h
    dsimp only at h
    split at h
    · next closing =>
      cases h
      have : rest <:+ rest' := (List.suffix_cons _ rest).trans (closing ▸ skipGap_suffix rest')
      exact this.trans ((call _ found).trans ((skipGap_suffix t).trans (List.suffix_cons _ t)))
    · cases h
  · cases h

end Nested

/-- All readers of nested calls, up to a bound on their nesting. -/
theorem leavesEnd_call (depth : Nat) :
    LeavesEnd (argument? depth) ∧ LeavesEnd (namedOrNot? depth) ∧
      (∀ s, (arguments depth s).2 <:+ s) ∧ LeavesEnd (parenthesised? depth) := by
  induction depth with
  | zero => exact ⟨nofun, nofun, List.suffix_refl, nofun⟩
  | succ depth ih =>
    obtain ⟨argument, named, more, call⟩ := ih
    exact ⟨leavesEnd_argument_succ call, leavesEnd_namedOrNot_succ argument,
      arguments_succ_suffix named more, leavesEnd_parenthesised_succ more⟩

theorem suffix_of_arguments {depth : Nat} {s rest : List Char}
    {args : List (Option String × Term)} (h : arguments depth s = (args, rest)) : rest <:+ s := by
  have := (leavesEnd_call depth).2.2.1 s
  rwa [h] at this

theorem leavesEnd_head : LeavesEnd head? := fun s =>
  ((leavesEnd_call (bound s)).2.2.2.orElse leavesEnd_reference) (s := s)

theorem leavesEnd_expressionCall : LeavesEnd expressionCall? := by
  intro s a rest h
  unfold expressionCall? at h
  extract_lets withArguments at h
  rcases orElse_eq_some h with h | h
  · simp only [withArguments] at h
    split at h
    · cases h
    · next name rest' first =>
      split at h
      · cases h
      · next args rest'' _ made =>
        cases h
        exact (suffix_of_arguments made).trans (leavesEnd_identifier first)
  · exact leavesEnd_head.map (fun _ _ => rfl) h

theorem leavesEnd_blockNames : LeavesEnd blockNames? := by
  intro s a rest h
  unfold blockNames? at h
  obtain ⟨t, word, h⟩ := Option.bind_eq_some_iff.mp h
  obtain ⟨u, bar, h⟩ := Option.bind_eq_some_iff.mp h
  obtain ⟨⟨first, v⟩, named, h⟩ := Option.bind_eq_some_iff.mp h
  have begins : v <:+ s := (leavesEnd_identifier named).trans ((skipGap_suffix u).trans
    ((suffix_of_behind bar).trans ((skipGap_suffix t).trans (suffix_of_behind word))))
  dsimp only at h
  split at h
  · next second w found =>
    obtain ⟨x, closing, h⟩ := Option.bind_eq_some_iff.mp h
    cases h
    have behind : w <:+ v := (leavesEnd_identifier found).trans (skipGap_suffix v)
    exact (suffix_of_behind closing).trans ((skipGap_suffix w).trans (behind.trans begins))
  · obtain ⟨x, closing, h⟩ := Option.bind_eq_some_iff.mp h
    cases h
    exact (suffix_of_behind closing).trans ((skipGap_suffix v).trans begins)

theorem leavesEnd_blockCall : LeavesEnd blockCall? := by
  intro s a rest h
  obtain ⟨⟨name, t⟩, first, h⟩ := Option.map_eq_some_iff.mp h
  dsimp only at h
  rcases made : arguments (bound s) t with ⟨args, u⟩
  rw [made] at h
  have begins : u <:+ s := (suffix_of_arguments made).trans (leavesEnd_identifier first)
  cases named : blockNames? (skipGap u) with
  | none =>
    simp only [named] at h
    cases h
    exact begins
  | some x =>
    simp only [named] at h
    cases h
    exact (leavesEnd_blockNames named).trans ((skipGap_suffix u).trans begins)

theorem leavesEnd_insertionCall : LeavesEnd insertionCall? := by
  intro s a rest h
  unfold insertionCall? at h
  extract_lets name at h
  obtain ⟨⟨head, t⟩, found, h⟩ := Option.map_eq_some_iff.mp h
  have first : t <:+ s := by
    simp only [name] at found
    split at found
    · next piece =>
      cases found
      exact leavesEnd_pieceName piece
    · exact leavesEnd_head found
  dsimp only at h
  rcases made : arguments (bound s) t with ⟨args, u⟩
  rw [made] at h
  cases h
  exact (suffix_of_arguments made).trans first

end TreeQuery.Template

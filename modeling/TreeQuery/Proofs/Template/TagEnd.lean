import TreeQuery.Proofs.Template.Rest
import TreeQuery.Proofs.Text.Pieces
import TreeQuery.Template.Layout

/-!
# How tags end

All tags end with two closing braces (`Tag.Closed`), since their readers leave the end of what they
were given.  So a text without them begins with no tag, whatever may be open at that point
(`Layout.tag?_eq_none`).
-/

namespace TreeQuery.Template

variable {α β : Type}

namespace Tag

/-- Whether a reader needs two closing braces in its text. -/
def Closed (read : Reads α) : Prop := ∀ ⦃s x⦄, read s = some x → closing <:+: s

theorem Closed.orElse {read read' : Reads α} (h : Closed read) (h' : Closed read') :
    Closed fun s => (read s).orElse fun _ => read' s :=
  fun _ _ found => (orElse_eq_some found).elim (fun first => h first) fun second => h' second

theorem Closed.map {read : Reads α} (h : Closed read) {f : α × List Char → β × List Char} :
    Closed fun s => (read s).map f := fun _ _ made => by
  obtain ⟨x, found, -⟩ := Option.map_eq_some_iff.mp made
  exact h found

theorem leavesEnd_after {mark : List Char} {inner : Reads α} (h : LeavesEnd inner) :
    LeavesEnd (after? mark inner) := by
  intro s a rest found
  obtain ⟨t, behind, found⟩ := Option.bind_eq_some_iff.mp found
  exact (h found).trans ((skipGap_suffix t).trans (suffix_of_behind behind))

/-- Blanks behind a `~` are passed over, and without one nothing is. -/
theorem mark_suffix (s : List Char) :
    (match s with
      | '~' :: t => (true, skipGap t)
      | t => (false, t)).2 <:+ s := by
  split
  · next t => exact (skipGap_suffix t).trans (List.suffix_cons '~' t)
  · exact List.suffix_refl _

theorem closed_between {opening marks : List Char} {inner : Reads α} (h : LeavesEnd inner)
    (ends : closing <:+ marks) : Closed (between? opening marks inner) := by
  intro s x found
  obtain ⟨t, behind, found⟩ := Option.bind_eq_some_iff.mp found
  dsimp only at found
  obtain ⟨⟨value, u⟩, read, found⟩ := Option.bind_eq_some_iff.mp found
  obtain ⟨v, closed, -⟩ := Option.bind_eq_some_iff.mp found
  have begins : u <:+ s := (h read).trans ((mark_suffix (skipGap t)).trans
    ((skipGap_suffix t).trans (suffix_of_behind behind)))
  have last : marks ++ v <:+ s := by
    rw [← behind?_eq_some_iff.mp closed]
    exact (mark_suffix (skipGap u)).trans ((skipGap_suffix u).trans begins)
  exact (ends.isInfix.trans (List.prefix_append marks v).isInfix).trans last.isInfix

theorem closed_doubled {kind : α → Kind} {inner : Reads α} (h : LeavesEnd inner) :
    Closed (doubled? kind inner) := (closed_between h (List.suffix_refl closing)).map

theorem leavesEnd_otherwiseMark : LeavesEnd otherwiseMark? := by
  intro s a rest h
  obtain ⟨t, found, same⟩ := Option.map_eq_some_iff.mp h
  cases same
  rcases Option.or_eq_some_iff.mp found with word | ⟨-, caret⟩
  · exact suffix_of_behind word
  · exact suffix_of_behind caret

theorem closed_otherwise : Closed otherwise? := by
  refine (closed_doubled leavesEnd_otherwiseMark).orElse (closed_doubled ?_)
  intro s a rest h
  obtain ⟨⟨_, t⟩, mark, h⟩ := Option.bind_eq_some_iff.mp h
  exact (leavesEnd_blockCall h).trans ((skipGap_suffix t).trans (leavesEnd_otherwiseMark mark))

theorem closed_expression : Closed expression? := by
  intro s x h
  unfold expression? at h
  extract_lets plain at h
  rcases orElse_eq_some h with h | h
  · simp only [plain] at h
    split at h
    · cases h
    · exact closed_doubled leavesEnd_expressionCall h
  rcases orElse_eq_some h with h | h
  · exact (closed_between leavesEnd_expressionCall (List.suffix_cons '\x7d' closing)).map h
  rcases orElse_eq_some h with h | h
  · refine closed_doubled (leavesEnd_after ?_) h
    intro s a rest h
    obtain ⟨⟨call, t⟩, read, h⟩ := Option.bind_eq_some_iff.mp h
    obtain ⟨u, brace, h⟩ := Option.bind_eq_some_iff.mp h
    cases h
    exact (suffix_of_behind brace).trans ((skipGap_suffix t).trans (leavesEnd_expressionCall read))
  · refine closed_doubled (leavesEnd_after ?_) h
    exact fun s a rest h => leavesEnd_head.map (fun _ _ => rfl) h

theorem infix_of_cutAt {mark s before after : List Char} (nonempty : mark ≠ [])
    (h : Text.cutAt? mark s = some (before, after)) : mark <:+: s := by
  obtain ⟨rfl, -⟩ := Text.cutAt_eq_some nonempty h
  exact ⟨before, after, by simp⟩

theorem closed_comment : Closed comment? := by
  intro s x h
  obtain ⟨t, behind, h⟩ := Option.bind_eq_some_iff.mp h
  dsimp only at h
  obtain ⟨rest, found, -⟩ := Option.bind_eq_some_iff.mp h
  have begins : t <:+ s := suffix_of_behind behind
  rcases Option.or_eq_some_iff.mp found with dashed | ⟨-, plain⟩
  · obtain ⟨inner, dashes, cut⟩ := Option.bind_eq_some_iff.mp dashed
    obtain ⟨⟨before, after⟩, cut, -⟩ := Option.bind_eq_some_iff.mp cut
    have ends : closing <:+ '-' :: '-' :: closing := ⟨['-', '-'], rfl⟩
    have inner : inner <:+ s := (suffix_of_behind dashes).trans ((skipGap_suffix t).trans begins)
    exact ends.isInfix.trans ((infix_of_cutAt (by simp) cut).trans inner.isInfix)
  · obtain ⟨⟨before, after⟩, cut, -⟩ := Option.map_eq_some_iff.mp plain
    exact (infix_of_cutAt (by decide) cut).trans begins.isInfix

theorem closed_ofText : Closed ofText? := by
  have block := leavesEnd_blockCall
  have four : closing <:+ closing ++ closing := List.suffix_append closing closing
  exact closed_expression.orElse <| (closed_doubled (leavesEnd_after block)).orElse <|
    (closed_between block four).map.orElse <| closed_comment.orElse <|
    (closed_doubled (leavesEnd_after block)).orElse <|
    (closed_doubled (leavesEnd_after (leavesEnd_after block))).orElse <|
    (closed_doubled (leavesEnd_after leavesEnd_insertionCall)).orElse <|
    closed_doubled (leavesEnd_after (leavesEnd_after leavesEnd_insertionCall))

end Tag

theorem Layout.leavesEnd_closingName (l : Layout) : LeavesEnd l.closingName? := by
  intro s a rest h
  unfold closingName? at h
  extract_lets named at h
  have name : ∀ {read : Reads (List Char)}, LeavesEnd read → ∀ {x}, named read = some x →
      x.2 <:+ s := fun read _ found => read.map (fun _ _ => rfl) found
  split at h
  · rcases Option.or_eq_some_iff.mp h with h | ⟨-, h⟩
    · exact name leavesEnd_pieceName h
    · cases h
      exact List.suffix_refl _
  · rcases Option.or_eq_some_iff.mp h with h | ⟨-, h⟩
    · exact name leavesEnd_identifier h
    · cases h
      exact List.suffix_refl _
  · exact name leavesEnd_identifier h

/-- **Without two closing braces there is no tag.** -/
theorem Layout.tag?_eq_none (l : Layout) {s : List Char} (free : ¬ Tag.closing <:+: s) :
    l.tag? s = none := by
  have closed : Tag.Closed l.tag? := Tag.closed_ofText.orElse <| Tag.closed_otherwise.orElse <|
    Tag.closed_doubled (Tag.leavesEnd_after l.leavesEnd_closingName)
  exact Option.eq_none_iff_forall_ne_some.mpr fun _ found => free (closed found)

end TreeQuery.Template

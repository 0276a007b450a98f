import Mathlib
import TreeQuery.Proofs.Document.RootEnd

/-!
# Truncated documents

A document that is cut off before its root element has ended is no document, wherever the cut falls
(`parse_cut_eq_error`).  Cutting may turn a construct into another one: an end tag or an instruction
is read without its `>` at the end of a text.  But where the root element of a beginning ends, that
of the whole text ends too, with the same tag or at least at the same `<` (`RootEnd.extend`); and
there is only one such place.
-/

namespace TreeQuery.Document

open Markup (Event)

variable {document cut : String} {root root' : Node} {before tag after rest : List Char} {e : Event}

/-- A beginning of a document that is a document itself reaches into the tag with which the root
element ends, and over all of it unless that is an end tag. -/
theorem RootEnd.reached (h : parse document .plain = .ok root)
    (whole : document.toList = before ++ (tag ++ after)) (ends : RootEnd before tag after e)
    (begins : document.toList = cut.toList ++ rest) (hcut : parse cut .plain = .ok root') :
    (∃ name, e = .closed name) ∧ before.length + 2 ≤ cut.toList.length ∨
      before.length + tag.length ≤ cut.toList.length := by
  obtain ⟨b, t, a, e', split, ends'⟩ := exists_rootEnd hcut
  have longer : document.toList = b ++ (t ++ (a ++ rest)) := by rw [begins, split]; simp
  obtain ⟨sound, -⟩ := (parse_eq_ok_iff document root).mp h
  obtain ⟨tag', after', e'', text, ends'', kind⟩ := ends'.extend rest (longer ▸ sound)
  obtain ⟨rfl, rfl, -, rfl⟩ := ends.unique h whole (longer.trans (congrArg (b ++ ·) text)) ends''
  have length : cut.toList.length = before.length + (t.length + a.length) := by rw [split]; simp
  rcases kind with ⟨name, hclosed, name', closed⟩ | ⟨rfl, -⟩
  · rcases ends'.shape with ⟨_, u, -, rfl⟩ | ⟨_, u, other, -⟩
    · refine .inl ⟨⟨name', closed⟩, ?_⟩
      simp only [List.length_cons] at length
      omega
    · cases hclosed.symm.trans other
  · right
    omega

/-- So a beginning that is too short for that is refused. -/
theorem RootEnd.refused (h : parse document .plain = .ok root)
    (whole : document.toList = before ++ (tag ++ after)) (ends : RootEnd before tag after e)
    (begun : List Char) {missing : List Char} (split : tag = begun ++ missing)
    (nonempty : missing ≠ []) (short : ∀ name, e = .closed name → begun.length < 2)
    (begins : cut.toList <+: before ++ begun) : ∃ error, parse cut .plain = .error error := by
  cases made : parse cut .plain with
  | error error => exact ⟨error, rfl⟩
  | ok root' =>
    obtain ⟨w, rest⟩ := begins
    have le : cut.toList.length ≤ before.length + begun.length := by
      rw [← List.length_append, ← rest, List.length_append]
      exact Nat.le_add_right _ _
    have longer : document.toList = cut.toList ++ (w ++ (missing ++ after)) := by
      rw [← List.append_assoc, rest, whole, split]
      simp
    have length : tag.length = begun.length + missing.length := by rw [split, List.length_append]
    have := List.length_pos_iff.mpr nonempty
    rcases ends.reached h whole longer made with ⟨⟨name, closed⟩, far⟩ | far
    · have := short name closed
      omega
    · omega

/-- **A truncated document is no document.**  The root element of a document ends with one tag.  If
that is an end tag, every beginning of the document up to its `<` is refused; if the tag opens and
closes the root element, every beginning without its `>` is. -/
theorem parse_cut_eq_error (h : parse document .plain = .ok root) :
    ∃ before tag after e, document.toList = before ++ (tag ++ after) ∧ RootEnd before tag after e ∧
      (∀ before' tag' after' e', document.toList = before' ++ (tag' ++ after') →
        RootEnd before' tag' after' e' → before' = before ∧ tag' = tag ∧ after' = after ∧ e' = e) ∧
      ((∃ name u, e = .closed name ∧ tag = '<' :: '/' :: u ∧
          ∀ cut : String, cut.toList <+: before ++ ['<'] →
            ∃ error, parse cut .plain = .error error) ∨
        ∃ name u, e = .empty name ∧ tag = '<' :: (u ++ ['>']) ∧
          ∀ cut : String, cut.toList <+: before ++ '<' :: u →
            ∃ error, parse cut .plain = .error error) := by
  obtain ⟨before, tag, after, e, whole, ends⟩ := exists_rootEnd h
  refine ⟨before, tag, after, e, whole, ends, fun _ _ _ _ whole' ends' =>
    ends'.unique h whole' whole ends, ?_⟩
  rcases ends.shape with ⟨name, u, closed, written⟩ | ⟨name, u, empty, written⟩
  · refine .inl ⟨name, u, closed, written, fun cut begins => ?_⟩
    exact ends.refused h whole ['<'] written (List.cons_ne_nil '/' u)
      (fun _ _ => Nat.lt_succ_self 1) begins
  · refine .inr ⟨name, u, empty, written, fun cut begins => ?_⟩
    exact ends.refused h whole ('<' :: u) written (List.cons_ne_nil '>' [])
      (fun _ closed => by cases empty.symm.trans closed) begins

/-- A cut inside of an end tag that does not end the root element, behind the `<` of the one that
does, and in front of the `>` of a root element without content. -/
theorem parse_cut_eq_error_tags :
    parse "<r a='>'><b>1</b ></r>" .plain = .ok ⟨"r", [⟨"b", [], some "1"⟩], none⟩ ∧
      parse "<?x?><r a='>'/>" .plain = .ok ⟨"r", [], none⟩ ∧
      (∃ error, parse "<r a='>'><b>1</b" .plain = .error error) ∧
      (∃ error, parse "<r a='>'><b>1</b ><" .plain = .error error) ∧
      ∃ error, parse "<?x?><r a='>'/" .plain = .error error := by
  have nested : parse "<r a='>'><b>1</b ></r>" .plain = .ok ⟨"r", [⟨"b", [], some "1"⟩], none⟩ := by
    cbv
  have single : parse "<?x?><r a='>'/>" .plain = .ok ⟨"r", [], none⟩ := by cbv
  have ends : RootEnd "<r a='>'><b>1</b >".toList "</r>".toList [] (.closed ['r']) :=
    ⟨_, _, _, .cons rfl (.cons rfl (.cons rfl (.cons rfl (.nil _)))), rfl, rfl, rfl, _, rfl⟩
  have ends' : RootEnd "<?x?>".toList "<r a='>'/>".toList [] (.empty ['r']) :=
    ⟨_, _, _, .cons rfl (.nil _), rfl, rfl, rfl, _, rfl⟩
  obtain ⟨before, tag, after, e, -, -, only, cuts⟩ := parse_cut_eq_error nested
  obtain ⟨before', tag', after', e', -, -, only', cuts'⟩ := parse_cut_eq_error single
  obtain ⟨rfl, rfl, rfl, rfl⟩ := only _ _ _ _ (by decide) ends
  obtain ⟨rfl, rfl, rfl, rfl⟩ := only' _ _ _ _ (by decide) ends'
  obtain ⟨_, _, -, -, refused⟩ | ⟨_, _, other, -⟩ := cuts
  · obtain ⟨_, _, other, -⟩ | ⟨_, u, -, written, refused'⟩ := cuts'
    · cases other
    · have inner : u ++ ['>'] = "r a='>'/".toList ++ ['>'] := (List.cons.inj written).2.symm
      obtain rfl := List.append_cancel_right inner
      exact ⟨nested, single, refused _ (by decide), refused _ (by decide), refused' _ (by decide)⟩
  · cases other

end TreeQuery.Document

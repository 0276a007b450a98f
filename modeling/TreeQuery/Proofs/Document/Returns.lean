import TreeQuery.Proofs.Document.Resuming
import TreeQuery.Proofs.Markup.Returns

/-!
# Documents without carriage returns

Builders that have taken texts with and without some carriage returns in front of line feeds hold
the same tree, and in the runs that have not ended the same words.  So what a document writes, it
writes without these carriage returns (`parse_unreturned`): the readers go through the same events,
and the builders stay alike along them (`Builder.take_unreturned`).
-/

namespace TreeQuery.Document

open Markup (Event Reader)
open Text (Unreturned)

/-- Whether frames differ at most by carriage returns in the run that has not ended. -/
structure Frame.Unreturned (f g : Frame) : Prop where
  tag : g.tag = f.tag
  children : g.children = f.children
  text : g.text = f.text
  run : Text.Unreturned f.run.reverse g.run.reverse

/-- Whether builders differ at most by carriage returns in such runs. -/
structure Builder.Unreturned (b c : Builder) : Prop where
  frames : List.Forall₂ Frame.Unreturned b.frames c.frames
  root : c.root = b.root

variable {f g : Frame} {b b' c : Builder} {s t : List Char} {e e' : Event} {r r₂ : Reader}
  {root : Node}

namespace Frame

theorem Unreturned.flush (h : f.Unreturned g) : f.flush.Unreturned g.flush := by
  refine ⟨h.tag, h.children, ?_, .nil⟩
  simp only [Frame.flush, h.run.collapse_eq, h.text]

theorem Unreturned.close_eq (h : f.Unreturned g) : g.close = f.close := by
  have ended := h.flush
  simp only [Frame.close, ended.tag, ended.children, ended.text]

end Frame

namespace Builder

theorem Unreturned.push (h : b.Unreturned c) (hs : Text.Unreturned s t)
    (taken : b.push s = .ok b') :
    ∃ c', c.push t = .ok c' ∧ b'.Unreturned c' := by
  obtain ⟨frames, root⟩ := b
  obtain ⟨frames', root'⟩ := c
  obtain ⟨hframes, same⟩ := h
  obtain rfl : root' = root := same
  cases hframes with
  | nil =>
    by_cases blank : Text.allBlank s = true
    · cases (if_pos blank).symm.trans taken
      exact ⟨_, if_pos (hs.allBlank_eq.trans blank), .nil, rfl⟩
    · cases (if_neg blank).symm.trans taken
  | cons first later =>
    cases taken
    refine ⟨_, rfl, .cons ⟨first.tag, first.children, first.text, ?_⟩ later, rfl⟩
    simp only [List.reverseAux_eq, List.reverse_append, List.reverse_reverse]
    exact first.run.append hs

theorem Unreturned.beginChild (h : b.Unreturned c) {tag : String}
    (taken : b.beginChild tag = .ok b') :
    ∃ c', c.beginChild tag = .ok c' ∧ b'.Unreturned c' := by
  obtain ⟨frames, root⟩ := b
  obtain ⟨frames', root'⟩ := c
  obtain ⟨hframes, same⟩ := h
  obtain rfl : root' = root := same
  cases hframes with
  | nil =>
    cases root' with
    | none =>
      cases taken
      exact ⟨_, rfl, .nil, rfl⟩
    | some n => cases taken
  | cons first later =>
    cases taken
    exact ⟨_, rfl, .cons first.flush later, rfl⟩

theorem Unreturned.attach (h : b.Unreturned c) (n : Node) :
    (b.attach n).Unreturned (c.attach n) := by
  obtain ⟨frames, root⟩ := b
  obtain ⟨frames', root'⟩ := c
  obtain ⟨hframes, same⟩ := h
  obtain rfl : root' = root := same
  cases hframes with
  | nil => exact ⟨.nil, rfl⟩
  | cons first later =>
    refine ⟨.cons ⟨first.tag, ?_, first.text, first.run⟩ later, rfl⟩
    exact congrArg (n :: ·) first.children

/-- **Builders stay alike** along events that differ by carriage returns. -/
theorem take_unreturned (h : b.Unreturned c) (he : e.Unreturned e') {position : Nat}
    (taken : b.take position e = .ok b') (position' : Nat) :
    ∃ c', c.take position' e' = .ok c' ∧ b'.Unreturned c' := by
  have text : ∀ {s t}, Text.Unreturned s t → b.take position (.text s) = .ok b' →
      ∃ c', c.take position' (.text t) = .ok c' ∧ b'.Unreturned c' := by
    intro s t hs taken
    cases decoded : Markup.decode s with
    | error fault => simp [take, decoded] at taken
    | ok a =>
      obtain ⟨a', decoded', ha⟩ := Markup.decode_unreturned hs decoded
      simp only [take, decoded, decoded'] at taken ⊢
      exact h.push ha taken
  cases he with
  | text hs => exact text hs taken
  | data hs => exact h.push hs taken
  | same e =>
    cases e with
    | text s => exact text (.refl s) taken
    | data s => exact h.push (.refl s) taken
    | opened name =>
      cases begins : b.beginChild (String.ofList name) with
      | error error => simp [take, begins, Except.map] at taken
      | ok b₁ =>
        obtain ⟨c₁, begins', alike⟩ := h.beginChild begins
        simp only [take, begins, begins', Except.map] at taken ⊢
        cases taken
        exact ⟨_, rfl, .cons ⟨rfl, rfl, rfl, .nil⟩ alike.frames, alike.root⟩
    | empty name =>
      cases begins : b.beginChild (String.ofList name) with
      | error error => simp [take, begins, Except.map] at taken
      | ok b₁ =>
        obtain ⟨c₁, begins', alike⟩ := h.beginChild begins
        simp only [take, begins, begins', Except.map] at taken ⊢
        cases taken
        exact ⟨_, rfl, alike.attach _⟩
    | closed name =>
      obtain ⟨frames, root⟩ := b
      obtain ⟨frames', root'⟩ := c
      obtain ⟨hframes, same⟩ := h
      cases hframes with
      | nil => cases taken
      | @cons _ _ outer outer' first later =>
        cases taken
        have left : Builder.Unreturned ⟨outer, root⟩ ⟨outer', root'⟩ := ⟨later, same⟩
        rw [← first.close_eq]
        exact ⟨_, rfl, left.attach _⟩
    | silent =>
      cases taken
      exact ⟨c, rfl, h⟩

theorem Unreturned.finish (h : b.Unreturned c) (ended : b.finish = .ok root) :
    c.finish = .ok root := by
  obtain ⟨frames, root₁⟩ := b
  obtain ⟨frames', root₂⟩ := c
  obtain ⟨hframes, same⟩ := h
  obtain rfl : root₂ = root₁ := same
  cases hframes with
  | nil => exact ended
  | cons first later => cases ended

end Builder

/-- **What is built with the carriage returns is built without them.** -/
theorem build_unreturned {y z : List Char} (ahead : r.Ahead y) (ahead₂ : r₂.Ahead z)
    (h : Unreturned y z) (opened : r₂.opened = r.opened)
    (gapless : ∀ name ∈ r.opened, ∀ c ∈ name, Markup.isGap c = false) (alike : b.Unreturned c)
    (built : build b r = .ok root) : build c r₂ = .ok root := by
  fun_induction build b r generalizing c r₂ y z with
  | case1 b r ends =>
    rw [build_of_finished c (Reader.finished_unreturned ahead ahead₂ h ends)]
    exact alike.finish built
  | case2 b r position cause stops => cases built
  | case3 b r e r' next b' taken ih =>
    obtain ⟨e', r₂', x, x', next₂, he, behind, behind₂, hx⟩ :=
      Reader.next_unreturned ahead ahead₂ h opened gapless next
    obtain ⟨c', taken₂, alike'⟩ := Builder.take_unreturned alike he taken r₂'.position
    have opened' : r₂'.opened = r'.opened := by
      rw [(Reader.keeps_next next).1, (Reader.keeps_next next₂).1, opened]
      cases he <;> rfl
    have later := ih behind behind₂ hx opened' (Reader.gapless_opened next gapless) alike' built
    have reads : Reader.Reads r₂ [(r₂'.position, e')] r₂' := .cons next₂ (.nil r₂')
    rw [build_of_reads reads, Builder.takeAll_singleton, taken₂]
    exact later
  | case4 b r e r' next error taken => cases built

/-- **A document may lose carriage returns in front of line feeds.** -/
theorem parse_unreturned {text text₂ : String} (h : Unreturned text.toList text₂.toList)
    (parsed : parse text .plain = .ok root) : parse text₂ .plain = .ok root := by
  obtain ⟨y, z, ahead, ahead₂, hy⟩ : ∃ y z, (Reader.ofText text.toList).Ahead y ∧
      (Reader.ofText text₂.toList).Ahead z ∧ Unreturned y z := by
    generalize text.toList = s at h
    generalize text₂.toList = t at h
    by_cases mark : s.head? = some '\uFEFF'
    · obtain ⟨s, rfl⟩ := List.head?_eq_some_iff.mp mark
      obtain ⟨t, rfl, behind⟩ := h.cons_inv (by decide)
      exact ⟨s, t, Reader.ahead_ofText_mark s, Reader.ahead_ofText_mark t, behind⟩
    · have unmarked : t.head? ≠ some '\uFEFF' := by
        cases h with
        | nil => exact mark
        | cons c h => exact mark
        | drop h => simp
      exact ⟨s, t, Reader.ahead_ofText mark, Reader.ahead_ofText unmarked, h⟩
  have alike : Builder.start.Unreturned Builder.start := ⟨.nil, rfl⟩
  exact build_unreturned ahead ahead₂ hy rfl (fun _ mem => nomatch mem) alike parsed

end TreeQuery.Document

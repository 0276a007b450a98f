import Mathlib.Data.Nat.PSub
import TreeQuery.Proofs.Document.Resuming
import TreeQuery.Proofs.Markup.Offset
import TreeQuery.Proofs.Markup.Range

/-!
# Where a fault is placed

The position of a fault is computed by subtraction: a reader that took a `<` along behind a run of
text steps back over it, and an end tag or an instruction at fault is stepped back over.  `parse?`
is parsing with subtraction that has no result below zero, and it has the result that parsing has;
so nothing is ever taken off that was not counted before.

What was counted is part of the text, so the position lies within the text, or at its end.  A range
that the message names lies within the run of text that could not be decoded (`StopsIn`).
-/

namespace TreeQuery

open Text (byteLength)
open Markup (Event Fault ReferenceFault Reader decode plain)
open Markup.Reader (Reads ofText Step)

/-! ## Positions by partial subtraction -/

namespace Markup.Reader

/-- The byte position that is reported of a reader, if it does not lie before the text. -/
def position? (r : Reader) : Option Nat := if r.inTag then r.offset.psub 1 else some r.offset

/-- What an end tag or an instruction gives, if no fault of it lies before the text: a fault is
placed by stepping back over its content from behind it. -/
def stepBack? (r : Reader) : Step → Option Step
  | .fault _ cause =>
    let (cut, ended) := plain r.rest
    ((r.behind cut ended).offset.psub (byteLength cut.content)).map (.fault · cause)
  | step => some step

/-- Reads the construct behind a `<`, with faults placed in this way. -/
def construct? (r : Reader) : Option Step :=
  match r.rest with
  | '/' :: _ => r.stepBack? r.endTag
  | '?' :: _ => r.stepBack? r.instruction
  | _ => some r.construct

/-- Reads one event, with faults placed in this way. -/
def next? (r : Reader) : Option Step :=
  if r.inTag then r.construct?
  else match r.rest with
    | '<' :: s => construct? { r with rest := s, offset := r.offset + 1 }
    | _ => some r.next

variable {r r' : Reader} {e : Event} {position : Nat} {cause : Fault}

theorem position?_eq (counted : r.inTag = true → 0 < r.offset) :
    r.position? = some r.position := by
  unfold position? position
  split
  · next inside => exact Nat.psub_eq_sub (counted inside)
  · rfl

theorem stepBack?_eq {step : Step} (placed : ∀ position cause, step = .fault position cause →
    position = (r.behind (plain r.rest).1 (plain r.rest).2).offset -
      byteLength (plain r.rest).1.content) : r.stepBack? step = some step := by
  cases step with
  | fault position cause =>
    have counted : byteLength (plain r.rest).1.content ≤
        (r.behind (plain r.rest).1 (plain r.rest).2).offset := by
      simp only [behind]
      omega
    simp only [stepBack?, Nat.psub_eq_sub counted, placed position cause rfl, Option.map_some]
  | event e r' => rfl
  | finished => rfl

theorem stepBack?_endTag (r : Reader) : r.stepBack? r.endTag = some r.endTag := by
  refine stepBack?_eq fun position cause fails => ?_
  unfold endTag at fails
  dsimp only at fails
  repeat' split at fails
  all_goals cases fails
  all_goals rfl

theorem stepBack?_instruction (r : Reader) :
    r.stepBack? r.instruction = some r.instruction := by
  refine stepBack?_eq fun position cause fails => ?_
  unfold instruction at fails
  dsimp only at fails
  split at fails
  all_goals cases fails
  rfl

theorem construct?_eq (r : Reader) : r.construct? = some r.construct := by
  unfold construct?
  split
  · next s begins => rw [stepBack?_endTag, Written.construct_endTag begins]
  · next s begins => rw [stepBack?_instruction, Written.construct_instruction begins]
  · rfl

/-- **Reading never steps back before the text.** -/
theorem next?_eq (r : Reader) : r.next? = some r.next := by
  unfold next? next
  split
  · exact r.construct?_eq
  · split
    · next s begins =>
      rw [construct?_eq]
      simp only [begins]
    · rfl

/-- The reader never stops for a reference: runs of text are not decoded by it. -/
theorem construct_ne_reference (r : Reader) (fault : ReferenceFault) :
    r.construct ≠ .fault position (.reference fault) := by
  intro h
  unfold construct at h
  split at h
  · cases h
  · simp only [declaration, dataSection, comment, doctype] at h
    repeat' split at h
    all_goals cases h
  · simp only [endTag] at h
    repeat' split at h
    all_goals cases h
  · simp only [instruction] at h
    repeat' split at h
    all_goals cases h
  · simp only [startTag] at h
    repeat' split at h
    all_goals cases h

theorem next_ne_reference (r : Reader) (fault : ReferenceFault) :
    r.next ≠ .fault position (.reference fault) := by
  intro h
  unfold next at h
  split at h
  · exact r.construct_ne_reference fault h
  · split at h
    · cases h
    · exact construct_ne_reference _ fault h
    · cases h

end Markup.Reader

namespace Document

variable {b b' : Builder} {r r' : Reader} {e : Event} {position : Nat} {cause : Fault}

/-- Takes one event; the reader behind it is asked where a fault in its references is reported. -/
def Builder.take? (b : Builder) (r : Reader) (e : Event) : Option (Except Error Builder) :=
  match b.take r.position e with
  | .error (.markup _ cause) => r.position?.map fun position => .error (.markup position cause)
  | taken => some taken

/-- What is built of a text, with faults placed by partial subtraction. -/
def build? (b : Builder) (r : Reader) : Option (Except Error Node) :=
  match _h : r.next? with
  | none => none
  | some .finished => some b.finish
  | some (.fault position cause) => some (.error (.markup position cause))
  | some (.event e r') => match b.take? r' e with
    | none => none
    | some (.error error) => some (.error error)
    | some (.ok b') => build? b' r'
termination_by r.rest.length
decreasing_by exact Reader.length_of_next (Option.some.inj ((Reader.next?_eq r).symm.trans _h))

/-- The root element of a text, with faults placed by partial subtraction. -/
def parse? (text : String) (options : Options) : Option (Except Error Node) :=
  build? Builder.start (ofText (source text options))

theorem Builder.push_ne_markup (b : Builder) (s : List Char) :
    b.push s ≠ .error (.markup position cause) := by
  intro h
  unfold push at h
  split at h
  · cases h
  · split at h <;> cases h

theorem Builder.beginChild_ne_markup (b : Builder) (tag : String) (f : Builder → Builder) :
    (b.beginChild tag).map f ≠ .error (.markup position cause) := by
  intro h
  unfold beginChild at h
  split at h
  · cases h
  · split at h <;> cases h

/-- Only a run of text is refused for its markup, and then for a reference in it. -/
theorem Builder.exists_of_take_markup {position' : Nat}
    (h : b.take position e = .error (.markup position' cause)) :
    ∃ written fault, e = .text written ∧ decode written = .error fault ∧
      cause = .reference fault ∧ position' = position := by
  cases e with
  | text written =>
    cases decoded : decode written with
    | error fault =>
      simp only [take, decoded] at h
      cases h
      exact ⟨written, fault, rfl, decoded, rfl, rfl⟩
    | ok s =>
      simp only [take, decoded] at h
      exact absurd h (b.push_ne_markup s)
  | data s => exact absurd h (b.push_ne_markup s)
  | opened name => exact absurd h (b.beginChild_ne_markup _ _)
  | empty name => exact absurd h (b.beginChild_ne_markup _ _)
  | closed name =>
    unfold take at h
    dsimp only at h
    split at h <;> cases h
  | silent => cases h

theorem Builder.take?_eq (b : Builder) (e : Event) (counted : 0 < r.offset) :
    b.take? r e = some (b.take r.position e) := by
  unfold take?
  split
  · next position cause refused =>
    obtain ⟨written, fault, -, -, -, rfl⟩ := exists_of_take_markup refused
    rw [Reader.position?_eq fun _ => counted, refused]
    rfl
  · rfl

/-- Reading one event gives what it gives with the check, so building goes on in the same way. -/
theorem build?_next (b : Builder) (r : Reader) :
    build? b r = match r.next with
      | .finished => some b.finish
      | .fault position cause => some (.error (.markup position cause))
      | .event e r' => match b.take? r' e with
        | none => none
        | some (.error error) => some (.error error)
        | some (.ok b') => build? b' r' := by
  have read : ∀ step, r.next? = some step → r.next = step := fun step h =>
    Option.some.inj (r.next?_eq.symm.trans h)
  rw [build?]
  split
  · next none => cases r.next?_eq.symm.trans none
  · next ends => rw [read _ ends]
  · next position cause stops => rw [read _ stops]
  · next e r' next => simp only [read _ next]

/-- **No position is computed by stepping back before the text.** -/
theorem build?_eq (b : Builder) (r : Reader) : build? b r = some (build b r) := by
  fun_induction build b r with
  | case1 b r ends => rw [build?_next, ends]
  | case2 b r position cause stops => rw [build?_next, stops]
  | case3 b r e r' next b' taken ih =>
    have counted : 0 < r'.offset := Nat.zero_lt_of_lt (Reader.advances_of_next next).offset_lt
    rw [build?_next, next]
    simp only [b.take?_eq e counted, taken, ih]
  | case4 b r e r' next error taken =>
    have counted : 0 < r'.offset := Nat.zero_lt_of_lt (Reader.advances_of_next next).offset_lt
    rw [build?_next, next]
    simp only [b.take?_eq e counted, taken]

/-! ## What a fault is found in -/

/-- Whether a text is refused at a position for a reference in a run of text: the events before the
run are taken, and the run cannot be decoded. -/
def StopsIn (s written : List Char) (position : Nat) (fault : ReferenceFault) : Prop :=
  ∃ before r b r', Reads (ofText s) before r ∧ Builder.start.takeAll before = .ok b ∧
    r.next = .event (.text written) r' ∧ r'.position = position ∧ decode written = .error fault

/-- Markup is at fault where the reader stops, or for a reference in a run of text. -/
theorem exists_of_build_markup (h : build b r = .error (.markup position cause)) :
    ∃ before r₁ b₁, Reads r before r₁ ∧ b.takeAll before = .ok b₁ ∧
      (r₁.next = .fault position cause ∨ ∃ written r₂ fault,
        r₁.next = .event (.text written) r₂ ∧ r₂.position = position ∧
          decode written = .error fault ∧ cause = .reference fault) := by
  fun_induction build b r with
  | case1 b r ends =>
    unfold Builder.finish at h
    split at h <;> cases h
  | case2 b r position' cause' stops =>
    cases h
    exact ⟨[], r, b, .nil r, rfl, .inl stops⟩
  | case3 b r e r' next b' taken ih =>
    obtain ⟨before, r₁, b₁, reads, all, found⟩ := ih h
    refine ⟨_, r₁, b₁, .cons next reads, ?_, found⟩
    rw [Builder.takeAll_cons, taken]
    exact all
  | case4 b r e r' next error taken =>
    cases h
    obtain ⟨written, fault, rfl, decoded, rfl, rfl⟩ := Builder.exists_of_take_markup taken
    exact ⟨[], r, b, .nil r, rfl, .inr ⟨written, r', fault, next, rfl, decoded, rfl⟩⟩

theorem total_ofText_le (s : List Char) : (ofText s).total ≤ byteLength s := by
  unfold ofText Reader.total
  dsimp only
  split
  · rw [Text.byteLength_cons]
    omega
  · omega

theorem position_le_total (r : Reader) : r.position ≤ r.total := by
  have := r.offset_le_total
  unfold Reader.position
  split <;> omega

/-- **Where a fault is placed.**  Its position is computed without a subtraction below zero and lies
within the text that is read, or at its end.  Where the message names a range, this is a range of
bytes of the run of text that could not be decoded. -/
theorem fault_within (text : String) (options : Options) :
    parse? text options = some (parse text options) ∧
      ∀ position cause, parse text options = .error (.markup position cause) →
        position ≤ byteLength (source text options) ∧
        ∀ first last wording,
          cause.message = ReferenceFault.message.ranged first last wording →
          ∃ written fault, cause = .reference fault ∧
            StopsIn (source text options) written position fault ∧
            first ≤ last ∧ last ≤ byteLength written := by
  refine ⟨build?_eq _ _, fun position cause refused => ?_⟩
  obtain ⟨before, r, b, reads, taken, found⟩ := exists_of_build_markup refused
  have counted : r.total ≤ byteLength (source text options) :=
    reads.total_eq ▸ total_ofText_le _
  have step := r.accounts_next
  rcases found with stops | ⟨written, r', fault, next, rfl, decoded, rfl⟩
  · rw [stops] at step
    refine ⟨Nat.le_trans step counted, fun first last wording ranged => ?_⟩
    obtain ⟨fault, rfl, -⟩ := Fault.range_of_message ranged
    exact absurd stops (r.next_ne_reference fault)
  · rw [next] at step
    have within : r'.position ≤ r.total := step.total_eq ▸ position_le_total r'
    refine ⟨Nat.le_trans within counted, fun first last wording ranged => ?_⟩
    obtain ⟨_, same, range⟩ := Fault.range_of_message ranged
    cases same
    exact ⟨written, fault, rfl, ⟨before, r, b, r', reads, taken, next, rfl, decoded⟩,
      Markup.range_of_decode decoded range⟩

/-- A closing tag behind a byte order mark, an instruction that is stepped back over, and a run of
text up to the end. -/
theorem fault_within_endTag_instruction_reference :
    (∃ cause, parse "\uFEFF<a></b>" .plain = .error (.markup 5 cause) ∧
      5 ≤ byteLength (source "\uFEFF<a></b>" .plain)) ∧
    (∃ cause, parse "<?a" .plain = .error (.markup 1 cause) ∧
      1 ≤ byteLength (source "<?a" .plain)) ∧
    parse? "<a>&lt;&x" .plain = some (parse "<a>&lt;&x" .plain) ∧
    ∃ cause, parse "<a>&lt;&x" .plain = .error (.markup 8 cause) ∧
      8 ≤ byteLength (source "<a>&lt;&x" .plain) ∧
      ∃ written fault, cause = .reference fault ∧
        StopsIn (source "<a>&lt;&x" .plain) written 8 fault ∧ 4 ≤ 6 ∧ 6 ≤ byteLength written := by
  have endTag : parse "\uFEFF<a></b>" .plain =
      .error (.markup 5 (.mismatchedEnd ['a'] ['b'])) := by cbv
  have instruction : parse "<?a" .plain = .error (.markup 1 (.unfinished .instruction)) := by cbv
  have reference : parse "<a>&lt;&x" .plain =
      .error (.markup 8 (.reference (.unfinished 4 6))) := by cbv
  have placed := (fault_within "<a>&lt;&x" .plain).2 8 _ reference
  refine ⟨⟨_, endTag, ((fault_within _ _).2 5 _ endTag).1⟩,
    ⟨_, instruction, ((fault_within _ _).2 1 _ instruction).1⟩, (fault_within _ _).1,
    _, reference, placed.1, placed.2 4 6 _ rfl⟩

end Document

end TreeQuery

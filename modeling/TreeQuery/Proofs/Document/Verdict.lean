import TreeQuery.Document
import TreeQuery.Proofs.Document.Nesting
import TreeQuery.Proofs.Gather

/-!
# Which texts are documents, and why the others are not

Whether a text is a document can be read off its trace, without building anything: an event offends
if it cannot be decoded, or if it stands outside of all elements and should not (`offence?`).  The
first offending event decides; if there is none the fault that stops the reader does, and then an
element that is still open, or that there is none at all (`refusal?`).

`Agrees` ties the builder to the events alone: which elements are open and whether a root element
has begun.  One event either offends, and then the builder refuses it with the same error, or keeps
the agreement (`Agrees.take`).
-/

namespace TreeQuery.Document

open Markup (Event Trace Reader decode Matched openNames openBehind)

/-- The text that an event stands for, if it is text that can be decoded. -/
def saying? : Event → Option (List Char)
  | .text written => (decode written).toOption
  | .data s => some s
  | _ => none

/-- The tag of the element that starts with an event. -/
def startTag? : Event → Option String
  | .opened name => some (String.ofList name)
  | .empty name => some (String.ofList name)
  | _ => none

/-- The text of an event outside of all elements. -/
def textOutside? (before : List (Nat × Event)) (e : Nat × Event) : Option (List Char) :=
  if openBehind before = [] then saying? e.2 else none

/-- The tag of an element that starts outside of all others. -/
def rootTag? (before : List (Nat × Event)) (e : Nat × Event) : Option String :=
  if openBehind before = [] then startTag? e.2 else none

/-- The texts outside of all elements, in order. -/
def textsOutside (run : List (Nat × Event)) : List (List Char) := gather textOutside? run

/-- The tags of the elements that start outside of all others, in order. -/
def rootTags (run : List (Nat × Event)) : List String := gather rootTag? run

/-- What is wrong with an event behind those before it. -/
def offence? (before : List (Nat × Event)) (e : Nat × Event) : Option Error :=
  match e.2 with
  | .text written => match decode written with
    | .error fault => some (.markup e.1 (.reference fault))
    | .ok s => if openBehind before = [] ∧ ¬ Text.allBlank s then some .textOutsideRoot else none
  | .data s => if openBehind before = [] ∧ ¬ Text.allBlank s then some .textOutsideRoot else none
  | .opened name =>
    if openBehind before = [] ∧ rootTags before ≠ [] then
      some (.multipleRoots (String.ofList name)) else none
  | .empty name =>
    if openBehind before = [] ∧ rootTags before ≠ [] then
      some (.multipleRoots (String.ofList name)) else none
  | .closed _ => none
  | .silent => none

/-- What is wrong with the events of a run, in order. -/
def offences (run : List (Nat × Event)) : List Error := gather offence? run

/-- What is missing at the end of a run: the end of an element, or any element at all. -/
def missing? (run : List (Nat × Event)) : Option Error :=
  match openBehind run with
  | name :: _ => some (.unclosed (String.ofList name))
  | [] => if rootTags run = [] then some .noRoot else none

/-- Why a trace is that of no document, if it is not: its first offence, the fault that stops the
reader, or what is missing at the end, in this order. -/
def refusal? (trace : Trace) : Option Error :=
  match offences trace.events, trace.fault? with
  | error :: _, _ => some error
  | [], some (position, cause) => some (.markup position cause)
  | [], none => missing? trace.events

/-- Whether a trace is that of a document: the reader does not stop early, all text can be decoded,
one element starts outside of all others, nothing but blank text stands there, and no element is
left open. -/
structure Acceptable (trace : Trace) : Prop where
  fault?_eq : trace.fault? = none
  decodes : ∀ position written, (position, Event.text written) ∈ trace.events →
    ∃ s, decode written = .ok s
  one_root : (rootTags trace.events).length = 1
  blank_outside : ∀ s ∈ textsOutside trace.events, Text.allBlank s = true
  none_open : openBehind trace.events = []

/-! ## The builder and the events -/

/-- What the builder knows, said by the events that it has read. -/
structure Agrees (run : List (Nat × Event)) (b : Builder) : Prop where
  /-- The frames are those of the open elements. -/
  frames_eq : b.frames.map (·.tag) = (openBehind run).map String.ofList
  /-- No root element has begun exactly as long as none is open or kept. -/
  unrooted_iff : rootTags run = [] ↔ b.frames = [] ∧ b.root = none
  /-- At most one root element has begun. -/
  roots_le : (rootTags run).length ≤ 1

theorem agrees_start : Agrees [] Builder.start :=
  ⟨rfl, by simp [rootTags, Builder.start], by simp [rootTags]⟩

theorem rootTags_concat (run : List (Nat × Event)) (e : Nat × Event) :
    rootTags (run ++ [e]) = rootTags run ++ (rootTag? run e).toList := gather_concat ..

namespace Agrees

variable {run : List (Nat × Event)} {b b' : Builder} {e : Nat × Event}

theorem outside_iff (h : Agrees run b) : b.frames = [] ↔ openBehind run = [] := by
  have same := h.frames_eq
  constructor
  · intro outside
    rw [outside] at same
    exact List.map_eq_nil_iff.mp same.symm
  · intro outside
    rw [outside] at same
    exact List.map_eq_nil_iff.mp same

/-- Behind an event that starts no root element, no other root element has begun. -/
theorem of_rootTag?_none (h : Agrees run b) (none : rootTag? run e = none)
    (frames_eq : b'.frames.map (·.tag) = (e.2.nest (openBehind run)).map String.ofList)
    (rooted_iff : b'.frames = [] ∧ b'.root = Option.none ↔ b.frames = [] ∧ b.root = Option.none) :
    Agrees (run ++ [e]) b' := by
  have same : rootTags (run ++ [e]) = rootTags run := by rw [rootTags_concat, none]; simp
  refine ⟨?_, ?_, same ▸ h.roots_le⟩
  · rw [Markup.openBehind_concat, frames_eq]
  · rw [same, h.unrooted_iff, rooted_iff]

/-- The first root element may begin. -/
theorem of_rootTag?_some {tag : String} (some : rootTag? run e = some tag)
    (unrooted : rootTags run = [])
    (frames_eq : b'.frames.map (·.tag) = (e.2.nest (openBehind run)).map String.ofList)
    (rooted : ¬ (b'.frames = [] ∧ b'.root = none)) : Agrees (run ++ [e]) b' := by
  have one : rootTags (run ++ [e]) = [tag] := by rw [rootTags_concat, some, unrooted]; rfl
  refine ⟨?_, ?_, by rw [one]; exact Nat.le_refl 1⟩
  · rw [Markup.openBehind_concat, frames_eq]
  · rw [one]
    exact iff_of_false (List.cons_ne_nil tag []) rooted

/-- What an event does where a run has led the builder: it offends and is refused with just that
error, or it is taken. -/
def Takes (run : List (Nat × Event)) (b : Builder) (e : Nat × Event) : Prop :=
  match offence? run e with
  | some error => b.take e.1 e.2 = .error error
  | none => ∃ b', b.take e.1 e.2 = .ok b' ∧ Agrees (run ++ [e]) b'

/-- Decoded text goes to the innermost open element, or must be blank. -/
theorem takes_said (h : Agrees run b) {s : List Char} (none : startTag? e.2 = none)
    (taken : b.take e.1 e.2 = b.push s) (same : ∀ names, e.2.nest names = names)
    (offence : offence? run e =
      if openBehind run = [] ∧ ¬ Text.allBlank s then some .textOutsideRoot else Option.none) :
    Takes run b e := by
  have noRoot : rootTag? run e = Option.none := by rw [rootTag?, none]; split <;> rfl
  obtain ⟨frames, root⟩ := b
  rw [Takes, offence, taken]
  cases frames with
  | nil =>
    rw [h.outside_iff.mp rfl]
    by_cases blank : Text.allBlank s = true
    · rw [if_neg (by simp [blank])]
      exact ⟨_, if_pos blank, h.of_rootTag?_none noRoot (by rw [same]; exact h.frames_eq) Iff.rfl⟩
    · rw [if_pos ⟨rfl, blank⟩]
      exact if_neg blank
  | cons f outer =>
    have inside : openBehind run ≠ [] := fun h' => by cases h.outside_iff.mpr h'
    rw [if_neg fun h' => inside h'.1]
    refine ⟨_, rfl, h.of_rootTag?_none noRoot (by rw [same]; exact h.frames_eq) ?_⟩
    simp

/-- An element begins, unless it is a second root element.  `after` is what the builder does with
the element once it may begin. -/
theorem takes_start (h : Agrees run b) {tag : String} {after : Builder → Builder}
    (starts : startTag? e.2 = some tag)
    (taken : b.take e.1 e.2 = (b.beginChild tag).map after)
    (frames_after : ∀ b' : Builder, b'.frames.map (·.tag) = (openBehind run).map String.ofList →
      (after b').frames.map (·.tag) = (e.2.nest (openBehind run)).map String.ofList)
    (rooted_after : ∀ b' : Builder, ¬ ((after b').frames = [] ∧ (after b').root = none))
    (offence : offence? run e = if openBehind run = [] ∧ rootTags run ≠ [] then
      some (.multipleRoots tag) else none) :
    Takes run b e := by
  obtain ⟨frames, root⟩ := b
  rw [Takes, offence, taken]
  cases frames with
  | cons f outer =>
    -- Inside of an element any element may begin, and no root element does.
    have inside : openBehind run ≠ [] := fun h' => by cases h.outside_iff.mpr h'
    have noRoot : rootTag? run e = none := if_neg inside
    rw [if_neg fun h' => inside h'.1]
    refine ⟨_, rfl, h.of_rootTag?_none noRoot (frames_after _ h.frames_eq) ?_⟩
    exact iff_of_false (rooted_after _) fun h' => by cases h'.1
  | nil =>
    -- Outside of all elements one may begin unless the root element is kept.
    have outside := h.outside_iff.mp rfl
    have isRoot : rootTag? run e = some tag := (if_pos outside).trans starts
    cases root with
    | none =>
      have unrooted : rootTags run = [] := h.unrooted_iff.mpr ⟨rfl, rfl⟩
      rw [if_neg fun h' => h'.2 unrooted]
      exact ⟨_, rfl, of_rootTag?_some isRoot unrooted (frames_after _ h.frames_eq) (rooted_after _)⟩
    | some n =>
      have rooted : rootTags run ≠ [] := fun h' => by cases (h.unrooted_iff.mp h').2
      rw [if_pos ⟨outside, rooted⟩]
      rfl

theorem takes_closed (h : Agrees run b) (matching : e.2.Matches (openBehind run))
    {name : List Char} (closed : e.2 = .closed name) : Takes run b e := by
  have noRoot : rootTag? run e = none := by rw [rootTag?, closed]; split <;> rfl
  have offence : offence? run e = none := by rw [offence?, closed]
  obtain ⟨frames, root⟩ := b
  rw [Takes, offence, closed]
  cases frames with
  | nil =>
    have := matching name closed
    rw [h.outside_iff.mp rfl] at this
    cases this
  | cons f outer =>
    have tags := h.frames_eq
    refine ⟨_, rfl, h.of_rootTag?_none noRoot ?_ ?_⟩
    · rw [closed, Event.nest, List.map_tail, ← tags]
      cases outer <;> rfl
    · cases outer <;> simp [Builder.attach]

/-- **An event offends or is taken**, and the agreement is kept. -/
theorem takes (h : Agrees run b) (matching : e.2.Matches (openBehind run)) : Takes run b e := by
  obtain ⟨position, e⟩ := e
  cases e with
  | text written =>
    cases decoded : decode written with
    | error fault => simp [Takes, offence?, Builder.take, decoded]
    | ok s =>
      exact h.takes_said (s := s) rfl (by simp only [Builder.take, decoded]) (fun _ => rfl)
        (by simp only [offence?, decoded])
  | data s => exact h.takes_said rfl rfl (fun _ => rfl) rfl
  | opened name =>
    refine h.takes_start rfl rfl (fun b' hb' => ?_) (fun b' h' => ?_) rfl
    · exact congrArg (String.ofList name :: ·) hb'
    · cases h'.1
  | empty name =>
    refine h.takes_start rfl rfl (fun b' hb' => ?_) (fun b' h' => ?_) rfl
    · refine Eq.trans ?_ hb'
      obtain ⟨frames, root⟩ := b'
      cases frames <;> rfl
    · obtain ⟨frames, root⟩ := b'
      cases frames <;> simp [Builder.attach] at h'
  | closed name => exact h.takes_closed matching rfl
  | silent =>
    have noRoot : rootTag? run (position, .silent) = none := by rw [rootTag?]; split <;> rfl
    exact ⟨b, rfl, h.of_rootTag?_none noRoot h.frames_eq Iff.rfl⟩

theorem finish_eq_error_iff (h : Agrees run b) (error : Error) :
    b.finish = .error error ↔ missing? run = some error := by
  have tags := h.frames_eq
  obtain ⟨frames, root⟩ := b
  cases frames with
  | cons f outer =>
    cases names : openBehind run with
    | nil => rw [names] at tags; cases tags
    | cons name others =>
      rw [names, List.map_cons, List.map_cons] at tags
      obtain ⟨tag, -⟩ := List.cons_eq_cons.mp tags
      simp [missing?, names, Builder.finish, tag]
  | nil =>
    rw [missing?, h.outside_iff.mp rfl]
    cases root with
    | none => simp [h.unrooted_iff.mpr ⟨rfl, rfl⟩, Builder.finish]
    | some n =>
      have rooted : rootTags run ≠ [] := fun h' => by cases (h.unrooted_iff.mp h').2
      simp [rooted, Builder.finish]

end Agrees

/-! ## Runs and traces -/

/-- **A run is refused for its first offence**, and taken if there is none. -/
theorem takeAll_start {run : List (Nat × Event)} (matched : Matched [] run) :
    match offences run with
    | error :: _ => Builder.start.takeAll run = .error error
    | [] => ∃ b, Builder.start.takeAll run = .ok b ∧ Agrees run b := by
  induction run using List.reverseRecOn with
  | nil => exact ⟨Builder.start, rfl, agrees_start⟩
  | append_singleton run e ih =>
    have before := ih matched.of_append
    have all : offences (run ++ [e]) = offences run ++ (offence? run e).toList := gather_concat ..
    rw [Builder.takeAll_concat, all]
    cases found : offences run with
    | cons error later =>
      rw [found] at before
      rw [List.cons_append, before]
      rfl
    | nil =>
      rw [found] at before
      obtain ⟨b, taken, agrees⟩ := before
      have step := agrees.takes (matched run e [] rfl)
      rw [Agrees.Takes] at step
      rw [taken]
      cases here : offence? run e with
      | some error => rw [here] at step; exact step
      | none => rw [here] at step; exact step

/-- What is made of a trace is refused for the reason that the trace gives. -/
theorem conclude_eq_error_iff {trace : Trace} (matched : Matched [] trace.events) (error : Error) :
    conclude Builder.start trace = .error error ↔ refusal? trace = some error := by
  have run := takeAll_start matched
  rw [conclude, refusal?]
  cases found : offences trace.events with
  | cons first later =>
    rw [found] at run
    rw [run]
    simp
  | nil =>
    rw [found] at run
    obtain ⟨b, taken, agrees⟩ := run
    rw [taken]
    cases trace.fault? with
    | some fault => simp
    | none => exact agrees.finish_eq_error_iff error

/-! ## Acceptable traces -/

theorem rootTags_lt {before after : List (Nat × Event)} {e : Nat × Event} {tag : String}
    (outside : openBehind before = []) (starts : startTag? e.2 = some tag) :
    (rootTags before).length < (rootTags (before ++ e :: after)).length :=
  gather_length_lt ((if_pos outside).trans starts : rootTag? before e = some tag) after

theorem mem_textsOutside {before after : List (Nat × Event)} {e : Nat × Event} {s : List Char}
    (outside : openBehind before = []) (said : saying? e.2 = some s) :
    s ∈ textsOutside (before ++ e :: after) :=
  mem_gather.mpr ⟨before, e, after, rfl, (if_pos outside).trans said⟩

theorem offences_eq_nil {trace : Trace} (h : Acceptable trace) : offences trace.events = [] := by
  refine gather_eq_nil_iff.mpr fun before e after split => ?_
  obtain ⟨position, e⟩ := e
  -- A root element behind another one, or text outside that is not blank, would be counted.
  have single : ∀ tag, startTag? e = some tag →
      ¬ (openBehind before = [] ∧ rootTags before ≠ []) := by
    intro tag starts ⟨outside, rooted⟩
    have lt : (rootTags before).length < (rootTags (before ++ (position, e) :: after)).length :=
      rootTags_lt outside starts
    rw [← split, h.one_root] at lt
    exact rooted (List.length_eq_zero_iff.mp (Nat.lt_one_iff.mp lt))
  have blank : ∀ s, saying? e = some s → ¬ (openBehind before = [] ∧ ¬ Text.allBlank s) := by
    intro s said ⟨outside, printed⟩
    refine printed (h.blank_outside s ?_)
    rw [split]
    exact mem_textsOutside (e := (position, e)) outside said
  cases e with
  | text written =>
    obtain ⟨s, decoded⟩ := h.decodes position written (split ▸ by simp)
    simp only [offence?, decoded, if_neg (blank s (by simp only [saying?, decoded]; rfl))]
  | data s => exact if_neg (blank s rfl)
  | opened name => exact if_neg (single _ rfl)
  | empty name => exact if_neg (single _ rfl)
  | closed name => rfl
  | silent => rfl

theorem decodes_of_offences {run : List (Nat × Event)} (none : offences run = [])
    {position : Nat} {written : List Char} (h : (position, Event.text written) ∈ run) :
    ∃ s, decode written = .ok s := by
  obtain ⟨before, after, split⟩ := List.append_of_mem h
  have here := gather_eq_nil_iff.mp none before _ after split
  cases decoded : decode written with
  | ok s => exact ⟨s, rfl⟩
  | error fault => simp [offence?, decoded] at here

theorem blank_of_offences {run : List (Nat × Event)} (none : offences run = []) {s : List Char}
    (h : s ∈ textsOutside run) : Text.allBlank s = true := by
  obtain ⟨before, ⟨position, e⟩, after, split, found⟩ := mem_gather.mp h
  have here := gather_eq_nil_iff.mp none before _ after split
  rw [textOutside?] at found
  split at found
  · next outside =>
    cases e with
    | text written =>
      cases decoded : decode written with
      | error fault => simp [saying?, decoded, Except.toOption] at found
      | ok t =>
        simp only [saying?, decoded, Except.toOption, Option.some.injEq] at found
        simpa [offence?, decoded, outside, found] using here
    | data t =>
      cases found
      simpa [offence?, outside] using here
    | opened name => cases found
    | empty name => cases found
    | closed name => cases found
    | silent => cases found
  · cases found

/-- A trace is refused for no reason exactly if it is acceptable. -/
theorem refusal?_eq_none_iff {trace : Trace} (matched : Matched [] trace.events) :
    refusal? trace = none ↔ Acceptable trace := by
  constructor
  · intro h
    rw [refusal?] at h
    split at h
    · cases h
    · cases h
    · next none faultless =>
      have run := takeAll_start matched
      rw [none] at run
      obtain ⟨b, -, agrees⟩ := run
      rw [missing?] at h
      split at h
      · cases h
      · next outside =>
        split at h
        · cases h
        · next rooted =>
          refine ⟨faultless, fun _ _ => decodes_of_offences none, ?_,
            fun _ => blank_of_offences none, outside⟩
          have := List.length_pos_iff.mpr rooted
          have := agrees.roots_le
          omega
  · intro h
    have rooted : rootTags trace.events ≠ [] := fun none => by
      have := h.one_root
      simp [none] at this
    simp [refusal?, offences_eq_nil h, h.fault?_eq, missing?, h.none_open, rooted]

/-- **The verdict on a text.**  It is a document exactly if its trace is acceptable.  Its root
element is then the one child of the content that the trace writes, and every other text is refused
for the reason that its trace gives. -/
theorem parse_eq_verdict (text : String) (options : Options) :
    let trace := (Reader.ofText (source text options)).trace
    ((∃ root, parse text options = .ok root) ↔ Acceptable trace) ∧
      (∀ root, parse text options = .ok root ↔
        trace.fault? = none ∧ IsDocument trace.events root) ∧
      (∀ error, parse text options = .error error ↔ refusal? trace = some error) := by
  intro trace
  have matched : Matched [] trace.events := Reader.matched_trace (Reader.ofText _)
  have built : parse text options = conclude Builder.start trace := build_eq_conclude _ _
  rw [built]
  refine ⟨?_, conclude_eq_ok_iff matched, conclude_eq_error_iff matched⟩
  rw [← refusal?_eq_none_iff matched, Option.eq_none_iff_forall_ne_some]
  have refused := conclude_eq_error_iff matched
  cases made : conclude Builder.start trace with
  | ok root =>
    refine iff_of_true ⟨root, rfl⟩ fun error h => ?_
    cases made.symm.trans ((refused error).mpr h)
  | error error =>
    refine iff_of_false (fun ⟨root, h⟩ => by cases h) fun h => ?_
    exact h error ((refused error).mp made)

end TreeQuery.Document

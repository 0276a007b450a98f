import Mathlib.Data.List.Induction
import TreeQuery.Proofs.Markup.Trace
import TreeQuery.Proofs.Tree.Content

/-!
# Runs of events as contents

`Contains run ps` reads a run of events as the content of an element: decoded texts, elements
without content, and elements whose start tag, content and end tag stand one behind the other.
Comments, instructions and declarations are no part of a content.  A whole document is the same
thing: a content with one child element and nothing but blank text (`IsDocument`).

The builder takes such a run as the content that it is, inside an open element
(`takeAll_inside`) and outside of all (`takeAll_outside`).
-/

namespace TreeQuery.Document

open Markup (Event Trace Reader decode Matched openNames openBehind)

/-! ## The builder along a run of events -/

/-- Takes the events of a run, one after the other. -/
def Builder.takeAll (b : Builder) (run : List (Nat × Event)) : Except Error Builder :=
  run.foldlM (fun b e => b.take e.1 e.2) b

namespace Builder

@[simp] theorem takeAll_nil (b : Builder) : b.takeAll [] = .ok b := rfl

theorem takeAll_cons (b : Builder) (e : Nat × Event) (run : List (Nat × Event)) :
    b.takeAll (e :: run) = b.take e.1 e.2 >>= fun b' => b'.takeAll run := List.foldlM_cons

theorem takeAll_append (b : Builder) (run later : List (Nat × Event)) :
    b.takeAll (run ++ later) = b.takeAll run >>= fun b' => b'.takeAll later := List.foldlM_append

theorem takeAll_concat (b : Builder) (run : List (Nat × Event)) (e : Nat × Event) :
    b.takeAll (run ++ [e]) = b.takeAll run >>= fun b' => b'.take e.1 e.2 := by
  rw [takeAll_append]
  simp only [takeAll, List.foldlM_cons, List.foldlM_nil, bind_pure]

end Builder

/-- What the builder makes of a trace: the events first, then the fault or the end. -/
def conclude (b : Builder) (trace : Trace) : Except Error Node :=
  match b.takeAll trace.events with
  | .error error => .error error
  | .ok b' => match trace.fault? with
    | some (position, cause) => .error (.markup position cause)
    | none => b'.finish

theorem conclude_cons {b b' : Builder} {e : Nat × Event} (h : b.take e.1 e.2 = .ok b')
    (trace : Trace) :
    conclude b ⟨e :: trace.events, trace.fault?⟩ = conclude b' trace := by
  rw [conclude, Builder.takeAll_cons, h, conclude]
  rfl

/-- **Building is concluding the trace.** -/
theorem build_eq_conclude (b : Builder) (r : Reader) : build b r = conclude b r.trace := by
  fun_induction build b r with
  | case1 b r ends => rw [Reader.trace_of_finished ends]; rfl
  | case2 b r position cause stops => rw [Reader.trace_of_fault stops]; rfl
  | case3 b r e r' reads b' takes ih =>
    rw [Reader.trace_of_event reads, conclude_cons takes, ih]
  | case4 b r e r' reads error takes =>
    rw [Reader.trace_of_event reads, conclude, Builder.takeAll_cons, takes]
    rfl

/-! ## Contents -/

/-- The content that a run of events writes. -/
inductive Contains : List (Nat × Event) → List Piece → Prop where
  | nil : Contains [] []
  | text {position : Nat} {written s : List Char} {run : List (Nat × Event)} {ps : List Piece} :
    decode written = .ok s → Contains run ps →
    Contains ((position, .text written) :: run) (.text s :: ps)
  | data {position : Nat} {s : List Char} {run : List (Nat × Event)} {ps : List Piece} :
    Contains run ps → Contains ((position, .data s) :: run) (.text s :: ps)
  | silent {position : Nat} {run : List (Nat × Event)} {ps : List Piece} :
    Contains run ps → Contains ((position, .silent) :: run) ps
  | empty {position : Nat} {name : List Char} {run : List (Nat × Event)} {ps : List Piece} :
    Contains run ps →
    Contains ((position, .empty name) :: run) (.child (Node.new (String.ofList name)) :: ps)
  | element {position position' : Nat} {name : List Char} {inner run : List (Nat × Event)}
    {qs ps : List Piece} :
    Contains inner qs → Contains run ps →
    Contains ((position, .opened name) :: inner ++ (position', .closed name) :: run)
      (.child (Node.ofPieces (String.ofList name) qs) :: ps)

/-- Whether a run of events writes a document with a root element: a content with one child and
nothing but blank text. -/
def IsDocument (run : List (Nat × Event)) (root : Node) : Prop :=
  ∃ ps, Contains run ps ∧ Piece.children ps = [root] ∧
    ∀ s ∈ Piece.texts ps, Text.allBlank s = true

namespace Contains

theorem append {run later : List (Nat × Event)} {ps qs : List Piece} (h : Contains run ps)
    (h' : Contains later qs) : Contains (run ++ later) (ps ++ qs) := by
  induction h with
  | nil => exact h'
  | text decoded _ ih => exact .text decoded ih
  | data _ ih => exact .data ih
  | silent _ ih => exact .silent ih
  | empty _ ih => exact .empty ih
  | element inner _ _ ih => simpa using Contains.element inner ih

/-- Behind a content the same elements are open as before it. -/
theorem openNames_eq {run : List (Nat × Event)} {ps : List Piece} (h : Contains run ps)
    (names : List (List Char)) : openNames names run = names := by
  induction h generalizing names with
  | nil => rfl
  | text _ _ ih => exact ih names
  | data _ ih => exact ih names
  | silent _ ih => exact ih names
  | empty _ ih => exact ih names
  | @element _ _ name _ _ _ _ _ _ ihInner ih =>
    rw [Markup.openNames_append]
    change openNames (openNames (name :: names) _).tail _ = names
    rw [ihInner (name :: names)]
    exact ih names

/-- Where an event stands does not matter for the content. -/
theorem of_same {run run₂ : List (Nat × Event)} {ps : List Piece} (h : Contains run ps)
    (same : run₂.map (·.2) = run.map (·.2)) : Contains run₂ ps := by
  induction h generalizing run₂ with
  | nil =>
    rw [List.map_eq_nil_iff.mp same]
    exact .nil
  | text decoded _ ih =>
    obtain ⟨⟨_, _⟩, later, rfl, rfl, tail⟩ := List.map_eq_cons_iff.mp same
    exact .text decoded (ih tail)
  | data _ ih =>
    obtain ⟨⟨_, _⟩, later, rfl, rfl, tail⟩ := List.map_eq_cons_iff.mp same
    exact .data (ih tail)
  | silent _ ih =>
    obtain ⟨⟨_, _⟩, later, rfl, rfl, tail⟩ := List.map_eq_cons_iff.mp same
    exact .silent (ih tail)
  | empty _ ih =>
    obtain ⟨⟨_, _⟩, later, rfl, rfl, tail⟩ := List.map_eq_cons_iff.mp same
    exact .empty (ih tail)
  | element _ _ ihInner ih =>
    rw [List.cons_append, List.map_cons, List.map_append, List.map_cons] at same
    obtain ⟨⟨_, _⟩, later, rfl, rfl, tail⟩ := List.map_eq_cons_iff.mp same
    obtain ⟨inner, closed, rfl, innerSame, closing⟩ := List.map_eq_append_iff.mp tail
    obtain ⟨⟨_, _⟩, rest, rfl, rfl, restSame⟩ := List.map_eq_cons_iff.mp closing
    exact .element (ihInner innerSame) (ih restSame)

end Contains

/-! ## The builder along a content -/

namespace Builder

/-- Takes a piece of content: in the innermost open element, if there is one; else a child is the
root, and text must be blank. -/
def place (b : Builder) (p : Piece) : Except Error Builder :=
  match b.frames, p with
  | f :: outer, p => .ok { b with frames := f.absorb p :: outer }
  | [], .text s => if Text.allBlank s then .ok b else .error .textOutsideRoot
  | [], .child n =>
    if b.root.isSome then .error (.multipleRoots n.tag) else .ok { b with root := some n }

/-- Takes a content, piece by piece. -/
def placeAll (b : Builder) (ps : List Piece) : Except Error Builder := ps.foldlM place b

theorem placeAll_cons (b : Builder) (p : Piece) (ps : List Piece) :
    b.placeAll (p :: ps) = b.place p >>= fun b' => b'.placeAll ps := List.foldlM_cons

theorem placeAll_concat (b : Builder) (ps : List Piece) (p : Piece) :
    b.placeAll (ps ++ [p]) = b.placeAll ps >>= fun b' => b'.place p := by
  rw [placeAll, List.foldlM_append]
  simp only [List.foldlM_cons, List.foldlM_nil, bind_pure]
  rfl

/-- Inside of an open element a content is collected by its frame. -/
theorem placeAll_inside (f : Frame) (outer : List Frame) (root : Option Node) (ps : List Piece) :
    placeAll ⟨f :: outer, root⟩ ps = .ok ⟨f.absorbAll ps :: outer, root⟩ := by
  induction ps generalizing f with
  | nil => rfl
  | cons p ps ih => exact ih (f.absorb p)

/-- Outside of all elements the builder stays there. -/
theorem frames_of_place {b b' : Builder} {p : Piece} (outside : b.frames = [])
    (h : b.place p = .ok b') : b'.frames = [] := by
  obtain ⟨frames, root⟩ := b
  cases outside
  cases p with
  | text s =>
    by_cases blank : Text.allBlank s = true
    · cases (if_pos blank).symm.trans h
      rfl
    · cases (if_neg blank).symm.trans h
  | child n =>
    cases root <;> cases h
    rfl

theorem push_eq_place (b : Builder) (s : List Char) : b.push s = b.place (.text s) := by
  obtain ⟨frames, root⟩ := b
  cases frames <;> rfl

theorem take_empty_eq_place (b : Builder) (position : Nat) (name : List Char) :
    b.take position (.empty name) = b.place (.child (Node.new (String.ofList name))) := by
  obtain ⟨frames, root⟩ := b
  cases frames with
  | cons f outer => rfl
  | nil => cases root <;> rfl

/-- An element is taken as one piece, its start tag, its content and its end tag together. -/
theorem takeAll_element (b : Builder) (position position' : Nat) (name : List Char)
    {inner : List (Nat × Event)} {qs : List Piece}
    (hinner : ∀ b : Builder, b.takeAll inner = b.placeAll qs) :
    b.takeAll ((position, .opened name) :: inner ++ [(position', .closed name)]) =
      b.place (.child (Node.ofPieces (String.ofList name) qs)) := by
  obtain ⟨frames, root⟩ := b
  -- The content is taken by a frame of its own, whatever the builder held before.
  have content : ∀ outer : List Frame,
      takeAll ⟨Frame.start (String.ofList name) :: outer, root⟩
        (inner ++ [(position', .closed name)]) =
        .ok (attach ⟨outer, root⟩ (Node.ofPieces (String.ofList name) qs)) := by
    intro outer
    rw [takeAll_append, hinner, placeAll_inside, ← Frame.close_absorbAll]
    rfl
  rw [List.cons_append, takeAll_cons]
  cases frames with
  | cons f outer => exact content (f.flush :: outer)
  | nil =>
    cases root with
    | none => exact content []
    | some n => rfl

/-- **The builder takes a run of events as the content that it is.** -/
theorem takeAll_eq_placeAll {run : List (Nat × Event)} {ps : List Piece} (h : Contains run ps)
    (b : Builder) : b.takeAll run = b.placeAll ps := by
  induction h generalizing b with
  | nil => rfl
  | text decoded _ ih =>
    rw [takeAll_cons, placeAll_cons, ← push_eq_place]
    simp only [take, decoded, ih]
  | data _ ih =>
    rw [takeAll_cons, placeAll_cons, ← push_eq_place]
    simp only [take, ih]
  | silent _ ih => exact ih b
  | empty _ ih =>
    rw [takeAll_cons, placeAll_cons, take_empty_eq_place]
    simp only [ih]
  | @element position position' name inner run qs ps _ _ ihInner ih =>
    have split : (position, Event.opened name) :: inner ++ (position', .closed name) :: run =
        ((position, .opened name) :: inner ++ [(position', .closed name)]) ++ run := by simp
    rw [split, takeAll_append, takeAll_element b position position' name ihInner, placeAll_cons]
    simp only [ih]

/-- Outside of all elements blank text is dropped, and a child is kept as long as it is the only
one. -/
theorem placeAll_outside_iff (root root' : Option Node) (ps : List Piece) :
    placeAll ⟨[], root⟩ ps = .ok ⟨[], root'⟩ ↔
      root.toList ++ Piece.children ps = root'.toList ∧
        ∀ s ∈ Piece.texts ps, Text.allBlank s = true := by
  induction ps generalizing root with
  | nil => cases root <;> cases root' <;> simp [placeAll, pure, Except.pure]
  | cons p ps ih =>
    rw [placeAll_cons]
    cases p with
    | text s =>
      by_cases blank : Text.allBlank s = true
      · rw [show place ⟨[], root⟩ (.text s) = .ok ⟨[], root⟩ from if_pos blank]
        refine (ih root).trans ?_
        simp [blank]
      · rw [show place ⟨[], root⟩ (.text s) = .error .textOutsideRoot from if_neg blank]
        simp [blank, bind, Except.bind]
    | child n =>
      cases root with
      | none => exact (ih (some n)).trans (by simp)
      | some first => cases root' <;> simp [place, bind, Except.bind]

/-- A run that writes a document leaves its root element behind. -/
theorem takeAll_start_of_isDocument {run : List (Nat × Event)} {root : Node}
    (h : IsDocument run root) : start.takeAll run = .ok ⟨[], some root⟩ := by
  obtain ⟨ps, contains, one, blank⟩ := h
  rw [takeAll_eq_placeAll contains]
  exact (placeAll_outside_iff none (some root) ps).mpr ⟨one, blank⟩

/-! ## What the builder has read -/

/-- What the builder holds behind a run of events: outside of all elements a content, and behind
the start tag of an open element the content of that element so far. -/
inductive Holds : List (Nat × Event) → Builder → Prop where
  | outside {run : List (Nat × Event)} {ps : List Piece} {b : Builder} :
    Contains run ps → start.placeAll ps = .ok b → b.frames = [] → Holds run b
  | inside {run inner : List (Nat × Event)} {b b' : Builder} {position : Nat} {name : List Char}
    {ps : List Piece} :
    Holds run b → b.beginChild (String.ofList name) = .ok b' → Contains inner ps →
    Holds (run ++ (position, .opened name) :: inner)
      ⟨(Frame.start (String.ofList name)).absorbAll ps :: b'.frames, b'.root⟩

theorem holds_start : Holds [] start := .outside .nil rfl rfl

/-- A content that is one piece goes to where the builder is. -/
theorem Holds.append {run piece : List (Nat × Event)} {b b' : Builder} {p : Piece}
    (h : Holds run b) (hp : Contains piece [p]) (placed : b.place p = .ok b') :
    Holds (run ++ piece) b' := by
  cases h with
  | @outside _ ps _ contains all outside =>
    refine .outside (contains.append hp) ?_ (frames_of_place outside placed)
    rw [placeAll_concat, all]
    exact placed
  | @inside run inner b₀ b₁ position name ps before begins contains =>
    cases placed
    rw [List.append_assoc, List.cons_append]
    have more : Holds (run ++ (position, .opened name) :: (inner ++ piece)) _ :=
      .inside before begins (contains.append hp)
    rwa [Frame.absorbAll_append] at more

/-- An event that is no part of a content changes nothing. -/
theorem Holds.append_silent {run : List (Nat × Event)} {b : Builder} (h : Holds run b)
    (position : Nat) : Holds (run ++ [(position, .silent)]) b := by
  have silent : Contains [(position, .silent)] [] := .silent .nil
  cases h with
  | outside contains all outside =>
    have more := contains.append silent
    rw [List.append_nil] at more
    exact .outside more all outside
  | inside before begins contains =>
    have more := contains.append silent
    rw [List.append_nil] at more
    rw [List.append_assoc, List.cons_append]
    exact .inside before begins more

/-- The end tag of an element makes one piece of the element, which goes to where the element
began. -/
theorem Holds.append_closed {run inner : List (Nat × Event)} {b b' : Builder}
    {position position' : Nat} {name : List Char} {ps : List Piece} (before : Holds run b)
    (begins : b.beginChild (String.ofList name) = .ok b') (contains : Contains inner ps) :
    Holds (run ++ (position, .opened name) :: inner ++ [(position', .closed name)])
      (attach b' ((Frame.start (String.ofList name)).absorbAll ps).close) := by
  have element : Contains ((position, .opened name) :: inner ++ [(position', .closed name)])
      [.child (Node.ofPieces (String.ofList name) ps)] := .element contains .nil
  rw [List.append_assoc]
  refine before.append element ?_
  rw [← takeAll_element b position position' name (takeAll_eq_placeAll contains), List.cons_append,
    takeAll_cons, Builder.take, begins]
  change takeAll ⟨_ :: b'.frames, b'.root⟩ _ = _
  rw [takeAll_append, takeAll_eq_placeAll contains, placeAll_inside]
  rfl

theorem Holds.take {run : List (Nat × Event)} {b b' : Builder} {e : Nat × Event}
    (h : Holds run b) (matching : e.2.Matches (openBehind run))
    (taken : b.take e.1 e.2 = .ok b') : Holds (run ++ [e]) b' := by
  obtain ⟨position, e⟩ := e
  cases e with
  | text written =>
    cases decoded : decode written with
    | error fault => simp [Builder.take, decoded] at taken
    | ok s =>
      simp only [Builder.take, decoded, push_eq_place] at taken
      exact h.append (.text decoded .nil) taken
  | data s =>
    simp only [Builder.take, push_eq_place] at taken
    exact h.append (.data .nil) taken
  | opened name =>
    simp only [Builder.take] at taken
    cases begins : b.beginChild (String.ofList name) with
    | error error => rw [begins] at taken; cases taken
    | ok b₁ =>
      rw [begins] at taken
      cases taken
      exact .inside h begins .nil
  | empty name =>
    rw [take_empty_eq_place] at taken
    exact h.append (.empty .nil) taken
  | silent =>
    cases taken
    exact h.append_silent position
  | closed name =>
    cases h with
    | outside contains all outside =>
      -- No element is open, so no end tag can match.
      have := matching name rfl
      rw [openBehind, contains.openNames_eq] at this
      cases this
    | @inside run inner b₀ b₁ _ opened ps before begins contains =>
      have := matching name rfl
      rw [openBehind, Markup.openNames_append] at this
      change (openNames (opened :: openNames [] run) inner).head? = _ at this
      rw [contains.openNames_eq] at this
      cases this
      cases taken
      exact before.append_closed begins contains

/-- **The builder holds what it has read**, behind every run of events that it takes. -/
theorem holds_of_takeAll {run : List (Nat × Event)} {b : Builder} (matched : Matched [] run)
    (taken : start.takeAll run = .ok b) : Holds run b := by
  induction run using List.reverseRecOn generalizing b with
  | nil =>
    cases taken
    exact holds_start
  | append_singleton run e ih =>
    rw [takeAll_concat] at taken
    cases before : start.takeAll run with
    | error error => rw [before] at taken; cases taken
    | ok b₀ =>
      rw [before] at taken
      exact (ih matched.of_append before).take (matched run e [] rfl) taken

/-- A run leaves a root element behind exactly if it writes a document. -/
theorem takeAll_eq_iff_isDocument {run : List (Nat × Event)} (matched : Matched [] run)
    (root : Node) : start.takeAll run = .ok ⟨[], some root⟩ ↔ IsDocument run root := by
  refine ⟨fun taken => ?_, takeAll_start_of_isDocument⟩
  cases holds_of_takeAll matched taken with
  | @outside _ ps _ contains all _ =>
    obtain ⟨one, blank⟩ := (placeAll_outside_iff none (some root) ps).mp all
    exact ⟨ps, contains, one, blank⟩

end Builder

/-- **A document is what is built**, and nothing else is: the root element is read off the run. -/
theorem conclude_eq_ok_iff {trace : Trace} (matched : Matched [] trace.events) (root : Node) :
    conclude Builder.start trace = .ok root ↔
      trace.fault? = none ∧ IsDocument trace.events root := by
  rw [conclude, ← Builder.takeAll_eq_iff_isDocument matched]
  cases Builder.start.takeAll trace.events with
  | error error => simp
  | ok b =>
    obtain ⟨frames, root'⟩ := b
    cases trace.fault? with
    | some fault => simp
    | none => cases frames <;> cases root' <;> simp [Builder.finish]

end TreeQuery.Document

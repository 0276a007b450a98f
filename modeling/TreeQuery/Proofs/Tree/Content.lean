import TreeQuery.Proofs.Text.Pieces
import TreeQuery.Tree.Builder

/-!
# The content of an element

What stands between the tags of an element is a sequence of texts and child elements.  Texts that
no child separates are one run, and the element that a content makes has the children in order and
as its text the first run that is not blank (`Node.ofPieces`).  How a run is divided into texts does
not matter (`Alike`).

A frame collects the same content piece by piece, without keeping it: `Frame.close_absorbAll` says
that it ends with the same element.
-/

namespace TreeQuery

/-- A piece of the content of an element. -/
inductive Piece where
  /-- Decoded text. -/
  | text (s : List Char)
  /-- A child element. -/
  | child (n : Node)

namespace Piece

/-- The child element that a piece is. -/
def child? : Piece → Option Node
  | .text _ => none
  | .child n => some n

/-- The text that a piece is. -/
def text? : Piece → Option (List Char)
  | .text s => some s
  | .child _ => none

/-- The child elements of a content, in order. -/
def children (ps : List Piece) : List Node := ps.filterMap child?

/-- The texts of a content, in order. -/
def texts (ps : List Piece) : List (List Char) := ps.filterMap text?

/-- The runs of text of a content: one before each child, and one behind the last. -/
def runs : List Piece → List (List Char)
  | [] => [[]]
  | .child _ :: ps => [] :: runs ps
  | .text s :: ps => match runs ps with
    | [] => [s]
    | run :: later => (s ++ run) :: later

/-- The text of an element with the given runs: the first that is not blank, collapsed. -/
def textOf (runs : List (List Char)) : Option String :=
  (runs.find? fun run => !Text.allBlank run).map fun run => String.ofList (Text.collapse run)

end Piece

/-- The element with a tag and a content. -/
def Node.ofPieces (tag : String) (ps : List Piece) : Node :=
  ⟨tag, Piece.children ps, Piece.textOf (Piece.runs ps)⟩

namespace Piece

variable (s : List Char) (n : Node) (ps : List Piece)

@[simp] theorem children_nil : children [] = [] := rfl

@[simp] theorem children_text_cons : children (.text s :: ps) = children ps := rfl

@[simp] theorem children_child_cons : children (.child n :: ps) = n :: children ps := rfl

@[simp] theorem texts_nil : texts [] = [] := rfl

@[simp] theorem texts_text_cons : texts (.text s :: ps) = s :: texts ps := rfl

@[simp] theorem texts_child_cons : texts (.child n :: ps) = texts ps := rfl

theorem children_append (ps qs : List Piece) : children (ps ++ qs) = children ps ++ children qs :=
  List.filterMap_append

theorem texts_append (ps qs : List Piece) : texts (ps ++ qs) = texts ps ++ texts qs :=
  List.filterMap_append

/-! ## Runs -/

theorem runs_ne_nil (ps : List Piece) : runs ps ≠ [] := by
  cases ps with
  | nil => exact List.cons_ne_nil _ _
  | cons p ps =>
    cases p with
    | child n => exact List.cons_ne_nil _ _
    | text s =>
      rw [runs]
      split <;> exact List.cons_ne_nil _ _

theorem runs_text_cons {ps : List Piece} {run : List Char} {later : List (List Char)}
    (h : runs ps = run :: later) (s : List Char) :
    runs (.text s :: ps) = (s ++ run) :: later := by
  rw [runs, h]

/-- The last run of a content goes on where more content follows. -/
theorem runs_append {ps qs : List Piece} {ended : List (List Char)} {last first : List Char}
    {later : List (List Char)} (hps : runs ps = ended ++ [last]) (hqs : runs qs = first :: later) :
    runs (ps ++ qs) = ended ++ (last ++ first) :: later := by
  induction ps generalizing ended last with
  | nil =>
    have ends : [] ++ [[]] = ended ++ [last] := hps
    obtain ⟨rfl, h⟩ := List.append_inj' ends rfl
    rw [List.singleton_inj.mp h.symm]
    exact hqs
  | cons p ps ih =>
    obtain ⟨ended', last', h⟩ : ∃ ended' last', runs ps = ended' ++ [last'] :=
      ⟨_, _, (List.dropLast_concat_getLast (runs_ne_nil ps)).symm⟩
    have next := ih h
    cases p with
    | child n =>
      rw [runs, h, ← List.cons_append] at hps
      obtain ⟨rfl, h'⟩ := List.append_inj' hps rfl
      rw [List.cons_append, runs, next, List.singleton_inj.mp h']
      rfl
    | text s =>
      rw [List.cons_append]
      -- The text goes to the first run of what follows, which may be the last one as well.
      cases ended' with
      | nil =>
        have ends : [] ++ [s ++ last'] = ended ++ [last] := (runs_text_cons h s).symm.trans hps
        obtain ⟨rfl, h'⟩ := List.append_inj' ends rfl
        rw [runs_text_cons next, ← List.singleton_inj.mp h']
        simp
      | cons run others =>
        have ends : (s ++ run) :: others ++ [last'] = ended ++ [last] :=
          (runs_text_cons h s).symm.trans hps
        obtain ⟨rfl, h'⟩ := List.append_inj' ends rfl
        rw [runs_text_cons next, ← List.singleton_inj.mp h']
        rfl

theorem runs_concat_text {ps : List Piece} {ended : List (List Char)} {last : List Char}
    (h : runs ps = ended ++ [last]) (s : List Char) :
    runs (ps ++ [.text s]) = ended ++ [last ++ s] := by
  have one : runs [.text s] = [s] := by simp [runs]
  exact runs_append h one

theorem runs_concat_child {ps : List Piece} {ended : List (List Char)} {last : List Char}
    (h : runs ps = ended ++ [last]) (n : Node) :
    runs (ps ++ [.child n]) = ended ++ [last] ++ [[]] := by
  have two : runs [.child n] = [[], []] := rfl
  rw [runs_append h two]
  simp

/-- One more run is the text only if the earlier ones are blank. -/
theorem textOf_concat (ended : List (List Char)) (run : List Char) :
    textOf (ended ++ [run]) = (textOf ended).or
      (if Text.allBlank run then none else some (String.ofList (Text.collapse run))) := by
  rw [textOf, List.find?_append, textOf]
  cases ended.find? fun run => !Text.allBlank run with
  | some first => rfl
  | none =>
    by_cases h : Text.allBlank run = true
    · simp [h]
    · simp [h]

/-! ## Contents with the same runs -/

/-- Whether two contents have the same children and the same runs between them.  One run may be
divided into texts in many ways. -/
structure Alike (ps qs : List Piece) : Prop where
  children_eq : children ps = children qs
  runs_eq : runs ps = runs qs

namespace Alike

variable {ps qs ps' qs' : List Piece}

theorem refl (ps : List Piece) : Alike ps ps := ⟨rfl, rfl⟩

theorem symm (h : Alike ps qs) : Alike qs ps := ⟨h.children_eq.symm, h.runs_eq.symm⟩

theorem trans {rs : List Piece} (h : Alike ps qs) (h' : Alike qs rs) : Alike ps rs :=
  ⟨h.children_eq.trans h'.children_eq, h.runs_eq.trans h'.runs_eq⟩

theorem append (h : Alike ps ps') (h' : Alike qs qs') : Alike (ps ++ qs) (ps' ++ qs') := by
  constructor
  · rw [children_append, children_append, h.children_eq, h'.children_eq]
  · obtain ⟨ended, last, hps⟩ : ∃ ended last, runs ps = ended ++ [last] :=
      ⟨_, _, (List.dropLast_concat_getLast (runs_ne_nil ps)).symm⟩
    obtain ⟨first, later, hqs⟩ := List.exists_cons_of_ne_nil (runs_ne_nil qs)
    rw [runs_append hps hqs, runs_append (h.runs_eq ▸ hps) (h'.runs_eq ▸ hqs)]

/-- Texts side by side are one text. -/
theorem text_text (s t : List Char) : Alike [.text (s ++ t)] [.text s, .text t] :=
  ⟨rfl, by simp [runs]⟩

theorem text_nil : Alike [] [.text []] := ⟨rfl, rfl⟩

theorem text_nil_cons (ps : List Piece) : Alike (.text [] :: ps) ps :=
  text_nil.symm.append (refl ps)

theorem ofPieces_eq (h : Alike ps qs) (tag : String) :
    Node.ofPieces tag ps = Node.ofPieces tag qs := by
  rw [Node.ofPieces, Node.ofPieces, h.children_eq, h.runs_eq]

end Alike

/-- The runs of a content are blank exactly if its texts are. -/
theorem blank_runs_iff (ps : List Piece) :
    (∀ run ∈ runs ps, Text.allBlank run = true) ↔ ∀ s ∈ texts ps, Text.allBlank s = true := by
  induction ps with
  | nil => simp [runs, Text.allBlank]
  | cons p ps ih =>
    cases p with
    | child n => simpa [runs, Text.allBlank] using ih
    | text s =>
      obtain ⟨run, later, h⟩ := List.exists_cons_of_ne_nil (runs_ne_nil ps)
      rw [h, List.forall_mem_cons] at ih
      rw [runs_text_cons h, texts_text_cons, List.forall_mem_cons, List.forall_mem_cons, ← ih,
        Text.allBlank, List.all_append, Bool.and_eq_true, and_assoc]
      rfl

/-! ## Contents without text of their own -/

/-- Whether a content has the given children and nothing but blank text beside them. -/
structure OnlyChildren (ps : List Piece) (ns : List Node) : Prop where
  children_eq : children ps = ns
  blank : ∀ s ∈ texts ps, Text.allBlank s = true

namespace OnlyChildren

variable {ps qs : List Piece} {ns ms : List Node}

theorem nil : OnlyChildren [] [] := ⟨rfl, fun _ h => nomatch h⟩

theorem append (h : OnlyChildren ps ns) (h' : OnlyChildren qs ms) :
    OnlyChildren (ps ++ qs) (ns ++ ms) := by
  refine ⟨?_, ?_⟩
  · rw [children_append, h.children_eq, h'.children_eq]
  · rw [texts_append]
    exact List.forall_mem_append.mpr ⟨h.blank, h'.blank⟩

theorem concat_text (h : OnlyChildren ps ns) {s : List Char} (blank : Text.allBlank s = true) :
    OnlyChildren (ps ++ [.text s]) ns := by
  have text : OnlyChildren [.text s] [] := ⟨rfl, List.forall_mem_singleton.mpr blank⟩
  rw [← List.append_nil ns]
  exact h.append text

/-- A blank run may be divided in another way, but all its parts are blank. -/
theorem congr (h : OnlyChildren qs ns) (alike : Alike ps qs) : OnlyChildren ps ns := by
  refine ⟨alike.children_eq.trans h.children_eq, ?_⟩
  rw [← blank_runs_iff, alike.runs_eq, blank_runs_iff]
  exact h.blank

/-- An element with such a content has no text. -/
theorem ofPieces_eq (h : OnlyChildren ps ns) (tag : String) :
    Node.ofPieces tag ps = ⟨tag, ns, none⟩ := by
  have none : (runs ps).find? (fun run => !Text.allBlank run) = none := by
    refine List.find?_eq_none.mpr fun run hrun => ?_
    simp [(blank_runs_iff ps).mpr h.blank run hrun]
  rw [Node.ofPieces, h.children_eq, textOf, none]
  rfl

end OnlyChildren

end Piece

/-! ## Collecting a content in a frame -/

namespace Document.Frame

/-- An open element behind one more piece of its content. -/
def absorb (f : Frame) : Piece → Frame
  | .text s => { f with run := s.reverseAux f.run }
  | .child n => { f.flush with children := n :: f.children }

/-- An open element behind a part of its content. -/
def absorbAll (f : Frame) (ps : List Piece) : Frame := ps.foldl absorb f

theorem absorbAll_append (f : Frame) (ps qs : List Piece) :
    f.absorbAll (ps ++ qs) = (f.absorbAll ps).absorbAll qs := List.foldl_append

/-- What a frame keeps of a tag and the content behind it. -/
structure Holds (f : Frame) (tag : String) (ps : List Piece) : Prop where
  tag_eq : f.tag = tag
  children_eq : f.children = (Piece.children ps).reverse
  text_eq : ∃ ended, Piece.runs ps = ended ++ [f.run.reverse] ∧ f.text = Piece.textOf ended

theorem holds_start (tag : String) : (start tag).Holds tag [] := ⟨rfl, rfl, [], rfl, rfl⟩

/-- A run that ends becomes the text if there is none yet and it is not blank. -/
theorem text_flush {f : Frame} {ended : List (List Char)} (h : f.text = Piece.textOf ended) :
    f.flush.text = Piece.textOf (ended ++ [f.run.reverse]) := by
  rw [Piece.textOf_concat, ← h, flush]
  have blank := Text.collapse_eq_nil_iff f.run.reverse
  cases f.text with
  | some text => rfl
  | none =>
    by_cases hb : Text.allBlank f.run.reverse = true
    · simp [hb, blank.mpr hb]
    · have : Text.collapse f.run.reverse ≠ [] := fun h => hb (blank.mp h)
      simp [hb, this]

theorem Holds.absorb {f : Frame} {tag : String} {ps : List Piece} (h : f.Holds tag ps)
    (p : Piece) : (f.absorb p).Holds tag (ps ++ [p]) := by
  obtain ⟨ended, hruns, htext⟩ := h.text_eq
  cases p with
  | text s =>
    refine ⟨h.tag_eq, ?_, ended, ?_, htext⟩
    · rw [Piece.children_append, List.reverse_append, Frame.absorb, h.children_eq]
      rfl
    · rw [Piece.runs_concat_text hruns, Frame.absorb, List.reverseAux_eq, List.reverse_append,
        List.reverse_reverse]
  | child n =>
    refine ⟨h.tag_eq, ?_, _, Piece.runs_concat_child hruns n, text_flush htext⟩
    rw [Frame.absorb, h.children_eq, Piece.children_append, List.reverse_append]
    rfl

theorem holds_absorbAll {f : Frame} {tag : String} {ps : List Piece} (h : f.Holds tag ps)
    (qs : List Piece) : (f.absorbAll qs).Holds tag (ps ++ qs) := by
  induction qs generalizing f ps with
  | nil => rwa [List.append_nil]
  | cons q qs ih =>
    have next := ih (h.absorb q)
    rwa [List.append_assoc] at next

/-- **A frame ends with the element that its content makes.** -/
theorem close_absorbAll (tag : String) (ps : List Piece) :
    ((start tag).absorbAll ps).close = Node.ofPieces tag ps := by
  have h := holds_absorbAll (holds_start tag) ps
  rw [List.nil_append] at h
  obtain ⟨ended, hruns, htext⟩ := h.text_eq
  rw [close, Node.ofPieces, hruns, ← text_flush htext]
  simp only [flush, h.tag_eq, h.children_eq, List.reverse_reverse]

end Document.Frame

end TreeQuery

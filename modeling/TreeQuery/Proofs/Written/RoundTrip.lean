import TreeQuery.Document
import TreeQuery.Proofs.Document.Nesting
import TreeQuery.Proofs.Written.Reading
import TreeQuery.Proofs.Written.Source

/-!
# Documents are read as they were written

`Delivers` composes: a reader that has written text ahead reads a run of events with the content
that was written, and has the rest ahead.  Texts that stand side by side are read as one, so a text
is carried along until markup begins or the document ends, and contents are compared up to how
their runs are divided.

`parse_written` is the whole: the tree of a written document is the tree that it denotes.
-/

namespace TreeQuery.Written

open Document (Contains IsDocument Builder)
open Markup (Reader Event decode isGap)
open Markup.Reader (EndsText endsText_nil endsText_cons)
open Piece (Alike)

/-! ## Delivered contents -/

/-- Whether a reader reads a content up to a given text. -/
def Delivers (r : Reader) (qs : List Piece) (s : List Char) : Prop :=
  ∃ run ps r', r.Reads run r' ∧ Contains run ps ∧ Alike ps qs ∧ r'.Ahead s

namespace Delivers

variable {r : Reader} {s t : List Char} {ps qs : List Piece}

theorem nil (h : r.Ahead s) : Delivers r [] s := ⟨[], [], r, .nil r, .nil, .refl [], h⟩

theorem congr (h : Delivers r ps s) (same : Alike ps qs) : Delivers r qs s := by
  obtain ⟨run, ps', r', reads, contains, alike, ahead⟩ := h
  exact ⟨run, ps', r', reads, contains, alike.trans same, ahead⟩

/-- The reader behind a content has the same elements open. -/
theorem append (h : Delivers r ps s)
    (h' : ∀ r' : Reader, r'.opened = r.opened → r'.Ahead s → Delivers r' qs t) :
    Delivers r (ps ++ qs) t := by
  obtain ⟨run, ps', r', reads, contains, alike, ahead⟩ := h
  have same : r'.opened = r.opened := reads.opened_eq.trans (contains.openNames_eq r.opened)
  obtain ⟨later, qs', r'', reads', contains', alike', ahead'⟩ := h' r' same ahead
  exact ⟨run ++ later, ps' ++ qs', r'', reads.append reads', contains.append contains',
    alike.append alike', ahead'⟩

theorem of_event {e : Event} (h : r.Yields e s)
    (contains : ∀ position, Contains [(position, e)] ps) : Delivers r ps s := by
  obtain ⟨r', next, ahead⟩ := h
  exact ⟨_, ps, r', .cons next (.nil r'), contains _, .refl ps, ahead⟩

/-- Text that is not there is not read. -/
theorem of_text {written text : List Char} (h : r.Ahead (written ++ s))
    (free : ∀ c ∈ written, c ≠ '<') (decodes : decode written = .ok text) (ends : EndsText s) :
    Delivers r [.text text] s := by
  by_cases empty : written = []
  · -- No event is read; the text is empty too.
    subst empty
    cases decodes
    exact (Delivers.nil h).congr .text_nil
  · exact .of_event (Reader.yields_text h empty free ends) fun _ => .text decodes .nil

/-- Between the tags of an element its content is read, with the element open. -/
theorem element {name : List Char} (starts : r.Yields (.opened name) s)
    (content : ∀ r' : Reader, r'.opened = name :: r.opened → r'.Ahead s → Delivers r' qs t)
    {u : List Char}
    (ends : ∀ r' : Reader, r'.opened = name :: r.opened → r'.Ahead t → r'.Yields (.closed name) u) :
    Delivers r [.child (Node.ofPieces (String.ofList name) qs)] u := by
  obtain ⟨r₁, next, ahead⟩ := starts
  have opened : r₁.opened = name :: r.opened := (Reader.keeps_next next).1
  obtain ⟨run, ps, r₂, reads, contains, alike, ahead'⟩ := content r₁ opened ahead
  have same : r₂.opened = name :: r.opened :=
    (reads.opened_eq.trans (contains.openNames_eq _)).trans opened
  obtain ⟨r₃, next', ahead''⟩ := ends r₂ same ahead'
  refine ⟨_, _, r₃, .append (.cons next reads) (.cons next' (.nil r₃)),
    .element contains .nil, ?_, ahead''⟩
  rw [alike.ofPieces_eq]
  exact .refl _

/-- Behind a text an item is read, and behind the item no text is carried along. -/
theorem text_item {text : List Char} {u : List Char} (first : Delivers r [.text text] s)
    (item : ∀ r' : Reader, r'.Ahead s → Delivers r' ps t)
    (rest : ∀ r' : Reader, r'.Ahead t → Delivers r' (.text [] :: qs) u) :
    Delivers r (.text text :: (ps ++ qs)) u :=
  first.append fun r₁ _ ahead =>
    (item r₁ ahead).append fun r₂ _ ahead' => (rest r₂ ahead').congr (.text_nil_cons qs)

end Delivers

/-! ## Contents -/

variable {r : Reader} {s : List Char}

theorem Data.delivers (d : Data) (h : r.Ahead (d.section ++ s)) :
    Delivers r [.text d.written] s := by
  rw [Data.section] at h
  refine .of_event (yields_data d ?_) fun _ => .data .nil
  simpa using h

theorem Aside.yields (a : Aside) (h : r.Ahead (a.written ++ s)) : r.Yields .silent s := by
  cases a with
  | comment c =>
    refine yields_comment c ?_
    simpa [Aside.written] using h
  | instruction i =>
    refine yields_instruction i ?_
    simpa [Aside.written] using h

theorem Aside.delivers (a : Aside) (h : r.Ahead (a.written ++ s)) : Delivers r [] s :=
  .of_event (a.yields h) fun _ => .silent .nil

theorem Aside.endsText (a : Aside) (s : List Char) : EndsText (a.written ++ s) := by
  cases a <;> exact endsText_cons _

theorem Element.endsText (e : Element) (s : List Char) : EndsText (e.written ++ s) := by
  cases e <;> rw [Element.written] <;> exact endsText_cons _

theorem delivers_letters (ls : List Letter) (h : r.Ahead (written ls ++ s)) (ends : EndsText s) :
    Delivers r [.text (chars ls)] s :=
  .of_text h (fun _ => ne_of_mem_written) (decode_written ls) ends

mutual

/-- **An element is read as the tree that it denotes.** -/
theorem Element.delivers (e : Element) (r : Reader) (s : List Char)
    (h : r.Ahead (e.written ++ s)) : Delivers r [.child e.tree] s := by
  cases e with
  | empty t a =>
    refine .of_event (yields_emptyTag t a ?_) fun _ => .empty .nil
    simpa [Element.written] using h
  | full t a content g =>
    have starts := yields_startTag t a (r := r)
      (s := content.written ++ '<' :: '/' :: (t.name ++ (g.written ++ '>' :: s)))
      (by simpa [Element.written] using h)
    refine .element starts (t := '<' :: '/' :: (t.name ++ (g.written ++ '>' :: s)))
      (fun r' _ ahead => ?_) fun r' opened ahead => yields_endTag t g opened ahead
    exact (content.delivers [] r' _ ahead).congr (.text_nil_cons _)

/-- A content is read behind the letters that were not ended before it. -/
theorem Content.delivers (content : Content) (ls : List Letter) (r : Reader) (s : List Char)
    (h : r.Ahead (written ls ++ (content.written ++ '<' :: s))) :
    Delivers r (.text (chars ls) :: content.pieces) ('<' :: s) := by
  cases content with
  | nil => exact delivers_letters ls h (endsText_cons s)
  | text ls' rest =>
    -- More text may follow, so these letters are carried along too.
    have read := rest.delivers (ls ++ ls') r s (by simpa [Content.written, written] using h)
    rw [chars, List.map_append] at read
    exact read.congr (Alike.append (.text_text _ _) (.refl _))
  | data d rest =>
    rw [Content.written, List.append_assoc] at h
    exact .text_item (delivers_letters ls h (endsText_cons _)) (fun _ ahead => d.delivers ahead)
      fun r' ahead => rest.delivers [] r' s ahead
  | aside a rest =>
    rw [Content.written, List.append_assoc] at h
    exact .text_item (delivers_letters ls h (a.endsText _)) (fun _ ahead => a.delivers ahead)
      fun r' ahead => rest.delivers [] r' s ahead
  | element e rest =>
    rw [Content.written, List.append_assoc] at h
    exact .text_item (delivers_letters ls h (e.endsText _))
      (fun r' ahead => e.delivers r' _ ahead) fun r' ahead => rest.delivers [] r' s ahead

end

/-! ## Around the root element -/

theorem ne_of_blank {s : List Char} (h : Text.allBlank s = true) :
    ∀ c ∈ s, c ≠ '<' ∧ c ≠ '&' ∧ c ≠ '\uFEFF' := by
  intro c hc
  have blank := List.all_eq_true.mp h c hc
  refine ⟨?_, ?_, ?_⟩ <;> rintro rfl <;> exact absurd blank (by decide)

theorem delivers_blank {blank : List Char} (hb : Text.allBlank blank = true)
    (h : r.Ahead (blank ++ s)) (ends : EndsText s) : Delivers r [.text blank] s :=
  .of_text h (fun c hc => (ne_of_blank hb c hc).1)
    (Markup.decode_of_free fun c hc => (ne_of_blank hb c hc).2.1) ends

theorem Doctype.delivers (d : Doctype) (h : r.Ahead ((Misc.doctype d).written ++ s)) :
    Delivers r [] s := by
  refine .of_event (yields_doctype d ?_) fun _ => .silent .nil
  simpa [Misc.written] using h

/-- The blank texts around the root element. -/
def blanks : List Misc → List Piece
  | [] => []
  | .blank s _ :: ms => .text s :: blanks ms
  | _ :: ms => blanks ms

/-- What stands around the root element is read as blank text, behind blank text. -/
theorem delivers_misc (ms : List Misc) {blank : List Char} (hb : Text.allBlank blank = true)
    (h : r.Ahead (blank ++ (miscWritten ms ++ s))) (ends : EndsText s) :
    Delivers r (.text blank :: blanks ms) s := by
  induction ms generalizing r blank with
  | nil => exact delivers_blank hb h ends
  | cons m ms ih =>
    rw [miscWritten, List.flatMap_cons, List.append_assoc] at h
    cases m with
    | blank more hm =>
      have all : Text.allBlank (blank ++ more) = true := by
        rw [Text.allBlank, List.all_append, Bool.and_eq_true]
        exact ⟨hb, hm⟩
      have read := ih all (by simpa [Misc.written, miscWritten] using h)
      exact read.congr (Alike.append (.text_text _ _) (.refl _))
    | aside a =>
      exact .text_item (delivers_blank hb h (a.endsText _)) (fun _ ahead => a.delivers ahead)
        fun _ ahead => ih rfl ahead
    | doctype d =>
      exact .text_item (delivers_blank hb h (endsText_cons _)) (fun _ ahead => d.delivers ahead)
        fun _ ahead => ih rfl ahead

/-- What stands in front of a document does not begin with a byte order mark. -/
theorem head_miscWritten (ms : List Misc) (ends : EndsText s) :
    (miscWritten ms ++ s).head? ≠ some '\uFEFF' := by
  have noMark : ∀ {t : List Char}, EndsText t → t.head? ≠ some '\uFEFF' :=
    fun ends mark => absurd (ends _ mark) (by decide)
  induction ms with
  | nil => exact noMark ends
  | cons m ms ih =>
    rw [miscWritten, List.flatMap_cons, List.append_assoc]
    cases m with
    | blank t ht =>
      cases t with
      | nil => exact ih
      | cons c t =>
        intro mark
        exact (ne_of_blank ht c List.mem_cons_self).2.2 (Option.some.inj mark)
    | aside a => exact noMark (a.endsText _)
    | doctype d => exact noMark (endsText_cons _)

/-! ## Whole documents -/

/-- What is read as one element between blank texts is a document. -/
theorem isDocument_of_alike {run : List (Nat × Event)} {ps qs : List Piece} {root : Node}
    (contains : Contains run ps) (alike : Alike ps qs) (only : Piece.OnlyChildren qs [root]) :
    IsDocument run root :=
  have read := only.congr alike
  ⟨ps, contains, read.children_eq, read.blank⟩

namespace Source

variable (d : Source)

/-- The pieces of a document: its root element between blank texts. -/
def pieces : List Piece :=
  .text [] :: blanks d.prolog ++ (.child d.root.tree :: .text [] :: blanks d.epilog)

theorem delivers {r : Reader} (h : r.Ahead d.body) : Delivers r d.pieces [] := by
  have before : Delivers r (.text [] :: blanks d.prolog) (d.root.written ++ miscWritten d.epilog) :=
    delivers_misc d.prolog rfl h (d.root.endsText _)
  refine before.append fun r₁ _ ahead => ?_
  have root : Delivers r₁ [.child d.root.tree] (miscWritten d.epilog) :=
    d.root.delivers r₁ _ ahead
  refine root.append fun r₂ _ ahead' => ?_
  exact delivers_misc d.epilog rfl (by simpa using ahead') endsText_nil

/-- The reader begins behind the byte order mark, and nothing else begins with one. -/
theorem ahead_ofText : (Reader.ofText d.written).Ahead d.body := by
  rw [written]
  by_cases mark : d.mark = true
  · rw [if_pos mark]
    exact Reader.ahead_ofText_mark d.body
  · rw [if_neg mark]
    exact Reader.ahead_ofText (head_miscWritten d.prolog (d.root.endsText _))

/-- A comment does not end a run of text, and an element does. -/
example :
    let bare : Closed [' ', 'x', '='] := .of_bare (by simp [IsQuote])
    let quoted : Closed ('"' :: (['>'] ++ ['"'])) := .quoted (.inl rfl) (by simp) .nil
    let root : Element :=
      .full ⟨['r'], by simp, by simp [isGap, IsQuote], by simp⟩
        ⟨_, by simp [isGap], bare.append quoted, by simp⟩
        (.text [.plain 'a' (by simp)] (.aside (.comment ⟨['-'], by decide⟩)
          (.text [.reference (.predefined .lt)]
            (.element (.empty ⟨['b'], by simp, by simp [isGap, IsQuote], by simp⟩
                ⟨[], by simp, .nil, by simp⟩)
              (.text [.plain 'c' (by simp)] .nil)))))
        ⟨[' '], by simp [isGap]⟩
    root.written = "<r x=\">\">a<!----->&lt;<b/>c</r >".toList ∧
      root.tree = ⟨"r", [⟨"b", [], none⟩], some "a<"⟩ :=
  ⟨rfl, rfl⟩

end Source

end TreeQuery.Written

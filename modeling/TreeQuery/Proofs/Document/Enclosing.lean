import Mathlib
import TreeQuery.Proofs.Document.Unfinished
import TreeQuery.Proofs.Markup.Within
import TreeQuery.Proofs.Written.RoundTrip

/-!
# Documents inside of an element

A document is markup with blank text in front of it and behind it.  If the markup has its end, it is
read as the same content inside of other elements, whatever follows (`exists_writes`); only the text
around it goes on in the text of its neighbours, and what is blank on both sides is blank together
(`BlankRun.append`).  So documents that stand one behind the other between the tags of an element
are read as their root elements, with nothing but blank text beside them, and the element has
those root elements as its children and no text (`parse_enclosed`).
-/

namespace TreeQuery

open Markup
open Markup.Reader (ofText Reads EndsText)
open Piece (OnlyChildren)
open Written (Delivers)

namespace Markup

variable {w x z : List Char} {run : List (Nat × Event)} {r r₁ r' : Reader} {e : Event}

/-! ## Texts that have their end -/

/-- Whether a text ends inside of markup: a construct begins in it that never comes to its end.  A
`<` with nothing behind it counts too. -/
def Reader.EndsInside (r : Reader) (x : List Char) : Prop :=
  ∃ run r' before s, Reads r run r' ∧ x = before ++ '<' :: s ∧ r'.Ahead ('<' :: s) ∧
    cutOff? s = none

/-- What stands behind a part of a text ends as the text does. -/
theorem Reader.EndsInside.behind (reads : Reads r run r₁) (h : r₁.EndsInside x) (w : List Char) :
    r.EndsInside (w ++ x) := by
  obtain ⟨later, r', before, s, reads', rfl, ahead, unfinished⟩ := h
  exact ⟨run ++ later, r', w ++ before, s, reads.append reads', by simp, ahead, unfinished⟩

/-- Where the reader finishes nothing is left. -/
theorem eq_nil_of_not_endsInside (whole : ¬ r.EndsInside (w ++ z)) (reads : Reads r run r')
    (ahead : r'.Ahead z) (finished : r'.next = .finished) : z = [] := by
  rcases Reader.begins_cases z with rfl | ⟨s, rfl⟩ | ⟨u, x, rfl, nonempty, free, ends⟩
  · rfl
  · obtain rfl := Reader.eq_nil_of_finished ahead finished
    exact absurd ⟨run, r', w, [], reads, rfl, ahead, rfl⟩ whole
  · obtain ⟨r₂, next, -⟩ := Reader.yields_text ahead nonempty free ends
    cases next.symm.trans finished

/-- A construct at the end has its `>`. -/
theorem getLast_of_not_endsInside {v : List Char} (whole : ¬ r.EndsInside (w ++ v))
    (reads : Reads r run r₁) (ahead : r₁.Ahead v) (next : r₁.next = .event e r')
    (construct : ∀ s, e ≠ .text s) (ends : r'.Ahead []) : v.getLast? = some '>' := by
  obtain ⟨r₂, rfl, -, h⟩ := Reader.exists_construct ahead next construct
  cases found : cutOff? r₂.rest with
  | none => exact absurd ⟨run, r₁, w, r₂.rest, reads, rfl, ahead, found⟩ whole
  | some cut =>
    obtain ⟨inner, text⟩ := exists_of_cutOff found
    have rest : [] = r'.rest := Reader.rest_of_ahead ahead next construct ends
    have last : cut.rest = [] := (Reader.rest_of_cutOff h found).symm.trans rest.symm
    rw [text, last, ← List.cons_append, List.getLast?_concat]

/-- **A whole text can be divided** in front of its last run of text, inside of further elements. -/
theorem divides_within (ahead : r.Ahead x) (reads : Reads r run r') (finished : r'.next = .finished)
    (whole : ¬ r.EndsInside x) (outer : List (List Char)) :
    Divides (r.within outer) x (run.map (·.2)) := by
  rcases List.eq_nil_or_concat' run with rfl | ⟨run, last, rfl⟩
  · cases reads
    obtain rfl := eq_nil_of_not_endsInside (w := []) whole (.nil r) ahead finished
    exact divides_nil _
  obtain ⟨r₁, reads₁, next⟩ := reads.exists_of_concat
  have next' : (r₁.within outer).next = .event last.2 (r'.within outer) :=
    Reader.next_within next
  have opened := (reads₁.within outer).opened_eq_foldl
  obtain ⟨w, z, rfl, first⟩ :=
    Reader.takes_of_reads (r := r.within outer) ahead (reads₁.within outer)
  rw [List.map_append, List.map_singleton]
  by_cases isText : ∃ t, last.2 = .text t
  · obtain ⟨t, isText⟩ := isText
    rw [isText] at next' ⊢
    obtain ⟨x', rfl, nonempty, free, ends⟩ := exists_of_next_text first.ahead next'
    have behind := (Reader.takes_text first.ahead nonempty free ends next').ahead
    rw [← List.append_assoc] at whole
    obtain rfl := eq_nil_of_not_endsInside whole reads behind finished
    rw [List.append_nil]
    exact divides_text first nonempty free
  · have construct : ∀ s, last.2 ≠ .text s := fun s eq => isText ⟨s, eq⟩
    obtain ⟨v, x', rfl, second⟩ := Reader.takes_of_next first.ahead next'
    have behind := second.ahead
    rw [← List.append_assoc] at whole
    obtain rfl := eq_nil_of_not_endsInside whole reads behind finished
    rw [List.append_nil] at whole ⊢
    have lastAhead : r₁.Ahead v := List.append_nil v ▸ first.ahead
    have ended := getLast_of_not_endsInside whole reads₁ lastAhead next construct behind
    exact divides_construct first opened next' construct behind (.inr ended)

/-! ## Blank runs -/

/-- Whether a run of text stands for blank text. -/
structure BlankRun (u : List Char) : Prop where
  free : ∀ c ∈ u, c ≠ '<'
  decodes : ∃ s, decode u = .ok s ∧ Text.allBlank s = true

theorem BlankRun.nil : BlankRun [] := ⟨fun _ h => (nomatch h), [], rfl, rfl⟩

theorem BlankRun.append {u v : List Char} (hu : BlankRun u) (hv : BlankRun v) :
    BlankRun (u ++ v) := by
  obtain ⟨s, decodes, blank⟩ := hu.decodes
  obtain ⟨t, decodes', blank'⟩ := hv.decodes
  refine ⟨List.forall_mem_append.mpr ⟨hu.free, hv.free⟩, s ++ t, decode_append decodes decodes', ?_⟩
  rw [Text.allBlank, List.all_append, Bool.and_eq_true]
  exact ⟨blank, blank'⟩

end Markup

namespace Document

variable {outer : List (List Char)} {u v w : List Char} {ns ms : List Node} {root : Node}
  {text : String}

namespace Builder

variable {b b' : Builder} {run : List (Nat × Event)} {s : List Char}

/-- Outside of all elements text is blank, and leaves nothing behind. -/
theorem eq_of_push (outside : b.frames = [] ∨ b'.frames = []) (h : b.push s = .ok b') :
    b' = b ∧ Text.allBlank s = true := by
  obtain ⟨frames, root⟩ := b
  cases frames with
  | nil =>
    by_cases blank : Text.allBlank s = true
    · cases (if_pos blank).symm.trans h
      exact ⟨rfl, blank⟩
    · cases (if_neg blank).symm.trans h
  | cons f others =>
    cases h
    simp at outside

theorem blankRun_of_takeAll (events : run.map (·.2) = textEvents u) (free : ∀ c ∈ u, c ≠ '<')
    (outside : b.frames = [] ∨ b'.frames = []) (taken : b.takeAll run = .ok b') :
    b' = b ∧ BlankRun u := by
  obtain ⟨a, decoded, pushed⟩ := (takeAll_textEvents events).mp taken
  obtain ⟨same, blank⟩ := eq_of_push outside pushed
  exact ⟨same, free, a, decoded, blank⟩

end Builder

/-- A document with a `>` behind its last `<` does not end inside of markup. -/
theorem not_endsInside_of_parse (h : parse text .plain = .ok root) (before s : List Char)
    (split : text.toList = before ++ s) (free : '<' ∉ s) (ended : '>' ∈ s) :
    ¬ (ofText text.toList).EndsInside text.toList := by
  rintro ⟨run, r, front, t, reads, begins, ahead, unfinished⟩
  have inside : '>' ∈ t := by
    rcases List.append_eq_append_iff.mp (split.symm.trans begins) with
      ⟨m, -, text⟩ | ⟨_ | ⟨c, m⟩, -, text⟩
    · simp [text] at free
    · rw [List.nil_append] at text
      simp [← text] at free
    · rw [(List.cons.inj text).2]
      exact List.mem_append_right m ended
  rcases next_of_parse h reads with finished | ⟨e, r', next⟩
  · rw [Reader.eq_nil_of_finished ahead finished] at inside
    cases inside
  · obtain ⟨r₁, next₁, rest, -⟩ := Reader.next_of_ahead ahead
    have plain : BeginsPlain t :=
      rest ▸ Reader.beginsPlain_of_construct (next₁.symm.trans next) (rest ▸ unfinished)
    exact plain.free unfinished inside

/-! ## The markup of a document -/

/-- Whether a text is read, inside of the given elements, as children with nothing but blank text
beside them, whatever follows. -/
def Writes (outer : List (List Char)) (w : List Char) (ns : List Node) : Prop :=
  ∃ ps, OnlyChildren ps ns ∧
    ∀ {r : Reader} {y}, r.opened = outer → r.Ahead (w ++ y) → Delivers r ps y

theorem Writes.nil (outer : List (List Char)) : Writes outer [] [] :=
  ⟨[], .nil, fun _ ahead => .nil ahead⟩

/-- The text in front of a document is blank, and what stands behind it is read as a document by
itself. -/
theorem exists_reads_front (h : parse text .plain = .ok root)
    (unmarked : text.toList.head? ≠ some '\uFEFF') :
    ∃ u x run r, text.toList = u ++ x ∧ BlankRun u ∧ EndsText x ∧
      Reads (ofText text.toList) run r ∧ r.Ahead x ∧ r.opened = [] ∧
      r.trace.fault? = none ∧ IsDocument r.trace.events root := by
  obtain ⟨u, x, split, free, ends⟩ := Reader.exists_free_append text.toList
  have ahead : (ofText text.toList).Ahead (u ++ x) := split ▸ Reader.ahead_ofText unmarked
  obtain ⟨run, r, reads, events, behind, opened⟩ := exists_reads_text ahead free ends
  obtain ⟨b, taken, built⟩ := (parse_eq_ok_iff_of_reads reads).mp h
  obtain ⟨rfl, blank⟩ := Builder.blankRun_of_takeAll events free (.inl rfl) taken
  have outside : r.opened = [] := opened
  rw [build_eq_conclude, conclude_eq_ok_iff (outside ▸ Reader.matched_trace r)] at built
  exact ⟨u, x, run, r, split, blank, ends, reads, behind, outside, built⟩

/-- What is read as a document, up to the blank text behind it, is read as the same root element
inside of other elements. -/
theorem exists_writes_of_isDocument {r : Reader} {x : List Char} (ahead : r.Ahead x)
    (ends : EndsText x) (outside : r.opened = []) (sound : r.trace.fault? = none)
    (doc : IsDocument r.trace.events root) (whole : ¬ r.EndsInside x)
    (outer : List (List Char)) :
    ∃ w v, x = w ++ v ∧ BlankRun v ∧ w.head? = some '<' ∧ Writes outer w [root] := by
  have matched : Matched [] r.trace.events := outside ▸ Reader.matched_trace r
  obtain ⟨r', reads, finished⟩ := Reader.exists_reads_trace sound
  obtain ⟨w, v, es, rfl, free, divided, first, again⟩ :=
    divides_within ahead reads finished whole outer
  obtain ⟨markup, last, parts, same, same'⟩ := List.map_eq_append_iff.mp divided
  rw [parts] at doc matched
  -- The text behind the markup leaves nothing behind, so the markup is a document too.
  obtain ⟨b, taken, taken'⟩ :=
    Builder.takeAll_append_eq_ok_iff.mp (Builder.takeAll_start_of_isDocument doc)
  obtain ⟨rfl, blank⟩ := Builder.blankRun_of_takeAll same' free (.inr rfl) taken'
  obtain ⟨ps, contains, one, blank'⟩ :=
    (Builder.takeAll_eq_iff_isDocument matched.of_append root).mp taken
  refine ⟨w, v, rfl, blank, ?_, ps, ⟨one, blank'⟩, fun {r₂ y} same₂ ahead₂ => ?_⟩
  · rcases w with _ | ⟨c, w⟩
    · -- Without markup there would be no root element.
      obtain rfl := List.map_eq_nil_iff.mp (same.trans (first rfl))
      cases taken
    · rw [ends c rfl]
      rfl
  · have opened₂ : r₂.opened = (r.within outer).opened := by
      rw [same₂, Reader.within_opened, outside, List.nil_append]
    obtain ⟨run₂, r₂', reads₂, events₂, ahead₂'⟩ := again opened₂ ahead₂
    exact ⟨run₂, ps, r₂', reads₂, contains.of_same (events₂.trans same.symm), .refl ps, ahead₂'⟩

/-- **A document is markup between blank runs**, and the markup writes its root element inside of
other elements too. -/
theorem exists_writes (h : parse text .plain = .ok root)
    (unmarked : text.toList.head? ≠ some '\uFEFF')
    (whole : ¬ (ofText text.toList).EndsInside text.toList) (outer : List (List Char)) :
    ∃ u w v, text.toList = u ++ (w ++ v) ∧ BlankRun u ∧ BlankRun v ∧ w.head? = some '<' ∧
      Writes outer w [root] := by
  obtain ⟨u, x, run, r, split, before, ends, reads, ahead, outside, sound, doc⟩ :=
    exists_reads_front h unmarked
  have whole' : ¬ r.EndsInside x := fun inside => whole (split ▸ inside.behind reads u)
  obtain ⟨w, v, rfl, after, begins, writes⟩ :=
    exists_writes_of_isDocument ahead ends outside sound doc whole' outer
  exact ⟨u, w, v, split, before, after, begins, writes⟩

/-! ## Documents side by side -/

/-- A blank run behind markup is read up to other markup. -/
theorem Writes.exists_text (h : Writes outer w ns) (blank : BlankRun u) :
    ∃ ps, OnlyChildren ps ns ∧ ∀ {r : Reader} {y}, r.opened = outer →
      r.Ahead (w ++ (u ++ y)) → EndsText y → Delivers r ps y := by
  obtain ⟨ps, only, content⟩ := h
  obtain ⟨s, decodes, blank'⟩ := blank.decodes
  refine ⟨ps ++ [.text s], only.concat_text blank', fun opened ahead ends => ?_⟩
  exact (content opened ahead).append fun r' _ ahead' => .of_text ahead' blank.free decodes ends

theorem Writes.append (h : Writes outer v ns) (blank : BlankRun u) (h' : Writes outer w ms)
    (begins : w.head? = some '<') : Writes outer (v ++ (u ++ w)) (ns ++ ms) := by
  obtain ⟨ps, only, content⟩ := h.exists_text blank
  obtain ⟨qs, only', content'⟩ := h'
  refine ⟨ps ++ qs, only.append only', fun {r y} opened ahead => ?_⟩
  rw [List.append_assoc, List.append_assoc] at ahead
  have ends : EndsText (w ++ y) := by
    obtain ⟨s, rfl⟩ := List.head?_eq_some_iff.mp begins
    exact Reader.endsText_cons (s ++ y)
  exact (content opened ahead ends).append fun r' same ahead' =>
    content' (same.trans opened) ahead'

/-- **Documents that stand one behind the other write their root elements**, up to a blank run at
the end. -/
theorem Writes.documents {texts : List String} {roots : List Node} (h : Writes outer w ns)
    (blank : BlankRun u)
    (accepted : List.Forall₂ (fun text root => parse text .plain = .ok root) texts roots)
    (unmarked : ∀ text ∈ texts, text.toList.head? ≠ some '\uFEFF')
    (whole : ∀ text ∈ texts, ¬ (ofText text.toList).EndsInside text.toList) :
    ∃ w' u', w ++ (u ++ texts.flatMap String.toList) = w' ++ u' ∧ Writes outer w' (ns ++ roots) ∧
      BlankRun u' := by
  induction accepted generalizing w u ns with
  | nil => exact ⟨w, u, by simp, by simpa using h, blank⟩
  | @cons text root texts roots parsed _ ih =>
    obtain ⟨unmarked₁, unmarked⟩ := List.forall_mem_cons.mp unmarked
    obtain ⟨whole₁, whole⟩ := List.forall_mem_cons.mp whole
    obtain ⟨a, m, z, split, before, after, begins, writes⟩ :=
      exists_writes parsed unmarked₁ whole₁ outer
    -- The blank runs on both sides are read as one.
    obtain ⟨w', u', join, writes', blank'⟩ :=
      ih (h.append (blank.append before) writes begins) after unmarked whole
    refine ⟨w', u', ?_, by simpa using writes', blank'⟩
    rw [← join, List.flatMap_cons, split]
    simp only [List.append_assoc]

/-- What is read as one element between blank texts is parsed as that element. -/
theorem parse_of_delivers {ps : List Piece} (h : Delivers (ofText text.toList) ps [])
    (only : OnlyChildren ps [root]) : parse text .plain = .ok root := by
  obtain ⟨run, ps', r', reads, contains, alike, ahead⟩ := h
  have taken :=
    Builder.takeAll_start_of_isDocument (Written.isDocument_of_alike contains alike only)
  exact (parse_eq_ok_iff_of_reads reads).mpr
    ⟨_, taken, build_of_finished _ (Reader.next_eq_finished ahead)⟩

/-- **Documents between the tags of an element**, one behind the other, are read as their root
elements: these are the children of the element, and it has no text. -/
theorem parse_enclosed (t : Written.Tag) {texts : List String} {roots : List Node}
    (accepted : List.Forall₂ (fun text root => parse text .plain = .ok root) texts roots)
    (unmarked : ∀ text ∈ texts, text.toList.head? ≠ some '\uFEFF')
    (whole : ∀ text ∈ texts, ¬ (ofText text.toList).EndsInside text.toList) :
    parse ("<" ++ String.ofList t.name ++ ">" ++ String.join texts ++
        "</" ++ String.ofList t.name ++ ">") .plain =
      .ok ⟨String.ofList t.name, roots, none⟩ := by
  obtain ⟨w, u, join, writes, blank⟩ :=
    Writes.documents (.nil [t.name]) .nil accepted unmarked whole
  obtain ⟨ps, only, content⟩ := writes.exists_text blank
  -- Neither tag has anything behind its name.
  have text : ("<" ++ String.ofList t.name ++ ">" ++ String.join texts ++
      "</" ++ String.ofList t.name ++ ">").toList = '<' :: (t.name ++ ([] ++ '>' ::
        (w ++ (u ++ '<' :: '/' :: (t.name ++ ([] ++ '>' :: [])))))) := by
    rw [← List.append_assoc w, ← join]
    simp
  refine parse_of_delivers
    (?_ : Delivers _ [.child (Node.ofPieces (String.ofList t.name) ps)] []) ?_
  · have ahead := Reader.ahead_ofText (s := '<' :: (t.name ++ ([] ++ '>' ::
      (w ++ (u ++ '<' :: '/' :: (t.name ++ ([] ++ '>' :: []))))))) (by simp)
    rw [text]
    exact .element (Written.yields_startTag t ⟨[], by simp, .nil, by simp⟩ ahead)
      (fun r' opened ahead' => content opened ahead' (Reader.endsText_cons _))
      fun r' opened ahead' => Written.yields_endTag t ⟨[], by simp⟩ opened ahead'
  · rw [only.ofPieces_eq]
    exact ⟨rfl, fun _ h => nomatch h⟩

/-- What was around a root element stands between its neighbours then, and none of it is text. -/
theorem parse_enclosed_prolog :
    parse "<?x?><!DOCTYPE a><a>1</a >&#32;" .plain = .ok ⟨"a", [], some "1"⟩ ∧
      parse "&#9;<![CDATA[ ]]><b c='>'/><!-- -->" .plain = .ok ⟨"b", [], none⟩ ∧
      parse ("<" ++ "w.1" ++ ">" ++ String.join
          ["<?x?><!DOCTYPE a><a>1</a >&#32;", "&#9;<![CDATA[ ]]><b c='>'/><!-- -->"] ++
          "</" ++ "w.1" ++ ">") .plain =
        .ok ⟨"w.1", [⟨"a", [], some "1"⟩, ⟨"b", [], none⟩], none⟩ := by
  have first : parse "<?x?><!DOCTYPE a><a>1</a >&#32;" .plain = .ok ⟨"a", [], some "1"⟩ := by cbv
  have second : parse "&#9;<![CDATA[ ]]><b c='>'/><!-- -->" .plain = .ok ⟨"b", [], none⟩ := by cbv
  let t : Written.Tag :=
    ⟨['w', '.', '1'], by simp, by simp [isGap, Written.IsQuote], by simp⟩
  have first' := not_endsInside_of_parse first "<?x?><!DOCTYPE a><a>1<".toList
    "/a >&#32;".toList rfl (by decide) (by decide)
  have second' := not_endsInside_of_parse second "&#9;<![CDATA[ ]]><b c='>'/><".toList
    "!-- -->".toList rfl (by decide) (by decide)
  exact ⟨first, second, parse_enclosed t (.cons first (.cons second .nil)) (by decide)
    (List.forall_mem_cons.mpr ⟨first', List.forall_mem_singleton.mpr second'⟩)⟩

end Document

end TreeQuery

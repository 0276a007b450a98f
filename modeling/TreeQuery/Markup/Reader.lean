import TreeQuery.Markup.Construct
import TreeQuery.Markup.Fault

/-!
# Reading markup

A document text is read event by event.  Text runs up to the next `<`; behind a `<` one construct
is cut off and becomes an event.  The reader keeps the names of the open elements, so that an end
tag is refused unless it closes the innermost one.

Positions are byte offsets.  A run of text takes the `<` behind it along, and what is reported of
the run itself is placed one byte before the offset.  An end tag or an instruction at fault is
placed by stepping back over its content; every other report names the offset.

`length_of_next` says that every event makes the unread text shorter, so a text has finitely many
events.
-/

namespace TreeQuery.Markup

/-- An event of a document text. -/
inductive Event where
  /-- A run of text, with its references as written. -/
  | text (run : List Char)
  /-- The content of a character data section. -/
  | data (s : List Char)
  /-- A start tag. -/
  | opened (name : List Char)
  /-- A tag that opens and closes an element. -/
  | empty (name : List Char)
  /-- An end tag, with the name of the element that it closes. -/
  | closed (name : List Char)
  /-- A comment, a processing instruction or a document type declaration. -/
  | silent
deriving Repr, DecidableEq

/-- A document text that has been read up to some point. -/
structure Reader where
  /-- The unread text. -/
  rest : List Char
  /-- The number of bytes that were read. -/
  offset : Nat
  /-- Whether the `<` of the next construct has been read, behind a run of text. -/
  inTag : Bool
  /-- The names of the open elements, the innermost first. -/
  opened : List (List Char)
deriving Repr

namespace Reader

/-- What reading one event gives. -/
inductive Step where
  /-- An event, and the reader behind it. -/
  | event (e : Event) (r : Reader)
  /-- A fault at a byte position. -/
  | fault (position : Nat) (cause : Fault)
  /-- The end of the text. -/
  | finished
deriving Repr

/-- A reader at the beginning of a text.  A byte order mark is skipped and not counted. -/
def ofText (s : List Char) : Reader :=
  let rest := match s with
    | '\uFEFF' :: t => t
    | t => t
  ⟨rest, 0, false, []⟩

/-- The byte position that is reported of a reader. -/
def position (r : Reader) : Nat := if r.inTag then r.offset - 1 else r.offset

/-- The reader behind a construct that was cut off, with its `>` if there was one. -/
def behind (r : Reader) (cut : Cut) (ended : Bool) : Reader :=
  { r with
    rest := cut.rest
    offset := r.offset + Text.byteLength cut.content + (if ended then 1 else 0)
    inTag := false }

/-- Reads a character data section, whose data stands between `<![CDATA[` and `]]>`. -/
def dataSection (r : Reader) : Step :=
  match dataSection? r.rest with
  | none => .fault r.offset (.unfinished .dataSection)
  | some cut =>
    let r' := r.behind cut true
    let content := cut.content.take (cut.content.length - 2)
    if beginsWith ['!', '[', 'C', 'D', 'A', 'T', 'A', '['] content then
      .event (.data (content.drop 8)) r'
    else .fault r'.offset (.unfinished .dataSection)

/-- Reads a comment, which must begin with `<!--`. -/
def comment (r : Reader) : Step :=
  match comment? r.rest with
  | none => .fault r.offset (.unfinished .comment)
  | some cut =>
    let r' := r.behind cut true
    if ['!', '-', '-'].isPrefixOf cut.content then .event .silent r'
    else .fault r'.offset (.unfinished .comment)

/-- Reads a document type declaration, which must begin with `<!DOCTYPE` and declare something. -/
def doctype (r : Reader) : Step :=
  match doctype? r.rest with
  | none => .fault r.offset (.unfinished .doctype)
  | some cut =>
    let r' := r.behind cut true
    if !beginsWith ['!', 'D', 'O', 'C', 'T', 'Y', 'P', 'E'] cut.content then
      .fault r'.offset (.unfinished .doctype)
    else if (cut.content.drop 8).all isGap then .fault r'.offset .emptyDoctype
    else .event .silent r'

/-- Reads what begins with `<!`; the character behind it tells the kind. -/
def declaration (r : Reader) : Step :=
  match r.rest.drop 1 with
  | [] => .fault r.offset (.unfinished .declaration)
  | '[' :: _ => r.dataSection
  | '-' :: _ => r.comment
  | c :: _ =>
    if c == 'D' || c == 'd' then r.doctype
    else .fault r.offset (.unknownDeclaration (leadByte c))

/-- Reads an end tag, which must close the innermost open element. -/
def endTag (r : Reader) : Step :=
  let (cut, ended) := plain r.rest
  let r' := r.behind cut ended
  let written := cut.content.drop 1
  let found := endName written
  match r.opened with
  | [] => .fault (r'.offset - Text.byteLength cut.content) (.mismatchedEnd [] written)
  | expected :: outer =>
    if found == expected then .event (.closed found) { r' with opened := outer }
    else .fault (r'.offset - Text.byteLength cut.content) (.mismatchedEnd expected found)

/-- Reads a processing instruction, which must end with `?>`. -/
def instruction (r : Reader) : Step :=
  let (cut, ended) := plain r.rest
  let r' := r.behind cut ended
  if 2 < cut.content.length && cut.content.getLast? == some '?' then .event .silent r'
  else .fault (r'.offset - Text.byteLength cut.content) (.unfinished .instruction)

/-- Reads a start tag, or a tag that opens and closes an element. -/
def startTag (r : Reader) : Step :=
  match tag? r.rest with
  | none => .fault r.offset (.unfinished .element)
  | some cut =>
    let r' := r.behind cut true
    if cut.content.getLast? == some '/' then
      let name := leadingName cut.content
      let name := if name.length < cut.content.length then name else cut.content.dropLast
      .event (.empty name) r'
    else
      let name := leadingName cut.content
      .event (.opened name) { r' with opened := name :: r.opened }

/-- Reads the construct behind a `<`. -/
def construct (r : Reader) : Step :=
  match r.rest with
  | [] => .finished
  | '!' :: _ => r.declaration
  | '/' :: _ => r.endTag
  | '?' :: _ => r.instruction
  | _ => r.startTag

/-- Reads one event. -/
def next (r : Reader) : Step :=
  if r.inTag then r.construct
  else match r.rest with
    | [] => .finished
    | '<' :: s => construct { r with rest := s, offset := r.offset + 1 }
    | s =>
      let run := s.takeWhile (· != '<')
      let behind := s.dropWhile (· != '<')
      .event (.text run)
        { r with
          rest := behind.drop 1
          offset := r.offset + Text.byteLength run + (if behind.isEmpty then 0 else 1)
          inTag := true }

theorem length_of_declaration {r r' : Reader} {e : Event} (h : r.declaration = .event e r') :
    r'.rest.length < r.rest.length := by
  simp only [declaration] at h
  split at h
  · simp at h
  · simp only [dataSection] at h
    split at h
    · simp at h
    · next cut found =>
      split at h
      · simp only [Step.event.injEq] at h
        exact h.2 ▸ length_of_dataSection found
      · simp at h
  · simp only [comment] at h
    split at h
    · simp at h
    · next cut found =>
      split at h
      · simp only [Step.event.injEq] at h
        exact h.2 ▸ length_of_comment found
      · simp at h
  · split at h
    · simp only [doctype] at h
      split at h
      · simp at h
      · next cut found =>
        split at h
        · simp at h
        · split at h
          · simp at h
          · simp only [Step.event.injEq] at h
            exact h.2 ▸ length_of_doctype found
    · simp at h

theorem length_of_endTag {r r' : Reader} {e : Event} (nonempty : r.rest ≠ [])
    (h : r.endTag = .event e r') : r'.rest.length < r.rest.length := by
  simp only [endTag] at h
  split at h
  · simp at h
  · split at h
    · simp only [Step.event.injEq] at h
      exact h.2 ▸ length_of_plain nonempty
    · simp at h

theorem length_of_instruction {r r' : Reader} {e : Event} (nonempty : r.rest ≠ [])
    (h : r.instruction = .event e r') : r'.rest.length < r.rest.length := by
  simp only [instruction] at h
  split at h
  · simp only [Step.event.injEq] at h
    exact h.2 ▸ length_of_plain nonempty
  · simp at h

theorem length_of_startTag {r r' : Reader} {e : Event} (h : r.startTag = .event e r') :
    r'.rest.length < r.rest.length := by
  simp only [startTag] at h
  split at h
  · simp at h
  · next cut found =>
    split at h
    · simp only [Step.event.injEq] at h
      exact h.2 ▸ length_of_tag found
    · simp only [Step.event.injEq] at h
      exact h.2 ▸ length_of_tag found

theorem length_of_construct {r r' : Reader} {e : Event} (h : r.construct = .event e r') :
    r'.rest.length < r.rest.length := by
  simp only [construct] at h
  split at h
  · simp at h
  · exact length_of_declaration h
  · next eq => exact length_of_endTag (by simp [eq]) h
  · next eq => exact length_of_instruction (by simp [eq]) h
  · exact length_of_startTag h

/-- Every event takes at least one character of the text. -/
theorem length_of_next {r r' : Reader} {e : Event} (h : r.next = .event e r') :
    r'.rest.length < r.rest.length := by
  simp only [next] at h
  split at h
  · exact length_of_construct h
  · split at h
    · simp at h
    · next s eq =>
      have := length_of_construct h
      simp only [eq, List.length_cons] at this ⊢
      omega
    · next nonempty notOpen =>
      simp only [Step.event.injEq] at h
      rw [← h.2]
      have pos : 0 < r.rest.length := List.length_pos_iff.2 nonempty
      have le := (List.dropWhile_suffix (· != '<') (l := r.rest)).length_le
      simp only [List.length_drop]
      omega

end Reader

end TreeQuery.Markup

import TreeQuery.Template.Tag

/-!
# From tags to elements

The blocks that are open at a point of a template form a stack of frames.  Blanks between two
elements are text, with these exceptions.  A `~` takes away all blanks on its side.  A tag that
does not write a value and stands alone on its line takes its line with it: the blanks before it on
the line and the line end behind it are dropped.  The blanks before an insertion are also the
indentation of what is inserted.
-/

namespace TreeQuery.Template

/-- Whether a character is a blank within a line. -/
def isLineBlank (c : Char) : Bool := c == ' ' || c == '\t'

/-- Whether a text has only blanks before its first line end. -/
def beginsWithLineEnd (s : List Char) : Bool :=
  match s.dropWhile isLineBlank with
  | c :: _ => c == '\n' || c == '\r'
  | [] => false

/-- What a frame becomes when it is closed. -/
inductive Owner where
  /-- A block.  Its finished parts, the last one first, are the bodies of the block itself and of
  the blocks behind its `else`; `current` is the block whose body is being read, or nothing in a
  final `else`. -/
  | block (finished : List (Call × List Element)) (current : Option Call)
  /-- A directive with contents. -/
  | directive (call : Call)
  /-- An insertion with contents, and whether its tag stands alone on its line. -/
  | insertion (call : Call) (alone : Bool)

/-- An element that is open, and the elements before it. -/
structure Frame where
  /-- What the open element will be. -/
  owner : Owner
  /-- The elements that stand before it in the same body, the last one first. -/
  before : List Element

/-- A template that has been read up to some point. -/
structure Layout where
  /-- The characters that have been read, the last one first. -/
  read : List Char
  /-- The elements of the innermost body so far, the last one first. -/
  elements : List Element
  /-- The open elements, the innermost first. -/
  frames : List Frame
  /-- Whether blanks are to be taken away behind the last tag. -/
  trimAfter : Bool
  /-- Whether the rest of the last tag's line is to be taken away. -/
  trimLine : Bool

namespace Layout

/-- Nothing has been read. -/
def start : Layout := ⟨[], [], [], false, false⟩

/-- A text without its first line end and the blanks before that. -/
def withoutLineEnd (s : List Char) : List Char :=
  match s.dropWhile isLineBlank with
  | '\r' :: '\n' :: t => t
  | '\n' :: t => t
  | t => t

/-- Adds an element. -/
def push (l : Layout) (e : Element) : Layout := { l with elements := e :: l.elements }

/-- Adds text from behind the last tag. -/
def pushText (l : Layout) (s : List Char) : Layout :=
  let s := if l.trimAfter then Text.trimStart s else if l.trimLine then withoutLineEnd s else s
  { l.push (.text s) with trimLine := false }

/-- Adds blanks between two elements. -/
def pushGap (l : Layout) (gap : List Char) : Layout :=
  if gap.isEmpty || l.trimAfter then l else l.pushText gap

/-- Shortens the text right before the point that has been reached. -/
def shorten (l : Layout) (trim : List Char → List Char) : Layout :=
  match l.elements with
  | .text s :: others => { l with elements := .text (trim s) :: others }
  | _ => l

/-- Takes the marks of a tag into account. -/
def applyTrim (l : Layout) (tag : Tag) : Layout :=
  let l := if tag.trimBefore then l.shorten Text.trimEnd else l
  { l with trimAfter := tag.trimAfter }

/-- A tag between the characters read so far and `rest` takes its line with it if it stands alone
there. -/
def standAlone (l : Layout) (rest : List Char) : Layout :=
  if beginsWithLineEnd rest || rest.isEmpty then
    let beginsLine := match l.read.dropWhile isLineBlank with
      | c :: _ => c == '\n' || c == '\r'
      | [] => true
    let l := if beginsLine then
        l.shorten fun s => (s.reverse.dropWhile isLineBlank).reverse
      else l
    { l with trimLine := beginsLine }
  else { l with trimLine := false }

/-- Begins the body of an element. -/
def openFrame (l : Layout) (owner : Owner) : Layout :=
  { l with elements := [], frames := ⟨owner, l.elements⟩ :: l.frames }

/-- The block of several parts: each further one is all that stands behind the `else` of the one
before it. -/
def nest (parts : List (Call × List Element)) (last : Option (List Element)) :
    Option (List Element) :=
  parts.foldr (fun part otherwise => some [.block part.1 part.2 otherwise]) last

/-- Goes on to the next part of the innermost block. -/
def nextPart (l : Layout) (call : Option Call) : Option Layout :=
  match l.frames with
  | ⟨.block finished (some current), before⟩ :: frames =>
    let finished := (current, l.elements.reverse) :: finished
    some { l with elements := [], frames := ⟨.block finished call, before⟩ :: frames }
  | _ => none

/-- Closes the innermost open element, which must have the given name.  Only a block needs one. -/
def closeFrame (l : Layout) (name : Option String) : Option Layout :=
  match l.frames with
  | [] => none
  | ⟨owner, before⟩ :: frames =>
    let body := l.elements.reverse
    let leave (elements : List Element) : Layout :=
      { l with elements := elements.reverse ++ before, frames := frames }
    let isNamed (call : Call) : Bool := name.all fun name => call.head.name? == some name
    match owner with
    | .block finished current =>
      let parts := (match current with
        | some call => (call, body) :: finished
        | none => finished).reverse
      let last := if current.isSome then none else some body
      if name.isSome && parts.head?.any fun part => isNamed part.1 then
        some (leave ((nest parts last).getD []))
      else none
    | .directive call =>
      if isNamed call then some (leave [.directive call (some body)]) else none
    | .insertion call alone =>
      if isNamed call then some (leave [.insertion call none alone (some body)]) else none

/-- The blanks of the line before a tag, unless it takes them away. -/
def indentation (l : Layout) (tag : Tag) : Option (List Char) :=
  let blanks := (l.read.takeWhile isLineBlank).reverse
  if tag.trimBefore || blanks.isEmpty then none else some blanks

/-- Adds a tag that stands before `rest`. -/
def place (l : Layout) (tag : Tag) (rest : List Char) : Option Layout :=
  let l := match tag.kind with
    | .comment => l
    | _ => l.applyTrim tag
  let line := l.standAlone rest
  let alone := line.trimLine && !tag.trimBefore
  match tag.kind with
  | .expression call => some (l.push (.expression call))
  | .comment => some (line.push .comment)
  | .directive call => some (line.push (.directive call none))
  | .insertion call => some (line.push (.insertion call (l.indentation tag) alone none))
  | .opening call | .rawOpening call => some (line.openFrame (.block [] (some call)))
  | .directiveOpening call => some (line.openFrame (.directive call))
  | .insertionOpening call => some (line.openFrame (.insertion call alone))
  | .otherwise call => line.nextPart call
  | .closing name => line.closeFrame name

/-- The layout behind the characters that were read to get from `s` to `rest`. -/
def advance (l : Layout) (s rest : List Char) : Layout :=
  { l with read := (s.take (s.length - rest.length)).reverseAux l.read }

/-- What stands in the closing tag of the innermost open element.  A block is always named; a
directive and an insertion need not be, and the name of an insertion may have more characters than
others. -/
def closingName? (l : Layout) : Reads (Option String) := fun s =>
  let named (name? : Reads (List Char)) : Option (Option String × List Char) :=
    (name? s).map fun (name, rest) => (some (String.ofList name), rest)
  match l.frames with
  | ⟨.insertion _ _, _⟩ :: _ => (named pieceName?).or (some (none, s))
  | ⟨.directive _, _⟩ :: _ => (named identifier?).or (some (none, s))
  | _ => named identifier?

/-- The tag that a text begins with, as it is allowed in the innermost open element. -/
def tag? (l : Layout) (s : List Char) : Option (Tag × List Char) :=
  (Tag.ofText? s).orElse fun _ =>
  (Tag.otherwise? s).orElse fun _ =>
  Tag.closing? l.closingName? s

/-- Reads the contents and the closing tag of a literal block that has just been opened. -/
def literalBlock (l : Layout) (s : List Char) : Option (Layout × List Char) := do
  let s₁ := skipGap s
  let l := l.advance s s₁
  let (text, s₂) := literalRun (Tag.opening ++ Tag.opening) s₁.length [] s₁
  let l := (l.pushText text.reverse).advance s₁ s₂
  let (tag, rest) ← Tag.rawClosing? s₂
  let l ← l.place tag rest
  return (l.advance s₂ rest, rest)

/-- Reads the rest of a template.  Each step takes at least one character. -/
def readFrom (steps : Nat) (l : Layout) (s : List Char) : Option (List Element) :=
  match steps with
  | 0 => none
  | steps + 1 =>
    let gap := s.takeWhile Json.isGap
    let s₁ := s.dropWhile Json.isGap
    if s₁.isEmpty then
      let l := l.pushGap gap
      if l.frames.isEmpty then some l.elements.reverse else none
    else if Tag.opening.isPrefixOf s₁ then
      match l.tag? s₁ with
      | none => none
      | some (tag, rest) =>
        let l := (l.pushGap gap).advance s s₁
        match l.place tag rest with
        | none => none
        | some l =>
          let l := l.advance s₁ rest
          match tag.kind with
          | .rawOpening _ => (l.literalBlock rest).bind fun (l, rest) => readFrom steps l rest
          | _ => readFrom steps l rest
    else
      let (text, rest) := literalRun Tag.opening s₁.length [] s₁
      readFrom steps ((l.pushText (gap ++ text.reverse)).advance s rest) rest

end Layout

/-- The elements of a template, if its text is one. -/
def parse (s : List Char) : Option (List Element) := Layout.start.readFrom (s.length + 1) s

end TreeQuery.Template

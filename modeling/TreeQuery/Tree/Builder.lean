import TreeQuery.Markup.Reader
import TreeQuery.Tree.Node

/-!
# Building the tree of a document

The elements that are open at a point of a document form a stack of frames.  Text is collected in
the innermost frame and ends where a child begins or the element closes; the first run that is not
blank, with its words one space apart, is the text of the element.  Comments, references and data
sections do not end a run.

Outside of the one root element only blank text may stand.
-/

namespace TreeQuery

namespace Document

/-- Why a text is no document. -/
inductive Error where
  /-- The markup cannot be read further; the byte position of the fault. -/
  | markup (position : Nat) (cause : Markup.Fault)
  /-- The text ends inside an element; the innermost one. -/
  | unclosed (tag : String)
  /-- An end tag where no element is open. -/
  | unexpectedClose (tag : String)
  /-- There is no element at all. -/
  | noRoot
  /-- A further element behind the root element. -/
  | multipleRoots (tag : String)
  /-- Text that is not blank outside of the root element. -/
  | textOutsideRoot
deriving Repr, DecidableEq

/-- The message of an error. -/
def Error.message : Error → String
  | .markup position cause =>
    "malformed markup at byte " ++ toString position ++ ": " ++ cause.message
  | .unclosed tag => "element <" ++ tag ++ "> is never closed"
  | .unexpectedClose tag => "closing tag </" ++ tag ++ "> has no matching open element"
  | .noRoot => "document has no root element"
  | .multipleRoots tag => "element <" ++ tag ++ "> appears after the root element was closed"
  | .textOutsideRoot => "text outside of the root element"

/-- An element that is open. -/
structure Frame where
  /-- Its tag. -/
  tag : String
  /-- Its children so far, the last one first. -/
  children : List Node
  /-- Its text, once a run that is not blank has ended. -/
  text : Option String
  /-- The characters of the run that has not ended, the last one first. -/
  run : List Char

namespace Frame

/-- An element right behind its start tag. -/
def start (tag : String) : Frame := ⟨tag, [], none, []⟩

/-- Ends the run; the first run that is not blank becomes the text. -/
def flush (f : Frame) : Frame :=
  let words := Text.collapse f.run.reverse
  let text := match f.text with
    | some text => some text
    | none => if words.isEmpty then none else some (String.ofList words)
  { f with text := text, run := [] }

/-- The finished element. -/
def close (f : Frame) : Node :=
  let f := f.flush
  ⟨f.tag, f.children.reverse, f.text⟩

end Frame

/-- A document that has been read up to some point. -/
structure Builder where
  /-- The open elements, the innermost first. -/
  frames : List Frame
  /-- The root element, once it is closed. -/
  root : Option Node

namespace Builder

/-- Nothing has been read. -/
def start : Builder := ⟨[], none⟩

/-- Ends the run that the next element interrupts; a second root element is refused. -/
def beginChild (b : Builder) (tag : String) : Except Error Builder :=
  match b.frames with
  | parent :: outer => .ok { b with frames := parent.flush :: outer }
  | [] => if b.root.isSome then .error (.multipleRoots tag) else .ok b

/-- Adds a finished element to the innermost open one; without one it is the root. -/
def attach (b : Builder) (n : Node) : Builder :=
  match b.frames with
  | parent :: outer =>
    { b with frames := { parent with children := n :: parent.children } :: outer }
  | [] => { b with root := some n }

/-- Adds decoded text to the run of the innermost open element. -/
def push (b : Builder) (s : List Char) : Except Error Builder :=
  match b.frames with
  | frame :: outer =>
    .ok { b with frames := { frame with run := s.reverseAux frame.run } :: outer }
  | [] => if Text.allBlank s then .ok b else .error .textOutsideRoot

/-- Takes one event; `position` is where a fault in its references is reported. -/
def take (b : Builder) (position : Nat) : Markup.Event → Except Error Builder
  | .text run => match Markup.decode run with
    | .ok s => b.push s
    | .error fault => .error (.markup position (.reference fault))
  | .data s => b.push s
  | .opened name =>
    let tag := String.ofList name
    (b.beginChild tag).map fun b => { b with frames := Frame.start tag :: b.frames }
  | .empty name =>
    let tag := String.ofList name
    (b.beginChild tag).map fun b => b.attach (Node.new tag)
  | .closed name => match b.frames with
    | frame :: outer => .ok (attach { b with frames := outer } frame.close)
    | [] => .error (.unexpectedClose (String.ofList name))
  | .silent => .ok b

/-- The root element at the end of the text. -/
def finish (b : Builder) : Except Error Node :=
  match b.frames, b.root with
  | frame :: _, _ => .error (.unclosed frame.tag)
  | [], some n => .ok n
  | [], none => .error .noRoot

end Builder

/-- The root element of the text that is left to the reader, behind what the builder holds. -/
def build (b : Builder) (r : Markup.Reader) : Except Error Node :=
  match _h : r.next with
  | .finished => b.finish
  | .fault position cause => .error (.markup position cause)
  | .event e r' => match b.take r'.position e with
    | .ok b' => build b' r'
    | .error error => .error error
termination_by r.rest.length
decreasing_by exact Markup.Reader.length_of_next _h

end Document

end TreeQuery

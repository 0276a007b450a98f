import TreeQuery.Proofs.Tree.Content
import TreeQuery.Proofs.Written.Construct
import TreeQuery.Proofs.Written.Reference

/-!
# Written documents

The syntax of a document, from letters and constructs up: an element is a tag that closes itself,
or two tags with a content between them; the content mixes text, data sections, elements, comments
and instructions; a document is one element, with blanks, comments, instructions and declarations
around it and possibly a byte order mark in front.

Each kind has a written form (`written`), and elements denote trees (`Element.tree`).  Comments and
instructions are no part of a content, so texts on both sides of one belong to the same run.
-/

namespace TreeQuery.Written

/-- What may stand in a content and is not kept. -/
inductive Aside where
  | comment (c : Comment)
  | instruction (i : Instruction)

/-- How an aside is written. -/
def Aside.written : Aside → List Char
  | .comment c => '<' :: '!' :: '-' :: '-' :: (c.written ++ ['-', '-', '>'])
  | .instruction i => '<' :: '?' :: (i.written ++ ['?', '>'])

/-- How a data section is written. -/
def Data.section (d : Data) : List Char :=
  '<' :: (['!', '[', 'C', 'D', 'A', 'T', 'A', '['] ++ (d.written ++ [']', ']', '>']))

mutual

/-- An element as it is written. -/
inductive Element where
  /-- A tag that closes itself. -/
  | empty (t : Tag) (a : Attributes)
  /-- A start tag, a content and an end tag. -/
  | full (t : Tag) (a : Attributes) (content : Content) (g : Gap)

/-- What stands between the tags of an element. -/
inductive Content where
  | nil
  | text (ls : List Letter) (rest : Content)
  | data (d : Data) (rest : Content)
  | aside (a : Aside) (rest : Content)
  | element (e : Element) (rest : Content)

end

mutual

/-- How an element is written. -/
def Element.written : Element → List Char
  | .empty t a => '<' :: (t.name ++ (a.written ++ ['/', '>']))
  | .full t a content g =>
    '<' :: (t.name ++ (a.written ++ '>' ::
      (content.written ++ '<' :: '/' :: (t.name ++ (g.written ++ ['>'])))))

/-- How a content is written. -/
def Content.written : Content → List Char
  | .nil => []
  | .text ls rest => TreeQuery.Written.written ls ++ rest.written
  | .data d rest => d.section ++ rest.written
  | .aside a rest => a.written ++ rest.written
  | .element e rest => e.written ++ rest.written

end

mutual

/-- The tree that an element denotes. -/
def Element.tree : Element → Node
  | .empty t _ => Node.new (String.ofList t.name)
  | .full t _ content _ => Node.ofPieces (String.ofList t.name) content.pieces

/-- The texts and child elements of a content, in order. -/
def Content.pieces : Content → List Piece
  | .nil => []
  | .text ls rest => .text (chars ls) :: rest.pieces
  | .data d rest => .text d.written :: rest.pieces
  | .aside _ rest => rest.pieces
  | .element e rest => .child e.tree :: rest.pieces

end

/-- What may stand around the root element. -/
inductive Misc where
  | blank (s : List Char) (blank : Text.allBlank s = true)
  | aside (a : Aside)
  | doctype (d : Doctype)

/-- How it is written. -/
def Misc.written : Misc → List Char
  | .blank s _ => s
  | .aside a => a.written
  | .doctype d =>
    '<' :: (['!', 'D', 'O', 'C', 'T', 'Y', 'P', 'E', ' '] ++ (d.written ++ ['>']))

/-- How a sequence of such things is written. -/
def miscWritten (ms : List Misc) : List Char := ms.flatMap Misc.written

/-- A document as it is written. -/
structure Source where
  /-- Whether a byte order mark stands in front. -/
  mark : Bool
  prolog : List Misc
  root : Element
  epilog : List Misc

namespace Source

/-- The text of a document behind the byte order mark. -/
def body (d : Source) : List Char :=
  miscWritten d.prolog ++ (d.root.written ++ miscWritten d.epilog)

/-- How a document is written. -/
def written (d : Source) : List Char := if d.mark then '\uFEFF' :: d.body else d.body

end Source

end TreeQuery.Written

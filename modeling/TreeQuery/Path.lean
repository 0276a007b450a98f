import TreeQuery.Text.Blank

/-!
# Paths

A path names the tags on the way from the root element down, between slashes.  Empty parts do not
count, so slashes may be doubled, and stand or be left out at either end.  The first part names the
root element and is kept only to be shown.

A part may hold neither blanks nor what other path languages use for predicates, attributes, axes
and steps; the leftmost part that does decides about the error.
-/

namespace TreeQuery

/-- A path: the name of the root element, and the tags below it. -/
structure Path where
  /-- The first part. -/
  root : String
  /-- The other parts. -/
  segments : List String
deriving Repr, DecidableEq, Hashable

namespace Path

/-- Why a text is no path. -/
inductive Reason where
  /-- The text is blank. -/
  | empty
  /-- The text has only slashes. -/
  | noSegments
  /-- A part has a blank in it. -/
  | blankInside
  /-- A part has a character or a meaning that paths do not know. -/
  | unsupported
deriving Repr, DecidableEq

/-- The wording of a reason. -/
def Reason.message : Reason → String
  | .empty => "path is empty"
  | .noSegments => "path has no segments"
  | .blankInside => "segment contains whitespace"
  | .unsupported => "segment uses unsupported XPath syntax"

/-- A text that is no path, and the reason. -/
structure Error where
  /-- The text. -/
  path : String
  /-- What is wrong with it. -/
  reason : Reason
deriving Repr, DecidableEq

/-- The message of an error. -/
def Error.message (e : Error) : String :=
  "invalid path `" ++ e.path ++ "`: " ++ e.reason.message

/-- The characters that no part may contain. -/
def reserved : List Char :=
  ['[', ']', '(', ')', '@', '*', '=', '|', ',', '\'', '"', '<', '>']

/-- What is wrong with a part. -/
def fault? (part : List Char) : Option Reason :=
  if part.any Text.isBlank then some .blankInside
  else if part.any reserved.contains || Text.occursIn [':', ':'] part || part == ['.']
      || part == ['.', '.'] then some .unsupported
  else none

/-- The non-empty parts of a text between slashes. -/
def partsOf (s : List Char) : List (List Char) := Text.parts (· == '/') s

/-- The path that a text writes. -/
def parse (text : String) : Except Error Path :=
  let s := text.toList
  if Text.allBlank s then .error ⟨text, .empty⟩
  else match partsOf s with
    | [] => .error ⟨text, .noSegments⟩
    | root :: below => match (root :: below).findSome? fault? with
      | some reason => .error ⟨text, reason⟩
      | none => .ok ⟨String.ofList root, below.map String.ofList⟩

/-- Whether the path stands for the root element itself. -/
def isRoot (p : Path) : Bool := p.segments.isEmpty

/-- The path with one slash before each part. -/
def display (p : Path) : String :=
  (p.root :: p.segments).foldl (fun shown part => shown.push '/' ++ part) ""

end Path

end TreeQuery

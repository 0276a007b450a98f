/-!
# Lexemes of plan texts

Indentation is a lexeme of its own: a block begins before its first key or dash and ends where a
line is indented less.
-/

namespace TreeQuery.Yaml

/-- How a scalar is written. -/
inductive Style where
  | plain | quoted | literal | folded
deriving Repr, DecidableEq

/-- A lexeme. -/
inductive Token where
  /-- A directive that names the version of the format. -/
  | version (major minor : Nat)
  /-- A directive that says what a handle stands for. -/
  | handle (handle expansion : List Char)
  | documentStart | documentEnd
  | blockSequence | blockMapping | blockEnd
  | flowSequence | flowSequenceEnd | flowMapping | flowMappingEnd
  /-- The dash before an item of a block sequence. -/
  | dash
  | comma | key | value
  /-- A reference to an anchored node. -/
  | alias (name : List Char)
  /-- A name for the node that follows. -/
  | anchor (name : List Char)
  /-- A type for the node that follows: a handle, possibly empty, and what stands behind it. -/
  | tag (handle suffix : List Char)
  | scalar (text : List Char) (style : Style)
deriving Repr, DecidableEq

end TreeQuery.Yaml

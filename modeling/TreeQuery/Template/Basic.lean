import TreeQuery.Json.Basic

/-!
# Templates

A template is a sequence of elements: literal texts, expressions whose values are written, blocks
that decide whether, how often and for which value their contents are written, and pieces of
template that are named at one place and inserted at another.

An expression, a block or an insertion is a `Call`: a head, its arguments in order, and named
arguments.  A head without arguments is a helper's name or a reference to a value.
-/

namespace TreeQuery.Template

/-- A part of a reference. -/
inductive Segment where
  /-- The value that the template was given. -/
  | root
  /-- The variables of the enclosing loop. -/
  | loop
  /-- The enclosing scope. -/
  | up
  /-- A member or an index. -/
  | name (s : String)
deriving Repr, DecidableEq

/-- An argument, or the head of a call. -/
inductive Term where
  /-- A helper's name. -/
  | word (name : String)
  /-- A reference to a value, with its text as written. -/
  | reference (raw : String) (segments : List Segment)
  /-- A value that is written out. -/
  | literal (v : Json)
  /-- A call between parentheses. -/
  | call (head : Term) (args : List Term) (named : List (String × Term))

/-- A head and its arguments. -/
structure Call where
  /-- The helper or the value. -/
  head : Term
  /-- The arguments in order. -/
  args : List Term
  /-- The named arguments. -/
  named : List (String × Term)
  /-- The names that a block gives to the value, and to the key or the index, of each round. -/
  blockNames : List String

/-- An element of a template. -/
inductive Element where
  /-- A literal text. -/
  | text (s : List Char)
  /-- A remark for readers of the template. -/
  | comment
  /-- A value to be written. -/
  | expression (call : Call)
  /-- A block; what stands behind its `else`, if there is one, is `otherwise`. -/
  | block (call : Call) (body : List Element) (otherwise : Option (List Element))
  /-- A directive, with the contents that it applies to. -/
  | directive (call : Call) (body : Option (List Element))
  /-- The place where another piece is inserted, the indentation of that place, whether nothing
  else stands on its line, and the contents that go with it. -/
  | insertion (call : Call) (indent : Option (List Char)) (alone : Bool)
      (body : Option (List Element))

/-- The text by which a closing tag names a head. -/
def Term.name? : Term → Option String
  | .word name => some name
  | .reference raw _ => some raw
  | _ => none

/-- Whether a head stands alone. -/
def Call.isBare (c : Call) : Bool := c.args.isEmpty && c.named.isEmpty

end TreeQuery.Template

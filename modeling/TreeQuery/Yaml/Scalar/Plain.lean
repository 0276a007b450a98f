import TreeQuery.Yaml.Scalar.Gap

/-!
# Plain scalars

A scalar without quotes ends before a colon that a blank follows, before a comment, before the
marks of a flow collection if it stands in one, and where a line is not indented enough.  The gaps
between its words are folded.
-/

namespace TreeQuery.Yaml

/-- A plain scalar that has been read. -/
structure PlainScalar where
  /-- Its text. -/
  text : List Char
  /-- The place behind the gap that follows it. -/
  cursor : Cursor
  /-- Whether there is a line end in that gap. -/
  lineEnded : Bool

/-- Whether a word of a plain scalar ends here, though no blank does. -/
def endsPlain (inFlow : Bool) (s : List Char) : Bool :=
  match s with
  | c :: rest =>
    (c == ':' && endsWord rest) || (inFlow && [',', '[', ']', '\x7b', '\x7d'].contains c)
  | [] => true

/-- Whether a colon stands where no colon is allowed: in a flow collection, before one of its
marks. -/
def isStrayColon (inFlow : Bool) (s : List Char) : Bool :=
  match s with
  | ':' :: c :: _ => inFlow && [',', '?', '[', ']', '\x7b', '\x7d'].contains c
  | _ => false

/-- Reads a word, in reverse. -/
def plainWord (steps : Nat) (inFlow : Bool) (word : List Char) (c : Cursor) :
    Option (List Char × Cursor) :=
  match steps with
  | 0 => none
  | steps + 1 =>
    if endsWord c.rest then some (word, c)
    else if isStrayColon inFlow c.rest then none
    else if endsPlain inFlow c.rest then some (word, c)
    else match c.rest with
      | [] => some (word, c)
      | ch :: _ => plainWord steps inFlow (ch :: word) (c.skip 1)

/-- Reads words and gaps; `done` is the text so far in reverse, and `gap` the gap behind it. -/
def plainRest (steps : Nat) (inFlow : Bool) (edge : Nat) (done : List Char) (gap : Gap)
    (c : Cursor) : Option PlainScalar :=
  match steps with
  | 0 => none
  | steps + 1 =>
    if c.atDocumentMark || c.rest.head? == some '#' then some ⟨done.reverse, c, gap.hasLineEnd⟩
    else match plainWord (steps + 1) inFlow [] c with
      | none => none
      | some (word, c) =>
        let (done, gap) : List Char × Gap :=
          if word.isEmpty then (done, gap) else (word ++ gap.text.reverseAux done, .none)
        if c.rest.isEmpty || !endsWord c.rest then some ⟨done.reverse, c, gap.hasLineEnd⟩
        else match Gap.read (steps + 1) edge gap c with
          | none => none
          | some (gap, c) =>
            if !inFlow && c.column < edge then some ⟨done.reverse, c, gap.hasLineEnd⟩
            else plainRest steps inFlow edge done gap c

/-- Reads a plain scalar; its further lines must reach the column `edge`, unless it stands in a
flow collection. -/
def plainScalar (steps : Nat) (inFlow : Bool) (edge : Nat) (c : Cursor) : Option PlainScalar :=
  plainRest steps inFlow edge [] .none c

end TreeQuery.Yaml

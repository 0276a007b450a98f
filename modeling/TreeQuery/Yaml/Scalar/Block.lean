import TreeQuery.Decimal.Reading
import TreeQuery.Yaml.Cursor

/-!
# Block scalars

A block scalar is a header and the indented lines below it.  A literal one keeps its line ends; a
folded one writes a line feed between two lines that begin with no blank as a space.  The header
may say how the line ends at its very end are treated, and how far the lines are indented; by
default one line end is kept, and the first line that is not blank tells the indentation.
-/

namespace TreeQuery.Yaml

/-- What happens to the line ends at the end of a block scalar. -/
inductive Chomping where
  /-- The first one is kept. -/
  | clip
  /-- None is kept. -/
  | strip
  /-- All are kept. -/
  | keep
deriving Repr, DecidableEq

/-- The header of a block scalar. -/
structure BlockHeader where
  /-- What happens at the end. -/
  chomping : Chomping
  /-- The indentation relative to the surrounding block, if the header tells it. -/
  increment : Option Nat
deriving Repr

/-- The sign of a header that tells what happens at the end. -/
def chomping? : Char → Option Chomping
  | '+' => some .keep
  | '-' => some .strip
  | _ => none

/-- Reads a header behind its `|` or `>`: a sign and a digit other than zero in any order, each of
them possibly missing. -/
def blockHeader (c : Cursor) : Option (BlockHeader × Cursor) :=
  let sign (c : Cursor) : Option Chomping × Cursor := match c.rest.head?.bind chomping? with
    | some chomping => (some chomping, c.skip 1)
    | none => (none, c)
  let digit (c : Cursor) : Option (Option Nat × Cursor) :=
    match c.rest.head?.bind (digitValue? 10) with
    | some 0 => none
    | some n => some (some n, c.skip 1)
    | none => some (none, c)
  match sign c with
  | (some chomping, c) => (digit c).map fun (increment, c) => (⟨chomping, increment⟩, c)
  | (none, c) => match digit c with
    | none => none
    | some (none, c) => some (⟨.clip, none⟩, c)
    | some (increment, c) =>
      let (chomping, c) := sign c
      some (⟨chomping.getD .clip, increment⟩, c)

/-- Passes indentation and empty lines.  Without a known indentation all leading spaces count as
such, and `widest` is the largest column that was reached; a tab may not stand in their place.  The
result has the line ends in reverse. -/
def blockBreaks (steps : Nat) (indent : Option Nat) (breaks : List Char) (widest : Nat)
    (c : Cursor) : Option (List Char × Nat × Cursor) :=
  match steps with
  | 0 => none
  | steps + 1 =>
    let spaces := (c.rest.takeWhile (· == ' ')).length
    let c := c.skip (match indent with
      | none => spaces
      | some n => min spaces (n - c.column))
    let widest := max widest c.column
    let indented := indent.any (· ≤ c.column)
    if !indented && c.rest.head? == some '\t' then none
    else if c.rest.head?.any isBreak then
      blockBreaks steps indent (c.lineEnd.reverse ++ breaks) widest c.skipLine
    else some (breaks, widest, c)

/-- What has been read of a block scalar.  All texts are in reverse. -/
structure BlockLines where
  /-- The text so far. -/
  text : List Char
  /-- The line end of the last line. -/
  lineEnd : List Char
  /-- The empty lines behind it. -/
  breaks : List Char
  /-- Whether the last line begins with a blank. -/
  blankLine : Bool

/-- Adds what stands between the last line and the next one, which begins with a blank or not. -/
def BlockLines.join (b : BlockLines) (literal blank : Bool) : List Char :=
  if !literal && b.lineEnd == ['\n'] && !b.blankLine && !blank then
    if b.breaks.isEmpty then ' ' :: b.text else b.breaks ++ b.text
  else b.breaks ++ b.lineEnd ++ b.text

/-- Reads lines as long as they reach the indentation. -/
def blockLines (steps : Nat) (literal : Bool) (indent : Nat) (b : BlockLines) (c : Cursor) :
    Option (BlockLines × Cursor) :=
  match steps with
  | 0 => none
  | steps + 1 =>
    if c.column != indent || c.rest.isEmpty then some (b, c)
    else
      let blank := c.rest.head?.any isBlank
      let line := c.rest.takeWhile fun ch => !isBreak ch
      let c := c.skip line.length
      let lineEnd := c.lineEnd
      match blockBreaks (steps + 1) (some indent) [] 0 c.skipLine with
      | none => none
      | some (breaks, _, c) =>
        let text := line.reverseAux (b.join literal blank)
        blockLines steps literal indent ⟨text, lineEnd.reverse, breaks, blank⟩ c

/-- Reads a block scalar, at its `|` or `>`; `outer` is the column of the surrounding block, or a
negative number at the outermost level. -/
def blockScalar (steps : Nat) (literal : Bool) (outer : Int) (c : Cursor) :
    Option (List Char × Cursor) := do
  let (header, c) ← blockHeader (c.skip 1)
  let c ← c.skipRest
  let told := header.increment.map fun n => if 0 ≤ outer then outer.toNat + n else n
  let (breaks, widest, c) ← blockBreaks steps told [] 0 c
  let indent := told.getD (max widest (max 1 (outer + 1).toNat))
  let (b, c) ← blockLines steps literal indent ⟨[], [], breaks, false⟩ c
  let text := match header.chomping with
    | .strip => b.text
    | .clip => b.lineEnd ++ b.text
    | .keep => b.breaks ++ b.lineEnd ++ b.text
  return (text.reverse, c)

end TreeQuery.Yaml

import TreeQuery.Yaml.Cursor

/-!
# Gaps between words

The words of a scalar that runs over several lines are separated by gaps.  A gap within a line is
kept.  In a gap over line ends the blanks do not count, one line feed becomes a space, and of
several line feeds the first is dropped and the others are kept.
-/

namespace TreeQuery.Yaml

/-- A gap between two words. -/
structure Gap where
  /-- The blanks before the first line end, the last one first; none once there is a line end. -/
  blanks : List Char
  /-- The first line end, if there is one. -/
  first : Option (List Char)
  /-- The further line ends, the last one first. -/
  more : List Char
deriving Repr

namespace Gap

/-- No gap. -/
def none : Gap := ⟨[], .none, []⟩

/-- The gap of a line end that counts for nothing. -/
def joined : Gap := ⟨[], some [], []⟩

/-- Whether there is a line end in a gap. -/
def hasLineEnd (g : Gap) : Bool := g.first.isSome

/-- What a gap is worth between two words. -/
def text (g : Gap) : List Char :=
  match g.first with
  | .none => g.blanks.reverse
  | some first =>
    if first == ['\n'] then (if g.more.isEmpty then [' '] else g.more.reverse)
    else first ++ g.more.reverse

/-- Reads on in a gap.  Behind a line end no tab may stand left of the column `edge`. -/
def read (steps edge : Nat) (g : Gap) (c : Cursor) : Option (Gap × Cursor) :=
  match steps, c.rest with
  | 0, _ => .none
  | _, [] => some (g, c)
  | steps + 1, ch :: _ =>
    if isBlank ch then
      if g.hasLineEnd then
        if ch == '\t' && c.column < edge then .none else read steps edge g (c.skip 1)
      else read steps edge { g with blanks := ch :: g.blanks } (c.skip 1)
    else if isBreak ch then
      let g := if g.hasLineEnd then { g with more := c.lineEnd.reverse ++ g.more }
        else { g with blanks := [], first := some c.lineEnd }
      read steps edge g c.skipLine
    else some (g, c)

end Gap

end TreeQuery.Yaml

import TreeQuery.Text.Blank

/-!
# Places in a plan text

A plan text is read with an eye on lines and columns, since indentation nests its parts.  A cursor
is a place in the text: what follows it, and its index, line and column, counted from zero.  Columns
count characters, and the index counts bytes.

Lines end at a carriage return, a line feed, both together, or one of three characters beyond
ASCII.  The last two of these are kept as they are where a line end belongs to a text; all other
line ends become line feeds.
-/

namespace TreeQuery.Yaml

/-- Whether a character may stand in a plan text. -/
def isAllowed (c : Char) : Bool :=
  let n := c.toNat
  n == 0x09 || n == 0x0A || n == 0x0D || (0x20 ≤ n && n ≤ 0x7E) || n == 0x85
    || (0xA0 ≤ n && n ≤ 0xD7FF) || (0xE000 ≤ n && n ≤ 0xFFFD) || 0x10000 ≤ n

/-- A space or a tab. -/
def isBlank (c : Char) : Bool := c == ' ' || c == '\t'

/-- The line and paragraph separators, which are kept where they end a line of a text. -/
def isSeparator (c : Char) : Bool := c == '\u2028' || c == '\u2029'

/-- Whether a character ends a line. -/
def isBreak (c : Char) : Bool := c == '\n' || c == '\r' || c == '\u0085' || isSeparator c

/-- Whether a text begins with a blank, a line end, or nothing at all. -/
def endsWord (s : List Char) : Bool := s.head?.all fun c => isBlank c || isBreak c

/-- Whether a text begins with a line end, or nothing at all. -/
def endsLine (s : List Char) : Bool := s.head?.all isBreak

/-- Whether a character can stand in the name of an anchor or a handle. -/
def isWordChar (c : Char) : Bool := c.isAlphanum || c == '_' || c == '-'

/-- A place in a text. -/
structure Cursor where
  /-- What follows. -/
  rest : List Char
  /-- The number of bytes before it. -/
  index : Nat
  /-- The number of line ends before it. -/
  line : Nat
  /-- The number of characters before it on its line. -/
  column : Nat
deriving Repr

namespace Cursor

/-- The beginning of a text. -/
def ofText (s : List Char) : Cursor := ⟨s, 0, 0, 0⟩

/-- Passes characters of one line. -/
def skip (c : Cursor) (n : Nat) : Cursor :=
  { c with
    rest := c.rest.drop n
    index := c.index + Text.byteLength (c.rest.take n)
    column := c.column + n }

/-- Passes the characters of one line that satisfy `p`. -/
def skipWhile (c : Cursor) (p : Char → Bool) : Cursor := c.skip (c.rest.takeWhile p).length

/-- Passes a line end. -/
def skipLine (c : Cursor) : Cursor :=
  match c.rest with
  | '\r' :: '\n' :: rest => ⟨rest, c.index + 2, c.line + 1, 0⟩
  | ch :: rest => ⟨rest, c.index + ch.utf8Size, c.line + 1, 0⟩
  | [] => c

/-- What the line end at a place is worth in a text. -/
def lineEnd (c : Cursor) : List Char :=
  match c.rest with
  | ch :: _ => if isSeparator ch then [ch] else ['\n']
  | [] => []

/-- Passes a comment, if one begins here. -/
def skipComment (c : Cursor) : Cursor :=
  if c.rest.head? == some '#' then c.skipWhile fun ch => !isBreak ch else c

/-- Whether a line begins here with the given three characters and nothing behind them. -/
def atMark (c : Cursor) (mark : List Char) : Bool :=
  c.column == 0 && mark.isPrefixOf c.rest && endsWord (c.rest.drop 3)

/-- The mark at the beginning of a document. -/
def startMark : List Char := ['-', '-', '-']

/-- The mark at the end of a document. -/
def endMark : List Char := ['.', '.', '.']

/-- Whether a document begins or ends here with its mark. -/
def atDocumentMark (c : Cursor) : Bool := c.atMark startMark || c.atMark endMark

/-- Passes the rest of a line on which nothing but blanks and a comment may follow. -/
def skipRest (c : Cursor) : Option Cursor :=
  let c := (c.skipWhile isBlank).skipComment
  if endsLine c.rest then some c.skipLine else none

end Cursor

end TreeQuery.Yaml

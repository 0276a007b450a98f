import TreeQuery.Yaml.Property
import TreeQuery.Yaml.Scalar.Block
import TreeQuery.Yaml.Scalar.Plain
import TreeQuery.Yaml.Scalar.Quoted

/-!
# Cutting plan texts into lexemes

A key need not be marked as such: whatever stands before a colon on one line may have been one.
So where a key may begin the place is remembered as a candidate, and when the colon comes the marks
of the key, and of the mapping that it begins, are put in at that place.  A candidate lasts for one
line and a thousand and twenty-four bytes; where a block mapping goes on, something must become its
key, so there the candidate may not be given up.

Block collections begin and end with the indentation, which counts outside of flow collections
only.
-/

namespace TreeQuery.Yaml

/-- A place where a key may have begun. -/
structure Candidate where
  /-- The number of lexemes before it. -/
  tokens : Nat
  /-- Whether a key must begin here. -/
  required : Bool
  /-- The index of the place. -/
  index : Nat
  /-- Its line. -/
  line : Nat
  /-- Its column. -/
  column : Nat
deriving Repr

/-- A plan text that has been cut up to some point. -/
structure Lexer where
  /-- The place. -/
  cursor : Cursor
  /-- The lexemes, the last one first. -/
  tokens : List Token
  /-- The number of lexemes. -/
  count : Nat
  /-- The column of the innermost block collection, or `-1`. -/
  indent : Int
  /-- The columns of the collections around it, the innermost first. -/
  outer : List Int
  /-- Whether a key, or an item of a block sequence, may begin here. -/
  mayBegin : Bool
  /-- The candidate of the innermost flow collection or of the blocks. -/
  candidate : Option Candidate
  /-- The candidates of the flow collections around it and of the blocks, the innermost first. -/
  candidates : List (Option Candidate)
  /-- A bound on the steps of any loop over the text. -/
  steps : Nat

namespace Lexer

/-- The beginning of a text. -/
def start (s : List Char) : Lexer :=
  ⟨.ofText s, [], 0, -1, [], true, none, [], s.length + 2⟩

/-- Whether the point lies in a flow collection. -/
def inFlow (l : Lexer) : Bool := !l.candidates.isEmpty

/-- Adds a lexeme. -/
def push (l : Lexer) (t : Token) : Lexer :=
  { l with tokens := t :: l.tokens, count := l.count + 1 }

/-- Puts a lexeme in, behind the first `n` ones. -/
def insert (l : Lexer) (n : Nat) (t : Token) : Lexer :=
  let later := l.count - n
  { l with tokens := l.tokens.take later ++ t :: l.tokens.drop later, count := l.count + 1 }

/-- Passes blanks, comments and line ends up to the next lexeme.  A byte order mark may begin any
line, and a tab may not stand where a key may begin. -/
def skipGaps (steps : Nat) (l : Lexer) : Lexer :=
  match steps with
  | 0 => l
  | steps + 1 =>
    let c := if l.cursor.column == 0 && l.cursor.rest.head? == some '\uFEFF' then l.cursor.skip 1
      else l.cursor
    let tabs := l.inFlow || !l.mayBegin
    let c := (c.skipWhile fun ch => ch == ' ' || (tabs && ch == '\t')).skipComment
    if c.rest.head?.any isBreak then
      skipGaps steps { l with cursor := c.skipLine, mayBegin := l.mayBegin || !l.inFlow }
    else { l with cursor := c }

/-- The candidate if it is still one; `none` if it had to be a key and was none. -/
def refresh (c : Cursor) : Option Candidate → Option (Option Candidate)
  | none => some none
  | some k =>
    if k.line < c.line || k.index + 1024 < c.index then
      if k.required then none else some none
    else some (some k)

/-- Gives up the innermost candidate if it is too far away.  The others are looked at when the flow
collections inside of them have ended; they do not come nearer. -/
def refreshInnermost (l : Lexer) : Option Lexer :=
  (refresh l.cursor l.candidate).map fun candidate => { l with candidate }

/-- Gives up the innermost candidate. -/
def giveUp (l : Lexer) : Option Lexer :=
  if l.candidate.any (·.required) then none else some { l with candidate := none }

/-- The place as a candidate; at the column of the innermost block a key must begin. -/
def here (l : Lexer) : Candidate where
  tokens := l.count
  required := !l.inFlow && l.indent == l.cursor.column
  index := l.cursor.index
  line := l.cursor.line
  column := l.cursor.column

/-- Remembers that a key may begin here. -/
def remember (l : Lexer) : Option Lexer :=
  if l.mayBegin then l.giveUp.map fun l => { l with candidate := some l.here } else some l

/-- Ends the block collections that begin to the right of a column. -/
def unrollFrom (column : Int) (l : Lexer) : List Int → Lexer
  | [] => { l with outer := [] }
  | next :: outer =>
    if column < l.indent then unrollFrom column { l.push .blockEnd with indent := next } outer
    else { l with outer := next :: outer }

/-- Ends block collections; inside of a flow collection the indentation does not count. -/
def unroll (l : Lexer) (column : Int) : Lexer :=
  if l.inFlow then l else l.unrollFrom column l.outer

/-- Begins a block collection behind the first `n` lexemes, if the column is to the right of the
innermost one. -/
def roll (l : Lexer) (column : Nat) (n : Nat) (t : Token) : Lexer :=
  if l.inFlow || (column : Int) ≤ l.indent then l
  else { l.insert n t with outer := l.indent :: l.outer, indent := column }

/-- Adds the lexeme of some characters on the line. -/
def mark (l : Lexer) (n : Nat) (t : Token) : Lexer := { l.push t with cursor := l.cursor.skip n }

/-- A directive, or a mark that begins or ends a document: all blocks end before it. -/
def atDocument (l : Lexer) (read : Lexer → Option Lexer) : Option Lexer :=
  (l.unroll (-1)).giveUp.bind fun l => read { l with mayBegin := false }

/-- The beginning of a flow collection. -/
def openFlow (l : Lexer) (t : Token) : Option Lexer :=
  l.remember.map fun l =>
    { l.mark 1 t with
      mayBegin := true
      candidate := none
      candidates := l.candidate :: l.candidates }

/-- The end of a flow collection. -/
def closeFlow (l : Lexer) (t : Token) : Option Lexer :=
  l.giveUp.map fun l =>
    let (candidate, candidates) := match l.candidates with
      | [] => (none, [])
      | candidate :: candidates => (candidate, candidates)
    { l.mark 1 t with mayBegin := false, candidate, candidates }

/-- A comma. -/
def comma (l : Lexer) : Option Lexer :=
  l.giveUp.map fun l => { l.mark 1 .comma with mayBegin := true }

/-- A dash. -/
def dash (l : Lexer) : Option Lexer :=
  if !l.inFlow && !l.mayBegin then none
  else (l.roll l.cursor.column l.count .blockSequence).giveUp.map fun l =>
    { l.mark 1 .dash with mayBegin := true }

/-- The mark of a key. -/
def key (l : Lexer) : Option Lexer :=
  if !l.inFlow && !l.mayBegin then none
  else (l.roll l.cursor.column l.count .blockMapping).giveUp.map fun l =>
    { l.mark 1 .key with mayBegin := !l.inFlow }

/-- A colon: the candidate becomes a key, or else the value has none. -/
def value (l : Lexer) : Option Lexer :=
  match l.candidate with
  | some k =>
    let l := (l.insert k.tokens .key).roll k.column k.tokens .blockMapping
    some { l.mark 1 .value with candidate := none, mayBegin := false }
  | none =>
    if !l.inFlow && !l.mayBegin then none
    else
      let l := l.roll l.cursor.column l.count .blockMapping
      some { l.mark 1 .value with mayBegin := !l.inFlow }

/-- A lexeme that may be, or begin, a key. -/
def node (l : Lexer) (read : Lexer → Option (Token × Cursor)) : Option Lexer :=
  l.remember.bind fun l =>
    (read l).map fun (t, c) => { l.push t with cursor := c, mayBegin := false }

/-- A block scalar. -/
def block (l : Lexer) (style : Style) : Option Lexer :=
  l.giveUp.bind fun l =>
    (blockScalar l.steps (style == .literal) l.indent l.cursor).map fun (text, c) =>
      { l.push (.scalar text style) with cursor := c, mayBegin := true }

/-- A plain scalar. -/
def plain (l : Lexer) : Option Lexer :=
  l.remember.bind fun l =>
    (plainScalar l.steps l.inFlow (l.indent + 1).toNat l.cursor).map fun s =>
      { l.push (.scalar s.text .plain) with cursor := s.cursor, mayBegin := s.lineEnded }

/-- Whether a plain scalar can begin with a text. -/
def beginsPlain (inFlow : Bool) (s : List Char) : Bool :=
  match s with
  | [] => false
  | c :: rest =>
    !(endsWord s || ['-', '?', ':', ',', '[', ']', '\x7b', '\x7d', '#', '&', '*', '!', '|', '>',
        '\'', '"', '%', '@', '\x60'].contains c)
      || (c == '-' && !rest.head?.any isBlank)
      || (!inFlow && (c == '?' || c == ':') && !endsWord rest)

/-- Reads the lexeme that begins with the character `c`, before `rest`. -/
def lexeme (l : Lexer) (c : Char) (rest : List Char) : Option Lexer :=
  let marked := l.inFlow || endsWord rest
  if l.cursor.column == 0 && c == '%' then
    l.atDocument fun l =>
      (directive l.steps l.cursor).map fun (t, cursor) => { l.push t with cursor }
  else if l.cursor.atMark Cursor.startMark then
    l.atDocument fun l => some (l.mark 3 .documentStart)
  else if l.cursor.atMark Cursor.endMark then
    l.atDocument fun l => some (l.mark 3 .documentEnd)
  else if c == '[' then l.openFlow .flowSequence
  else if c == '\x7b' then l.openFlow .flowMapping
  else if c == ']' then l.closeFlow .flowSequenceEnd
  else if c == '\x7d' then l.closeFlow .flowMappingEnd
  else if c == ',' then l.comma
  else if c == '-' && endsWord rest then l.dash
  else if c == '?' && marked then l.key
  else if c == ':' && marked then l.value
  else if c == '*' then
    l.node fun l => (anchorName l.cursor).map fun (name, c) => (.alias name, c)
  else if c == '&' then
    l.node fun l => (anchorName l.cursor).map fun (name, c) => (.anchor name, c)
  else if c == '!' then l.node fun l => tagToken l.steps l.inFlow l.cursor
  else if c == '|' && !l.inFlow then l.block .literal
  else if c == '>' && !l.inFlow then l.block .folded
  else if c == '\'' || c == '"' then
    l.node fun l => (quotedScalar l.steps c l.cursor).map fun (text, c) => (.scalar text .quoted, c)
  else if beginsPlain l.inFlow (c :: rest) then l.plain
  else none

/-- Reads the rest of a text. -/
def readAll (steps : Nat) (l : Lexer) : Option (List Token) :=
  match steps with
  | 0 => none
  | steps + 1 => do
    let l ← (l.skipGaps l.steps).refreshInnermost
    let l := l.unroll l.cursor.column
    match l.cursor.rest with
    | [] =>
      let l ← (l.unroll (-1)).giveUp
      return l.tokens.reverse
    | c :: rest => readAll steps (← l.lexeme c rest)

end Lexer

/-- The lexemes of a plan text. -/
def Token.ofText? (s : List Char) : Option (List Token) :=
  if s.all isAllowed then (Lexer.start s).readAll (s.length + 2) else none

end TreeQuery.Yaml

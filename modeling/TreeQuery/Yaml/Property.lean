import TreeQuery.Decimal.Reading
import TreeQuery.Yaml.Cursor
import TreeQuery.Yaml.Token

/-!
# Anchors, tags and directives

An anchor names the node that follows it and an alias repeats that node.  A tag gives the node a
type, written out between angle brackets or behind a handle; percent signs write single bytes, of
which a null byte ends the type.  A directive stands on a line of its own before a document.
-/

namespace TreeQuery.Yaml

/-- Reads the name behind `&` or `*`. -/
def anchorName (c : Cursor) : Option (List Char × Cursor) :=
  let c := c.skip 1
  let name := c.rest.takeWhile isWordChar
  let c := c.skip name.length
  let ended := endsWord c.rest
    || c.rest.head?.any fun ch => ['?', ':', ',', ']', '\x7d', '%', '@', '\x60'].contains ch
  if name.isEmpty || !ended then none else some (name, c)

/-- The byte that a percent sign and two digits write. -/
def percentByte? : List Char → Option Nat
  | '%' :: a :: b :: _ => natural? 16 [a, b]
  | _ => none

/-- The number of bytes of a character that begins with the given byte. -/
def byteCount? (n : Nat) : Option Nat :=
  if n < 0x80 then some 1
  else if n < 0xC0 then none
  else if n < 0xE0 then some 2
  else if n < 0xF0 then some 3
  else if n < 0xF8 then some 4
  else none

/-- Reads the percent signs that write the further bytes of one character, each as one character
of the result, which is in reverse. -/
def furtherBytes (count : Nat) (done : List Char) (c : Cursor) : Option (List Char × Cursor) :=
  match count with
  | 0 => some (done, c)
  | count + 1 => do
    let n ← percentByte? c.rest
    if n < 0x80 || 0xC0 ≤ n then none
    furtherBytes count (Char.ofNat n :: done) (c.skip 3)

/-- Whether a character can stand in a tag; between angle brackets some more can. -/
def inTag (bracketed : Bool) (c : Char) : Bool :=
  isWordChar c
    || [';', '/', '?', ':', '@', '&', '=', '+', '$', '.', '%', '!', '~', '*', '\'', '(',
      ')'].contains c
    || (bracketed && [',', '[', ']'].contains c)

/-- Reads the characters of a tag behind `done`, which is in reverse. -/
def tagText (steps : Nat) (bracketed : Bool) (done : List Char) (c : Cursor) :
    Option (List Char × Cursor) :=
  match steps, c.rest with
  | 0, _ => none
  | _, [] => some (done.reverse, c)
  | steps + 1, ch :: _ =>
    if !inTag bracketed ch then some (done.reverse, c)
    else if ch == '%' then do
      let n ← percentByte? c.rest
      let count ← byteCount? n
      let (done, c) ← furtherBytes (count - 1) (Char.ofNat n :: done) (c.skip 3)
      tagText steps bracketed done c
    else tagText steps bracketed (ch :: done) (c.skip 1)

/-- A tag up to its first null byte. -/
def beforeNull (text : List Char) : List Char := text.takeWhile (· != '\x00')

/-- Reads a handle: `!`, word characters, and a second `!`, which may be missing. -/
def handleText (c : Cursor) : Option (List Char × Cursor) :=
  if c.rest.head? != some '!' then none
  else
    let c := c.skip 1
    let name := c.rest.takeWhile isWordChar
    let c := c.skip name.length
    if c.rest.head? == some '!' then some ('!' :: name ++ ['!'], c.skip 1)
    else some ('!' :: name, c)

/-- Reads a tag, at its `!`.  The result is the handle and what stands behind it.  A tag without a
handle of its own has the handle `!`, and a lone `!` has none. -/
def tagToken (steps : Nat) (inFlow : Bool) (c : Cursor) : Option (Token × Cursor) := do
  let (token, c) ← (match c.rest with
    | '!' :: '<' :: _ => do
      let (text, c) ← tagText steps true [] (c.skip 2)
      if text.isEmpty || c.rest.head? != some '>' then none
      return (.tag [] (beforeNull text), c.skip 1)
    | _ => do
      let (handle, c) ← handleText c
      if 1 < handle.length && handle.getLast? == some '!' then
        let (text, c) ← tagText steps false [] c
        if text.isEmpty then none
        return (.tag handle (beforeNull text), c)
      else
        let (text, c) ← tagText steps false (handle.drop 1).reverse c
        let text := beforeNull text
        return (if text.isEmpty then .tag [] ['!'] else .tag ['!'] text, c) :
    Option (Token × Cursor))
  if endsWord c.rest || (inFlow && c.rest.head? == some ',') then return (token, c) else none

/-- Reads a number of a version. -/
def versionNumber (c : Cursor) : Option (Nat × Cursor) :=
  let digits := c.rest.takeWhile isDigit
  if digits.isEmpty || 9 < digits.length then none
  else some (ofDigits 10 digits, c.skip digits.length)

/-- Reads the version behind its directive's name. -/
def versionValue (c : Cursor) : Option (Token × Cursor) := do
  let (major, c) ← versionNumber (c.skipWhile isBlank)
  if c.rest.head? != some '.' then none
  let (minor, c) ← versionNumber (c.skip 1)
  return (.version major minor, c)

/-- Reads a handle and its expansion behind the name of their directive. -/
def handleValue (steps : Nat) (c : Cursor) : Option (Token × Cursor) := do
  let (handle, c) ← handleText (c.skipWhile isBlank)
  if handle != ['!'] && handle.getLast? != some '!' then none
  if !c.rest.head?.any isBlank then none
  let (text, c) ← tagText steps true [] (c.skipWhile isBlank)
  if text.isEmpty || !endsWord c.rest then none
  return (.handle handle (beforeNull text), c)

/-- Reads a directive with its line, at its `%`. -/
def directive (steps : Nat) (c : Cursor) : Option (Token × Cursor) := do
  let c := c.skip 1
  let name := c.rest.takeWhile isWordChar
  let c := c.skip name.length
  if !endsWord c.rest then none
  let (token, c) ← if name == ['Y', 'A', 'M', 'L'] then versionValue c
    else if name == ['T', 'A', 'G'] then handleValue steps c
    else none
  let c ← c.skipRest
  return (token, c)

end TreeQuery.Yaml

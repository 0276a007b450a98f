import TreeQuery.Decimal.Reading
import TreeQuery.Yaml.Scalar.Gap

/-!
# Quoted scalars

A scalar between single quotes has one escape, a doubled quote.  Between double quotes a backslash
and a letter stand for a character, a backslash and a letter with digits for a code point, and a
backslash at the end of a line joins the lines without a space.  In both, the gaps between words
are folded, and a document mark at the beginning of a line is not allowed.
-/

namespace TreeQuery.Yaml

/-- The characters that a backslash and one character stand for. -/
def letterEscape? : Char → Option Char
  | '0' => some (Char.ofNat 0)
  | 'a' => some (Char.ofNat 0x07)
  | 'b' => some (Char.ofNat 0x08)
  | 't' => some '\t'
  | '\t' => some '\t'
  | 'n' => some '\n'
  | 'v' => some (Char.ofNat 0x0B)
  | 'f' => some (Char.ofNat 0x0C)
  | 'r' => some '\r'
  | 'e' => some (Char.ofNat 0x1B)
  | ' ' => some ' '
  | '"' => some '"'
  | '/' => some '/'
  | '\\' => some '\\'
  | 'N' => some (Char.ofNat 0x85)
  | '_' => some (Char.ofNat 0xA0)
  | 'L' => some (Char.ofNat 0x2028)
  | 'P' => some (Char.ofNat 0x2029)
  | _ => none

/-- The number of hexadecimal digits behind a backslash and a letter. -/
def escapeDigits? : Char → Option Nat
  | 'x' => some 2
  | 'u' => some 4
  | 'U' => some 8
  | _ => none

/-- The character of an escape, given what follows the backslash, and the number of characters
that it takes behind the backslash. -/
def escape? : List Char → Option (Char × Nat)
  | [] => none
  | c :: s => match letterEscape? c with
    | some ch => some (ch, 1)
    | none => do
      let n ← escapeDigits? c
      let digits := s.take n
      if digits.length < n then none
      let code ← natural? 16 digits
      if (0xD800 ≤ code && code ≤ 0xDFFF) || 0x10FFFF < code then none
      return (Char.ofNat code, n + 1)

/-- Reads a word of a quoted scalar behind the characters `done`, which are in reverse.  The flag
says that the word ends at an escaped line end. -/
def quotedWord (steps : Nat) (quote : Char) (done : List Char) (c : Cursor) :
    Option (List Char × Cursor × Bool) :=
  match steps with
  | 0 => none
  | steps + 1 =>
    if endsWord c.rest then some (done, c, false)
    else match c.rest with
      | [] => some (done, c, false)
      | ch :: rest =>
        if quote == '\'' && ch == '\'' && rest.head? == some '\'' then
          quotedWord steps quote ('\'' :: done) (c.skip 2)
        else if ch == quote then some (done, c, false)
        else if quote == '"' && ch == '\\' then
          if rest.head?.any isBreak then some (done, (c.skip 1).skipLine, true)
          else match escape? rest with
            | none => none
            | some (escaped, n) => quotedWord steps quote (escaped :: done) (c.skip (n + 1))
        else quotedWord steps quote (ch :: done) (c.skip 1)

/-- Reads words and gaps up to the closing quote. -/
def quotedRest (steps : Nat) (quote : Char) (done : List Char) (c : Cursor) :
    Option (List Char × Cursor) :=
  match steps with
  | 0 => none
  | steps + 1 =>
    if c.atDocumentMark || c.rest.isEmpty then none
    else match quotedWord (steps + 1) quote done c with
      | none => none
      | some (done, c, joined) =>
        if c.rest.head? == some quote then some (done.reverse, c.skip 1)
        else match Gap.read (steps + 1) 0 (if joined then .joined else .none) c with
          | none => none
          | some (gap, c) => quotedRest steps quote (gap.text.reverseAux done) c

/-- Reads a quoted scalar, at its opening quote. -/
def quotedScalar (steps : Nat) (quote : Char) (c : Cursor) : Option (List Char × Cursor) :=
  quotedRest steps quote [] (c.skip 1)

end TreeQuery.Yaml

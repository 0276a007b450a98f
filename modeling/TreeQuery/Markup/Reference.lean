import TreeQuery.Text.Quoted
import TreeQuery.Decimal.Reading

/-!
# References in text

In a run of text, `&` begins a reference and the next `;` ends it.  A reference names one of five
characters, or a code point by its decimal number after `#` or its hexadecimal one after `#x`.
Everything else in the run stands for itself.

The run is cut at every `&`; each piece after the first then begins with the name of a reference,
and what follows its `;` is literal.  A piece without `;` is an unfinished reference.
-/

namespace TreeQuery.Markup

/-- What is wrong with a reference.  Byte offsets count from the beginning of the run. -/
inductive ReferenceFault where
  /-- No `;` before the next `&` or the end of the run. -/
  | unfinished (first last : Nat)
  /-- A name that stands for nothing. -/
  | unknown (first last : Nat) (name : List Char)
  /-- The code point zero. -/
  | null (first last : Nat)
  /-- A hexadecimal number of more than six bytes. -/
  | longHexadecimal
  /-- A decimal number of more than seven bytes. -/
  | longDecimal
  /-- A byte that is no hexadecimal digit. -/
  | notHexadecimal (byte : Nat)
  /-- A byte that is no decimal digit. -/
  | notDecimal (byte : Nat)
  /-- A number that no character has. -/
  | noCharacter (n : Nat)
deriving Repr, DecidableEq

/-- The first byte of a character in UTF-8. -/
def leadByte (c : Char) : Nat :=
  let n := c.toNat
  if n < 0x80 then n
  else if n < 0x800 then 0xC0 + n / 0x40
  else if n < 0x10000 then 0xE0 + n / 0x1000
  else 0xF0 + n / 0x40000

namespace ReferenceFault

/-- The message of a fault. -/
def message : ReferenceFault → String
  | .unfinished first last => ranged first last "Cannot find ';' after '&'"
  | .unknown first last name =>
    ranged first last ("Unrecognized escape symbol: " ++ Text.quoted (String.ofList name))
  | .null first last => ranged first last "Null character entity not allowed"
  | .longHexadecimal => "Cannot convert hexadecimal to utf8"
  | .longDecimal => "Cannot convert decimal to utf8"
  | .notHexadecimal byte =>
    "'" ++ String.singleton (Char.ofNat byte) ++ "' is not a valid hexadecimal character"
  | .notDecimal byte =>
    "'" ++ String.singleton (Char.ofNat byte) ++ "' is not a valid decimal character"
  | .noCharacter n => "'" ++ toString n ++ "' is not a valid codepoint"
where
  /-- A message about a range of bytes. -/
  ranged (first last : Nat) (text : String) : String :=
    "Error while escaping character at range " ++ toString first ++ ".." ++ toString last ++ ": "
      ++ text

end ReferenceFault

/-- The characters that have a name. -/
def named? (name : List Char) : Option Char :=
  if name == ['l', 't'] then some '<'
  else if name == ['g', 't'] then some '>'
  else if name == ['a', 'm', 'p'] then some '&'
  else if name == ['a', 'p', 'o', 's'] then some '\''
  else if name == ['q', 'u', 'o', 't'] then some '"'
  else none

/-- The code point that digits in base `base` write; the first character that is no digit is the
fault.  No digits write zero. -/
def codePoint (base : Nat) (fault : Nat → ReferenceFault) (digits : List Char) :
    Except ReferenceFault Nat :=
  digits.foldlM (fun n c => match digitValue? base c with
    | some d => .ok (n * base + d)
    | none => .error (fault (leadByte c))) 0

/-- The character of a reference with the given name, whose `&` stands at byte `first` and whose
`;` stands at byte `last`. -/
def character (first last : Nat) (name : List Char) : Except ReferenceFault Char :=
  let ofCode (n : Nat) : Except ReferenceFault Char :=
    if n = 0 then .error (.null first last)
    else if n < 0xD800 || (0xDFFF < n && n < 0x110000) then .ok (Char.ofNat n)
    else .error (.noCharacter n)
  match name with
  | '#' :: 'x' :: digits =>
    if 6 < Text.byteLength digits then .error .longHexadecimal
    else codePoint 16 .notHexadecimal digits >>= ofCode
  | '#' :: digits =>
    if 7 < Text.byteLength digits then .error .longDecimal
    else codePoint 10 .notDecimal digits >>= ofCode
  | _ => match named? name with
    | some c => .ok c
    | none => .error (.unknown (first + 1) last name)

/-- Decodes the pieces after an `&` at byte `first`, in a run of `total` bytes, behind the
characters `done`, which are in reverse. -/
def decodePieces (total : Nat) (first : Nat) (done : List Char) :
    List (List Char) → Except ReferenceFault (List Char)
  | [] => .ok done.reverse
  | piece :: pieces =>
    match Text.cutAt? [';'] piece with
    | none => .error (.unfinished first total)
    | some (name, literal) =>
      match character first (first + 1 + Text.byteLength name) name with
      | .error fault => .error fault
      | .ok c =>
        decodePieces total (first + 1 + Text.byteLength piece)
          (literal.reverseAux (c :: done)) pieces

/-- The text that a run stands for. -/
def decode (run : List Char) : Except ReferenceFault (List Char) :=
  match Text.pieces (· == '&') run with
  | [] => .ok []
  | literal :: pieces =>
    decodePieces (Text.byteLength run) (Text.byteLength literal) literal.reverse pieces

end TreeQuery.Markup

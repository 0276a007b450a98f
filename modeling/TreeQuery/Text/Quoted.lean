import TreeQuery.Text.Printable

/-!
# Quoted text

Messages that repeat a piece of the input write it between double quotes on one line.  A quote and
a backslash take a backslash before them, tab, line feed, carriage return and the null character
have a letter, and any other character that cannot be shown by itself is written by its code point
in hexadecimal.
-/

namespace TreeQuery.Text

/-- One character of a quoted text. -/
def quotedChar (c : Char) : List Char :=
  if c == '"' then ['\\', '"']
  else if c == '\\' then ['\\', '\\']
  else if c == '\t' then ['\\', 't']
  else if c == '\n' then ['\\', 'n']
  else if c == '\r' then ['\\', 'r']
  else if c.toNat == 0 then ['\\', '0']
  else if isPrintable c then [c]
  else ['\\', 'u', '\x7b'] ++ Nat.toDigits 16 c.toNat ++ ['\x7d']

/-- The text between double quotes, with escapes. -/
def quoted (s : String) : String :=
  String.ofList (('"' :: s.toList.flatMap quotedChar) ++ ['"'])

end TreeQuery.Text

import TreeQuery.Json.Number

/-!
# Lexemes of value text

The text of a value is a sequence of marks, words and quoted texts between blanks.  `Token.ofText?`
cuts a text into them; each step takes at least one character, which bounds the recursion.
-/

namespace TreeQuery.Json

/-- A lexeme of value text. -/
inductive Token where
  | openArray | closeArray | openObject | closeObject | comma | colon
  /-- A quoted text, unquoted. -/
  | text (s : String)
  /-- A number, a truth value or null. -/
  | scalar (v : Json)

/-- The character that a backslash and a letter stand for. -/
def escaped? : Char → Option Char
  | '"' => some '"'
  | '\\' => some '\\'
  | '/' => some '/'
  | 'b' => some '\x08'
  | 'f' => some '\x0c'
  | 'n' => some '\n'
  | 'r' => some '\r'
  | 't' => some '\t'
  | _ => none

/-- The number that four hexadecimal digits write. -/
def unit? (a b c d : Char) : Option Nat := natural? 16 [a, b, c, d]

/-- The character of a surrogate pair. -/
def ofSurrogates (high low : Nat) : Char :=
  Char.ofNat (0x10000 + (high - 0xD800) * 0x400 + (low - 0xDC00))

/-- Reads a quoted text from behind its opening quote; `done` holds its characters so far in
reverse.  The result is the text and what follows its closing quote. -/
def quotedText? (done : List Char) : List Char → Option (String × List Char)
  | [] => none
  | '"' :: s => some (String.ofList done.reverse, s)
  | '\\' :: 'u' :: a :: b :: c :: d :: s =>
    match unit? a b c d with
    | none => none
    | some n =>
      if n < 0xD800 || 0xDFFF < n then quotedText? (Char.ofNat n :: done) s
      else if 0xDC00 ≤ n then none
      else match s with
        | '\\' :: 'u' :: a' :: b' :: c' :: d' :: t =>
          match unit? a' b' c' d' with
          | none => none
          | some m =>
            if 0xDC00 ≤ m && m ≤ 0xDFFF then quotedText? (ofSurrogates n m :: done) t else none
        | _ => none
  | '\\' :: e :: s =>
    match escaped? e with
    | some c => quotedText? (c :: done) s
    | none => none
  | c :: s => if c == '\\' || c.toNat < 0x20 then none else quotedText? (c :: done) s

/-- A quoted text takes its closing quote with it. -/
theorem length_of_quotedText {done s : List Char} {t : String} {rest : List Char}
    (h : quotedText? done s = some (t, rest)) : rest.length < s.length := by
  fun_induction quotedText? done s <;> simp_all <;> omega

/-- Whether a character can stand in a number or a word. -/
def inScalar (c : Char) : Bool := c.isAlphanum || c == '+' || c == '-' || c == '.'

/-- The value that a word or a number stands for. -/
def scalar? (s : List Char) : Option Json :=
  if s == ['n', 'u', 'l', 'l'] then some .null
  else if s == ['t', 'r', 'u', 'e'] then some (.bool true)
  else if s == ['f', 'a', 'l', 's', 'e'] then some (.bool false)
  else number? s

/-- The mark that a character is by itself. -/
def mark? : Char → Option Token
  | '[' => some .openArray
  | ']' => some .closeArray
  | '\x7b' => some .openObject
  | '\x7d' => some .closeObject
  | ',' => some .comma
  | ':' => some .colon
  | _ => none

/-- Whether a character may stand between two lexemes. -/
def isGap (c : Char) : Bool := c == ' ' || c == '\t' || c == '\n' || c == '\r'

theorem length_dropWhile_le (p : Char → Bool) (s : List Char) :
    (s.dropWhile p).length ≤ s.length :=
  (List.dropWhile_suffix p).length_le

/-- Cuts a text into lexemes; `done` holds the earlier ones in reverse. -/
def Token.scan (done : List Token) (s : List Char) : Option (List Token) :=
  match s with
  | [] => some done.reverse
  | c :: r =>
    if isGap c then scan done r
    else match mark? c with
      | some mark => scan (mark :: done) r
      | none =>
        if c == '"' then
          match _h : quotedText? [] r with
          | none => none
          | some (t, rest) => scan (.text t :: done) rest
        else if inScalar c then
          match scalar? (c :: r.takeWhile inScalar) with
          | none => none
          | some v => scan (.scalar v :: done) (r.dropWhile inScalar)
        else none
termination_by s.length
decreasing_by
  · simp
  · simp
  · have := length_of_quotedText _h
    simp only [List.length_cons]
    omega
  · have := length_dropWhile_le inScalar r
    simp only [List.length_cons]
    omega

/-- The lexemes of a text. -/
def Token.ofText? (s : List Char) : Option (List Token) := Token.scan [] s

end TreeQuery.Json

import TreeQuery.Json.Reader
import TreeQuery.Template.Basic

/-!
# The grammar of tags

Every function here reads a prefix of a text and gives what it read together with the rest, or
nothing if the text does not begin that way.  Alternatives are tried in order, and the first that
fits is final.  Between the parts of a tag blanks may stand; a reference has none inside, except
between brackets.

Literals nest in brackets and calls in parentheses.  Their readers take a bound on the number of
readers that are entered one inside the other: at most four for every character, since a level of
nesting takes its opening mark, and a further argument takes what it reads.
-/

namespace TreeQuery.Template

/-- A reader of some prefix of a text. -/
abbrev Reads (α : Type) := List Char → Option (α × List Char)

/-- A bound on the readers that are entered one inside the other on a text. -/
def bound (s : List Char) : Nat := 4 * s.length + 4

/-- The text behind its leading blanks. -/
def skipGap (s : List Char) : List Char := s.dropWhile Json.isGap

/-- The text behind `mark`, if it begins with that. -/
def behind? (mark s : List Char) : Option (List Char) :=
  if mark.isPrefixOf s then some (s.drop mark.length) else none

/-- Whether a character can stand in a name. -/
def isSymbol (c : Char) : Bool :=
  c.isAlphanum || ['_', '-', '$', ':'].contains c || 0x80 ≤ c.toNat

/-- Whether a text begins with a character that can stand in a name. -/
def beginsSymbol (s : List Char) : Bool := s.head?.any isSymbol

/-- A name. -/
def identifier? : Reads (List Char) := fun s =>
  if beginsSymbol s then some (s.takeWhile isSymbol, s.dropWhile isSymbol) else none

/-- The characters of a quoted name up to its closing quote, which they include; a quote behind a
backslash does not close it. -/
def quotedNameRest? : Reads (List Char)
  | [] => none
  | '\\' :: '\'' :: s => (quotedNameRest? s).map fun (name, rest) => ('\\' :: '\'' :: name, rest)
  | '\'' :: s => some (['\''], s)
  | c :: s => (quotedNameRest? s).map fun (name, rest) => (c :: name, rest)

/-- A name that a piece of template may have.  Between single quotes, which belong to the name, it
may have any characters, and at least one. -/
def pieceName? : Reads (List Char) := fun s =>
  let inName (c : Char) : Bool :=
    c.isAlphanum || ['_', '-', '/', '.', '@'].contains c || 0x80 ≤ c.toNat
  if s.head?.any inName then some (s.takeWhile inName, s.dropWhile inName)
  else match s with
    | '\'' :: t =>
      if t.head? == some '\'' then none
      else (quotedNameRest? t).map fun (name, rest) => ('\'' :: name, rest)
    | _ => none

/-! ## Literals -/

/-- The characters of a quoted text up to its closing quote, which they do not include. -/
def quotedInner? (quote : Char) (done : List Char) : Reads (List Char)
  | [] => none
  | '\\' :: 'u' :: a :: b :: c :: d :: s =>
    if [a, b, c, d].all fun h => (digitValue? 16 h).isSome then
      quotedInner? quote (d :: c :: b :: a :: 'u' :: '\\' :: done) s
    else none
  | '\\' :: e :: s =>
    if e == quote || ['\\', '/', 'b', 'f', 'n', 'r', 't'].contains e then
      quotedInner? quote (e :: '\\' :: done) s
    else none
  | c :: s =>
    if c == quote then some (done.reverse, s)
    else if c == '\\' then none
    else quotedInner? quote (c :: done) s

/-- A quoted text with its quotes. -/
def quotedLiteral? : Reads (List Char)
  | c :: s =>
    if c == '"' || c == '\'' then
      (quotedInner? c [] s).map fun (inner, rest) => (c :: inner ++ [c], rest)
    else none
  | [] => none

/-- A number: a point may stand without digits behind it, and the exponent has a capital letter. -/
def numberLiteral? : Reads (List Char) := fun s =>
  let (sign, s) : List Char × List Char := match s with
    | '-' :: t => (['-'], t)
    | t => ([], t)
  let whole := s.takeWhile isDigit
  if whole.isEmpty then none
  else
    let (fraction, s) : List Char × List Char := match s.dropWhile isDigit with
      | '.' :: t => ('.' :: t.takeWhile isDigit, t.dropWhile isDigit)
      | t => ([], t)
    let (exponent, s) : List Char × List Char := match s with
      | 'E' :: t =>
        let (minus, t) : List Char × List Char := match t with
          | '-' :: u => (['-'], u)
          | u => ([], u)
        if (t.takeWhile isDigit).isEmpty then ([], s)
        else ('E' :: minus ++ t.takeWhile isDigit, t.dropWhile isDigit)
      | t => ([], t)
    if beginsSymbol s then none else some (sign ++ whole ++ fraction ++ exponent, s)

/-- A word that is a literal. -/
def wordLiteral? (word : List Char) : Reads (List Char) := fun s =>
  (behind? word s).bind fun rest => if beginsSymbol rest then none else some (word, rest)

mutual

/-- The text of a literal. -/
def literalText? : Nat → Reads (List Char)
  | 0, _ => none
  | depth + 1, s =>
    let bracketed : Option (List Char × List Char) := match s with
      | '[' :: t => (arrayRest? depth t).map fun (inner, rest) => ('[' :: inner, rest)
      | '\x7b' :: t => (objectRest? depth t).map fun (inner, rest) => ('\x7b' :: inner, rest)
      | _ => none
    (quotedLiteral? s).orElse fun _ =>
    bracketed.orElse fun _ =>
    (numberLiteral? s).orElse fun _ =>
    (wordLiteral? ['n', 'u', 'l', 'l'] s).orElse fun _ =>
    (wordLiteral? ['t', 'r', 'u', 'e'] s).orElse fun _ =>
    wordLiteral? ['f', 'a', 'l', 's', 'e'] s

/-- The rest of an array, whose first item may be missing. -/
def arrayRest? : Nat → Reads (List Char)
  | 0, _ => none
  | depth + 1, s =>
    match literalText? depth (skipGap s) with
    | some (item, rest) =>
      (moreItems? depth rest).map fun (more, rest) => (item ++ more, rest)
    | none => moreItems? depth s

/-- Further items of an array with their commas, and its end. -/
def moreItems? : Nat → Reads (List Char)
  | 0, _ => none
  | depth + 1, s => match skipGap s with
    | ']' :: rest => some ([']'], rest)
    | ',' :: t => match literalText? depth (skipGap t) with
      | some (item, rest) =>
        (moreItems? depth rest).map fun (more, rest) => (',' :: item ++ more, rest)
      | none => none
    | _ => none

/-- The rest of an object, whose first member may be missing. -/
def objectRest? : Nat → Reads (List Char)
  | 0, _ => none
  | depth + 1, s =>
    match member? depth (skipGap s) with
    | some (member, rest) =>
      (moreMembers? depth rest).map fun (more, rest) => (member ++ more, rest)
    | none => moreMembers? depth s

/-- Further members of an object with their commas, and its end. -/
def moreMembers? : Nat → Reads (List Char)
  | 0, _ => none
  | depth + 1, s => match skipGap s with
    | '\x7d' :: rest => some (['\x7d'], rest)
    | ',' :: t => match member? depth (skipGap t) with
      | some (member, rest) =>
        (moreMembers? depth rest).map fun (more, rest) => (',' :: member ++ more, rest)
      | none => none
    | _ => none

/-- A member of an object. -/
def member? : Nat → Reads (List Char)
  | 0, _ => none
  | depth + 1, s => match quotedLiteral? s with
    | some (name, rest) => match skipGap rest with
      | ':' :: t =>
        (literalText? depth (skipGap t)).map fun (v, rest) => (name ++ ':' :: v, rest)
      | _ => none
    | none => none

end

/-- Writes a text between single quotes as one between double quotes. -/
def doubleQuoted (inner : List Char) : List Char :=
  let rec plain : List Char → List Char
    | '\\' :: '\'' :: s => '\'' :: plain s
    | c :: s => c :: plain s
    | [] => []
  '"' :: (plain inner).flatMap (fun c => if c == '"' then ['\\', '"'] else [c]) ++ ['"']

/-- The value of a literal; between double quotes and brackets it must be value text. -/
def literalValue? (text : List Char) : Option Json :=
  match text with
  | '\'' :: s => Json.ofText? (String.ofList (doubleQuoted s.dropLast))
  | s => Json.ofText? (String.ofList s)

/-! ## References -/

/-- A slash or a point. -/
def separator? : List Char → Option (List Char)
  | '/' :: s => some s
  | '.' :: s => some s
  | _ => none

/-- A part of a reference: a name, the current scope, or a name between brackets. -/
def segment? : Reads (List Segment) := fun s =>
  let named (name : List Char) : List Segment :=
    if name == ['t', 'h', 'i', 's'] then [] else [.name (String.ofList name)]
  match identifier? s with
  | some (name, rest) => some (named name, rest)
  | none => match s with
    | '.' :: '/' :: rest => some ([], rest)
    | '[' :: t => match t.dropWhile (· != ']') with
      | _ :: rest => some (named (t.takeWhile (· != ']')), rest)
      | [] => none
    | _ => none

/-- Further parts of a reference, each behind a separator. -/
def moreSegments : Nat → List Char → List Segment × List Char
  | 0, s => ([], s)
  | steps + 1, s => match (separator? s).bind segment? with
    | none => ([], s)
    | some (first, rest) =>
      let (more, rest) := moreSegments steps rest
      (first ++ more, rest)

/-- Steps up to enclosing scopes. -/
def upward : Nat → List Char → List Segment × List Char
  | 0, s => ([], s)
  | steps + 1, s => match (behind? ['.', '.'] s).bind separator? with
    | none => ([], s)
    | some rest =>
      let (more, rest) := upward steps rest
      (.up :: more, rest)

/-- The segments of a reference. -/
def segments? : Reads (List Segment) := fun s =>
  let s₁ := (((behind? ['t', 'h', 'i', 's'] s).bind separator?).or (behind? ['.', '/'] s)).getD s
  let (root, s₂) : List Segment × List Char :=
    match (behind? ['@', 'r', 'o', 'o', 't'] s₁).bind separator? with
    | some rest => ([.root], rest)
    | none => ([], s₁)
  let (loop, s₃) : List Segment × List Char := match s₂ with
    | '@' :: rest => ([.loop], rest)
    | rest => ([], rest)
  let (ups, s₄) := upward s₃.length s₃
  (segment? s₄).map fun (first, s₅) =>
    let (more, rest) := moreSegments s₅.length s₅
    (root ++ loop ++ ups ++ first ++ more, rest)

/-- A reference with its text as written. -/
def reference? : Reads Term := fun s =>
  (segments? s).map fun (segments, rest) =>
    (.reference (String.ofList (s.take (s.length - rest.length))) segments, rest)

/-! ## Terms and calls -/

/-- Whether a text begins with a word that ends the arguments. -/
def beginsKeyword (s : List Char) : Bool :=
  let word (w : List Char) : Bool := match behind? w s with
    | some rest => !beginsSymbol (skipGap rest)
    | none => false
  word ['a', 's'] || word ['e', 'l', 's', 'e']

mutual

/-- An argument. -/
def argument? : Nat → Reads Term
  | 0, _ => none
  | depth + 1, s =>
    if beginsKeyword s then none
    else match literalText? (bound s) s with
      | some (text, rest) => (literalValue? text).map fun v => (.literal v, rest)
      | none => (reference? s).orElse fun _ => parenthesised? depth s

/-- A named argument, or one without a name. -/
def namedOrNot? : Nat → Reads (Option String × Term)
  | 0, _ => none
  | depth + 1, s =>
    let named : Option ((Option String × Term) × List Char) := do
      let (name, rest) ← identifier? s
      let rest ← behind? ['='] (skipGap rest)
      let (value, rest) ← argument? depth (skipGap rest)
      return ((some (String.ofList name), value), rest)
    named.orElse fun _ => (argument? depth s).map fun (value, rest) => ((none, value), rest)

/-- As many arguments as there are. -/
def arguments : Nat → List Char → List (Option String × Term) × List Char
  | 0, s => ([], s)
  | depth + 1, s => match namedOrNot? depth (skipGap s) with
    | none => ([], s)
    | some (first, rest) =>
      let (more, rest) := arguments depth rest
      (first :: more, rest)

/-- A call between parentheses: a name with arguments, or a bare reference. -/
def parenthesised? : Nat → Reads Term
  | 0, _ => none
  | depth + 1, s => match s with
    | '(' :: t =>
      let t := skipGap t
      let inner : Option (Term × List Char) :=
        match identifier? t with
        | none => none
        | some (name, rest) => match arguments depth rest with
          | ([], _) => none
          | (args, rest) => some (.call (.word (String.ofList name))
              (args.filterMap fun a => if a.1.isNone then some a.2 else none)
              (Bindings.ofPairs (args.filterMap fun a => a.1.map (·, a.2))), rest)
      let inner := inner.orElse fun _ =>
        (reference? t).map fun (r, rest) => (.call r [] [], rest)
      inner.bind fun (term, rest) => match skipGap rest with
        | ')' :: rest => some (term, rest)
        | _ => none
    | _ => none

end

/-- A call from its head and its arguments. -/
def Call.ofArguments (head : Term) (args : List (Option String × Term))
    (blockNames : List String) : Call :=
  { head
    args := args.filterMap fun a => if a.1.isNone then some a.2 else none
    named := Bindings.ofPairs (args.filterMap fun a => a.1.map (·, a.2))
    blockNames }

/-- A call between parentheses, or a reference. -/
def head? : Reads Term := fun s =>
  (parenthesised? (bound s) s).orElse fun _ => reference? s

/-- What an expression writes: a helper with arguments, or a head alone. -/
def expressionCall? : Reads Call := fun s =>
  let withArguments : Option (Call × List Char) := match identifier? s with
    | none => none
    | some (name, rest) => match arguments (bound s) rest with
      | ([], _) => none
      | (args, rest) => some (.ofArguments (.word (String.ofList name)) args [], rest)
  withArguments.orElse fun _ =>
    (head? s).map fun (head, rest) => (.ofArguments head [] [], rest)

/-- The names that a block gives, between bars. -/
def blockNames? : Reads (List String) := fun s => do
  let rest ← behind? ['a', 's'] s
  let rest ← behind? ['|'] (skipGap rest)
  let (first, rest) ← identifier? (skipGap rest)
  let (second, rest) := match identifier? (skipGap rest) with
    | some (name, rest) => ([String.ofList name], rest)
    | none => ([], rest)
  let rest ← behind? ['|'] (skipGap rest)
  return (String.ofList first :: second, rest)

/-- The call of a block or a directive: a name, arguments, and the names that the block gives. -/
def blockCall? : Reads Call := fun s =>
  (identifier? s).map fun (name, rest) =>
    let (args, rest) := arguments (bound s) rest
    let (names, rest) := (blockNames? (skipGap rest)).getD ([], rest)
    (.ofArguments (.word (String.ofList name)) args names, rest)

/-- The call of an insertion: the name of a piece, or a head that gives it, and arguments. -/
def insertionCall? : Reads Call := fun s =>
  let name : Option (Term × List Char) := match pieceName? s with
    | some (name, rest) => some (.word (String.ofList name), rest)
    | none => head? s
  name.map fun (head, rest) =>
    let (args, rest) := arguments (bound s) rest
    (.ofArguments head args [], rest)

end TreeQuery.Template

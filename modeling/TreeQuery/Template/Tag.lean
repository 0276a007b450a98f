import TreeQuery.Template.Grammar
import TreeQuery.Text.Blank

/-!
# Tags

A tag stands between double braces.  What it begins with tells its kind; a `~` right inside of its
braces takes away the blanks outside of them.  Braces behind a backslash are text.
-/

namespace TreeQuery.Template

/-- The kinds of tags. -/
inductive Tag.Kind where
  /-- Writes a value. -/
  | expression (call : Call)
  /-- Begins a block. -/
  | opening (call : Call)
  /-- Begins the part of a block for which its condition fails, possibly with a further block. -/
  | otherwise (call : Option Call)
  /-- Ends a block, a directive or an insertion with contents, which it may name. -/
  | closing (name : Option String)
  /-- A directive without contents. -/
  | directive (call : Call)
  /-- Begins a directive with contents. -/
  | directiveOpening (call : Call)
  /-- An insertion without contents. -/
  | insertion (call : Call)
  /-- Begins an insertion with contents. -/
  | insertionOpening (call : Call)
  /-- Begins a block whose contents are literal. -/
  | rawOpening (call : Call)
  /-- A remark. -/
  | comment

/-- A tag. -/
structure Tag where
  /-- What it is. -/
  kind : Tag.Kind
  /-- Whether it takes away the blanks before it. -/
  trimBefore : Bool
  /-- Whether it takes away the blanks behind it. -/
  trimAfter : Bool

namespace Tag

/-- Reads what stands between two marks, with the blanks and the `~` that may surround it. -/
def between? {α : Type} (opening closing : List Char) (inner : Reads α) :
    Reads (Bool × α × Bool) := fun s => do
  let rest ← behind? opening s
  let rest := skipGap rest
  let (trimBefore, rest) : Bool × List Char := match rest with
    | '~' :: t => (true, skipGap t)
    | t => (false, t)
  let (value, rest) ← inner rest
  let rest := skipGap rest
  let (trimAfter, rest) : Bool × List Char := match rest with
    | '~' :: t => (true, skipGap t)
    | t => (false, t)
  let rest ← behind? closing rest
  return ((trimBefore, value, trimAfter), rest)

/-- Reads `inner` behind a mark and blanks. -/
def after? {α : Type} (mark : List Char) (inner : Reads α) : Reads α := fun s =>
  (behind? mark s).bind fun rest => inner (skipGap rest)

/-- Two braces. -/
def opening : List Char := ['\x7b', '\x7b']

/-- Two closing braces. -/
def closing : List Char := ['\x7d', '\x7d']

/-- A tag of a kind, between double braces. -/
def doubled? {α : Type} (kind : α → Kind) (inner : Reads α) : Reads Tag := fun s =>
  (between? opening closing inner s).map fun ((trimBefore, a, trimAfter), rest) =>
    (⟨kind a, trimBefore, trimAfter⟩, rest)

/-- The mark of the part for which a condition fails. -/
def otherwiseMark? : Reads Unit := fun s =>
  ((behind? ['e', 'l', 's', 'e'] s).or (behind? ['^'] s)).map ((), ·)

/-- The tag that begins such a part. -/
def otherwise? : Reads Tag := fun s =>
  (doubled? (fun _ => .otherwise none) otherwiseMark? s).orElse fun _ =>
    doubled? (fun call => .otherwise (some call))
      (fun s => (otherwiseMark? s).bind fun (_, rest) => blockCall? (skipGap rest)) s

/-- An expression between double braces, between triple ones, or behind `&`. -/
def expression? : Reads Tag := fun s =>
  let plain : Option (Tag × List Char) :=
    if (otherwise? s).isSome then none else doubled? .expression expressionCall? s
  plain.orElse fun _ =>
  (((between? ('\x7b' :: opening) ('\x7d' :: closing) expressionCall? s).map
    fun ((trimBefore, call, trimAfter), rest) =>
      ((⟨.expression call, trimBefore, trimAfter⟩ : Tag), rest))).orElse fun _ =>
  (doubled? .expression (after? ['\x7b'] fun s => do
    let (call, rest) ← expressionCall? s
    let rest ← behind? ['\x7d'] (skipGap rest)
    return (call, rest)) s).orElse fun _ =>
  doubled? .expression
    (after? ['&'] fun s => (head? s).map fun (head, rest) => (.ofArguments head [] [], rest)) s

/-- A remark: up to `--` and two braces if it begins with `--`, and else up to two braces. -/
def comment? : Reads Tag := fun s => do
  let rest ← behind? (opening ++ ['!']) s
  let dashed : Option (List Char) := do
    let inner ← behind? ['-', '-'] (skipGap rest)
    let (_, rest) ← Text.cutAt? ('-' :: '-' :: closing) inner
    return rest
  let rest ← dashed.or ((Text.cutAt? closing rest).map Prod.snd)
  return (⟨.comment, false, false⟩, rest)

/-- A closing tag, with what may stand in it for a name. -/
def closing? (name? : Reads (Option String)) : Reads Tag :=
  doubled? .closing (after? ['/'] name?)

/-- A tag that begins an element. -/
def ofText? : Reads Tag := fun s =>
  (expression? s).orElse fun _ =>
  (doubled? .opening (after? ['#'] blockCall?) s).orElse fun _ =>
  ((between? (opening ++ opening) (closing ++ closing) blockCall? s).map
    fun ((trimBefore, call, trimAfter), rest) =>
      ((⟨.rawOpening call, trimBefore, trimAfter⟩ : Tag), rest)).orElse fun _ =>
  (comment? s).orElse fun _ =>
  (doubled? .directive (after? ['*'] blockCall?) s).orElse fun _ =>
  (doubled? .directiveOpening (after? ['#'] (after? ['*'] blockCall?)) s).orElse fun _ =>
  (doubled? .insertion (after? ['>'] insertionCall?) s).orElse fun _ =>
  doubled? .insertionOpening (after? ['#'] (after? ['>'] insertionCall?)) s

/-- The closing tag of a literal block. -/
def rawClosing? : Reads Tag := fun s =>
  (between? (opening ++ opening) (closing ++ closing) (after? ['/'] identifier?) s).map
    fun ((trimBefore, name, trimAfter), rest) =>
      (⟨.closing (some (String.ofList name)), trimBefore, trimAfter⟩, rest)

end Tag

/-- The backslashes that a text begins with. -/
def leadingBackslashes (s : List Char) : List Char := s.takeWhile (· == '\\')

/-- Reads literal text up to `mark`, which is two or four braces.  One backslash before two braces
makes them text; of several backslashes before two braces one is taken away.  The first result is
the text, in reverse and behind `done`; the second one is the rest. -/
def literalRun (mark : List Char) (steps : Nat) (done : List Char) (s : List Char) :
    List Char × List Char :=
  match steps with
  | 0 => (done, s)
  | steps + 1 =>
    let slashes := leadingBackslashes s
    let behind := s.drop slashes.length
    if slashes.length = 1 && Tag.opening.isPrefixOf behind then
      let braces := if (Tag.opening ++ Tag.opening).isPrefixOf behind then 4 else 2
      literalRun mark steps (List.replicate braces '\x7b' ++ done) (behind.drop braces)
    else if 1 < slashes.length && Tag.opening.isPrefixOf behind then
      literalRun mark steps (slashes.drop 1 ++ done) behind
    else if mark.isPrefixOf s then (done, s)
    else match s with
      | [] => (done, [])
      | c :: rest => literalRun mark steps (c :: done) rest

end TreeQuery.Template

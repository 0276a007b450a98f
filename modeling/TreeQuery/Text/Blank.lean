/-!
# Blank characters, words and lines

Blank is the Unicode property White_Space, 25 characters in ten ranges; markup, paths and plans
all use it where they speak of blank text.  `pieces` cuts a text at every character of a kind, and
everything else here is said through it: the words of a text are its non-empty pieces between
blanks, `collapse` writes the words one space apart, and the lines of a text are its pieces between
line feeds.

The functions work on lists of characters.  `pieces` is a right fold, so that a text of any length
is cut without deep recursion.
-/

namespace TreeQuery.Text

/-- Whether a code point lies in one of the closed ranges. -/
def inRanges (ranges : List (Nat × Nat)) (n : Nat) : Bool :=
  ranges.any fun r => r.1 ≤ n && n ≤ r.2

/-- The code points with the property White_Space, as ascending closed ranges. -/
def blankRanges : List (Nat × Nat) :=
  [(0x09, 0x0D), (0x20, 0x20), (0x85, 0x85), (0xA0, 0xA0), (0x1680, 0x1680), (0x2000, 0x200A),
   (0x2028, 0x2029), (0x202F, 0x202F), (0x205F, 0x205F), (0x3000, 0x3000)]

/-- Whether a character is white space. -/
def isBlank (c : Char) : Bool := inRanges blankRanges c.toNat

/-- Whether a text has no character but white space; the empty text has none. -/
def allBlank (s : List Char) : Bool := s.all isBlank

/-- The text after its leading white space. -/
def trimStart (s : List Char) : List Char := s.dropWhile isBlank

/-- The text before its trailing white space. -/
def trimEnd (s : List Char) : List Char := (s.reverse.dropWhile isBlank).reverse

/-- The text cut at every character that satisfies `p`: one piece more than there are cuts. -/
def pieces (p : Char → Bool) (s : List Char) : List (List Char) :=
  s.foldr
    (fun c found =>
      if p c then [] :: found
      else match found with
        | [] => [[c]]
        | piece :: others => (c :: piece) :: others)
    [[]]

/-- The non-empty pieces of a text. -/
def parts (p : Char → Bool) (s : List Char) : List (List Char) :=
  (pieces p s).filter fun piece => !piece.isEmpty

/-- The words of a text: its longest runs without white space. -/
def words (s : List Char) : List (List Char) := parts isBlank s

/-- The words of a text, one space apart. -/
def collapse (s : List Char) : List Char := [' '].intercalate (words s)

/-- A line whose ending was a line feed, without the carriage return that the feed may follow. -/
def withoutReturn (line : List Char) : List Char :=
  if line.getLast? == some '\r' then line.dropLast else line

/-- The lines of a text.  A line ends at a line feed, with or without a carriage return before it;
the text after the last feed is a line only if it is not empty, and keeps its carriage return. -/
def lines (s : List Char) : List (List Char) :=
  let cut := pieces (· == '\n') s
  let last := cut.getLast?.getD []
  cut.dropLast.map withoutReturn ++ (if last.isEmpty then [] else [last])

/-- Lines put together with a line feed between two of them. -/
def joinLines (ls : List (List Char)) : List Char := ['\n'].intercalate ls

/-- The number of bytes of a text in UTF-8. -/
def byteLength (s : List Char) : Nat := s.foldl (fun n c => n + c.utf8Size) 0

/-- Whether `mark` occurs somewhere in the text. -/
def occursIn (mark : List Char) : List Char → Bool
  | [] => mark.isEmpty
  | c :: s => mark.isPrefixOf (c :: s) || occursIn mark s

/-- The text before the first occurrence of `mark` and the text after it. -/
def cutAt? (mark : List Char) (s : List Char) : Option (List Char × List Char) :=
  go [] s
where
  /-- The search, with the characters passed so far in reverse. -/
  go (passed : List Char) : List Char → Option (List Char × List Char)
    | [] => if mark.isEmpty then some (passed.reverse, []) else none
    | c :: s =>
      if mark.isPrefixOf (c :: s) then some (passed.reverse, (c :: s).drop mark.length)
      else go (c :: passed) s

/-- The mark and what follows it lie within the text. -/
theorem length_of_cutAt {mark s before after : List Char}
    (h : cutAt? mark s = some (before, after)) : after.length + mark.length ≤ s.length := by
  have key : ∀ (s passed : List Char), cutAt?.go mark passed s = some (before, after) →
      after.length + mark.length ≤ s.length := by
    intro s
    induction s with
    | nil =>
      intro passed h
      simp only [cutAt?.go] at h
      split at h
      · next empty =>
        simp only [Option.some.injEq, Prod.mk.injEq] at h
        simp [← h.2, List.isEmpty_iff.1 empty]
      · simp at h
    | cons c s ih =>
      intro passed h
      simp only [cutAt?.go] at h
      split at h
      · next found =>
        simp only [Option.some.injEq, Prod.mk.injEq] at h
        have := (List.isPrefixOf_iff_prefix.1 found).length_le
        rw [← h.2]
        simp only [List.length_drop]
        omega
      · exact Nat.le_succ_of_le (ih _ h)
  exact key s [] h

end TreeQuery.Text

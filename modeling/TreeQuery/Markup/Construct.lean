import TreeQuery.Text.Blank

/-!
# Where markup ends

A `<` begins a tag, a comment, a character data section, a processing instruction or a document
type declaration, and each kind ends at a `>` by a rule of its own: the `>` of a tag stands outside
of quotes, that of a declaration outside of nested angle brackets, that of a comment behind `--`
and that of a data section behind `]]`.

A `Cut` is the content of a construct and the text behind its `>`.  All functions here take the
text behind the `<`.
-/

namespace TreeQuery.Markup

/-- The blanks that separate names inside markup. -/
def isGap (c : Char) : Bool := c == ' ' || c == '\t' || c == '\r' || c == '\n'

/-- The content of a construct, and the text behind it. -/
structure Cut where
  /-- What stands between `<` and the final `>`. -/
  content : List Char
  /-- What follows the final `>`. -/
  rest : List Char
deriving Repr

/-- Cuts at the first character that ends the construct.  The state says what may be skipped:
`next state c` is the state behind `c`, or `none` if `c` is the end; `content` holds what was
skipped, in reverse. -/
def cutBy? {σ : Type} (next : σ → Char → Option σ) (state : σ) (content : List Char) :
    List Char → Option Cut
  | [] => none
  | c :: s => match next state c with
    | none => some ⟨content.reverse, s⟩
    | some state' => cutBy? next state' (c :: content) s

theorem length_of_cutBy {σ : Type} {next : σ → Char → Option σ} {state : σ} {content s : List Char}
    {cut : Cut} (h : cutBy? next state content s = some cut) : cut.rest.length < s.length := by
  induction s generalizing state content with
  | nil => simp [cutBy?] at h
  | cons c s ih =>
    simp only [cutBy?] at h
    split at h
    · simp only [Option.some.injEq] at h
      simp [← h]
    · exact Nat.lt_succ_of_lt (ih h)

/-- A tag: quotes of either kind hide a `>` between them. -/
def tag? (s : List Char) : Option Cut :=
  cutBy? (fun quote c => match quote with
    | none =>
      if c == '>' then none
      else some (if c == '"' || c == '\'' then some c else none)
    | some q => some (if c == q then none else some q)) (none : Option Char) [] s

/-- A document type declaration: nested angle brackets must be balanced. -/
def doctype? (s : List Char) : Option Cut :=
  cutBy? (fun depth c =>
    if c == '<' then some (depth + 1)
    else if c == '>' then (if depth = 0 then none else some (depth - 1))
    else some depth) 0 [] s

/-- A comment: the first `-->` behind the three characters that a comment begins with. -/
def comment? (s : List Char) : Option Cut :=
  (Text.cutAt? ['-', '-', '>'] (s.drop 3)).map fun (inner, rest) =>
    ⟨s.take 3 ++ inner ++ ['-', '-'], rest⟩

/-- A character data section: the first `]]>`. -/
def dataSection? (s : List Char) : Option Cut :=
  (Text.cutAt? [']', ']', '>'] s).map fun (inner, rest) => ⟨inner ++ [']', ']'], rest⟩

/-- An end tag or a processing instruction: the first `>`.  The end of the text ends them too; the
flag says whether there was a `>`. -/
def plain (s : List Char) : Cut × Bool :=
  match s.dropWhile (· != '>') with
  | [] => (⟨s, []⟩, false)
  | _ :: rest => (⟨s.takeWhile (· != '>'), rest⟩, true)

theorem length_of_tag {s : List Char} {cut : Cut} (h : tag? s = some cut) :
    cut.rest.length < s.length := length_of_cutBy h

theorem length_of_doctype {s : List Char} {cut : Cut} (h : doctype? s = some cut) :
    cut.rest.length < s.length := length_of_cutBy h

theorem length_of_comment {s : List Char} {cut : Cut} (h : comment? s = some cut) :
    cut.rest.length < s.length := by
  simp only [comment?, Option.map_eq_some_iff] at h
  obtain ⟨⟨inner, rest⟩, h, rfl⟩ := h
  have := Text.length_of_cutAt h
  simp only [List.length_drop, List.length_cons, List.length_nil] at this ⊢
  omega

theorem length_of_dataSection {s : List Char} {cut : Cut} (h : dataSection? s = some cut) :
    cut.rest.length < s.length := by
  simp only [dataSection?, Option.map_eq_some_iff] at h
  obtain ⟨⟨inner, rest⟩, h, rfl⟩ := h
  have := Text.length_of_cutAt h
  simp only [List.length_cons, List.length_nil] at this ⊢
  omega

theorem length_of_plain {s : List Char} (h : s ≠ []) : (plain s).1.rest.length < s.length := by
  simp only [plain]
  split
  · exact List.length_pos_iff.2 h
  · next _ rest eq =>
    have := (List.dropWhile_suffix (· != '>') (l := s)).length_le
    rw [eq, List.length_cons] at this
    exact this

/-- The name that stands first in the content of a tag. -/
def leadingName (content : List Char) : List Char := content.takeWhile fun c => !isGap c

/-- The name in the content of an end tag, given without its `/`: trailing gaps do not belong to
it, unless there is nothing else. -/
def endName (content : List Char) : List Char :=
  let trimmed := (content.reverse.dropWhile isGap).reverse
  if trimmed.isEmpty then content else trimmed

/-- Whether a text begins with `mark`, small and capital letters being alike. -/
def beginsWith (mark s : List Char) : Bool :=
  (s.take mark.length).map Char.toLower == mark.map Char.toLower

end TreeQuery.Markup

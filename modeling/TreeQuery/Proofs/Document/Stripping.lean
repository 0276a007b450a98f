import TreeQuery.Proofs.Path.Normal
import TreeQuery.Query

/-!
# Dropping declaration lines

`Declares` says of a line that it is one to be dropped.  Behind a line feed the lines of a text are
those of the rest (`Text.lines_append_feed`), so a declaration line leaves no trace wherever it
stood, neither in what is read of the document nor in the lines around it; and as the lines that
are kept have no line feed in them, none is made by putting them together
(`strip_eq_of_declares`).
-/

namespace TreeQuery

namespace Text

/-- Up to a line feed the pieces of a text are lines, and behind it others begin. -/
theorem lines_append_feed (u v : List Char) :
    lines (u ++ '\n' :: v) = (pieces (· == '\n') u).map withoutReturn ++ lines v := by
  have cut : pieces (· == '\n') (u ++ '\n' :: v) =
      pieces (· == '\n') u ++ pieces (· == '\n') v := pieces_append_cut rfl u v
  have filled := pieces_ne_nil (· == '\n') v
  have last : (pieces (· == '\n') u ++ pieces (· == '\n') v).getLast? =
      (pieces (· == '\n') v).getLast? := by
    rw [List.getLast?_append, List.getLast?_eq_some_getLast filled, Option.some_or]
  simp only [lines]
  rw [cut, List.dropLast_append_of_ne_nil filled, last, List.map_append, List.append_assoc]

/-- The first line of a text ends at the first line feed. -/
theorem lines_line_append {line : List Char} (single : '\n' ∉ line) (v : List Char) :
    lines (line ++ '\n' :: v) = withoutReturn line :: lines v := by
  have whole : pieces (· == '\n') line = [line] :=
    pieces_of_neg fun c hc cut => single (eq_of_beq cut ▸ hc)
  rw [lines_append_feed, whole]
  rfl

/-- A line is a piece between line feeds, possibly without its carriage return. -/
theorem exists_piece_of_mem_lines {s line : List Char} (h : line ∈ lines s) :
    ∃ piece ∈ pieces (· == '\n') s, line = piece ∨ line = withoutReturn piece := by
  simp only [lines] at h
  rcases List.mem_append.mp h with h | h
  · obtain ⟨piece, mem, rfl⟩ := List.mem_map.mp h
    exact ⟨piece, List.dropLast_subset _ mem, .inr rfl⟩
  · split at h
    · cases h
    · obtain rfl := List.mem_singleton.mp h
      refine ⟨_, ?_, .inl rfl⟩
      have filled := pieces_ne_nil (· == '\n') s
      rw [List.getLast?_eq_some_getLast filled]
      exact List.getLast_mem filled

theorem begins_withoutReturn (line : List Char) : withoutReturn line <+: line := by
  unfold withoutReturn
  split
  · exact List.dropLast_prefix line
  · exact List.prefix_refl line

theorem feed_notMem_of_mem_lines {s line : List Char} (h : line ∈ lines s) : '\n' ∉ line := by
  obtain ⟨piece, mem, same⟩ := exists_piece_of_mem_lines h
  have free : '\n' ∉ piece := fun inside => not_of_mem_pieces mem '\n' inside rfl
  rcases same with rfl | rfl
  · exact free
  · exact fun inside => free ((begins_withoutReturn piece).subset inside)

end Text

namespace Document

/-- Whether a line has `<!` as its first characters that are not white space. -/
def Declares (line : List Char) : Prop :=
  ∃ gap rest, (∀ c ∈ gap, Text.isBlank c = true) ∧ line = gap ++ '<' :: '!' :: rest

theorem isDeclaration_iff {line : List Char} : isDeclaration line = true ↔ Declares line := by
  rw [isDeclaration, List.isPrefixOf_iff_prefix]
  constructor
  · rintro ⟨rest, begins⟩
    refine ⟨line.takeWhile Text.isBlank, rest, List.all_eq_true.mp List.all_takeWhile, ?_⟩
    calc
      line = line.takeWhile Text.isBlank ++ Text.trimStart line :=
        List.takeWhile_append_dropWhile.symm
      _ = line.takeWhile Text.isBlank ++ '<' :: '!' :: rest := by rw [← begins]; rfl
  · rintro ⟨gap, rest, blank, rfl⟩
    refine ⟨rest, ?_⟩
    rw [Text.trimStart, List.dropWhile_append_of_pos blank, List.dropWhile_cons_of_neg (by decide)]
    rfl

/-- Whether a line is a declaration is told before its end. -/
theorem declares_withoutReturn {line : List Char} :
    Declares (Text.withoutReturn line) ↔ Declares line := by
  constructor
  · rintro ⟨gap, rest, blank, written⟩
    obtain ⟨ending, whole⟩ := Text.begins_withoutReturn line
    refine ⟨gap, rest ++ ending, blank, ?_⟩
    rw [← whole, written]
    simp
  · rintro ⟨gap, rest, blank, rfl⟩
    unfold Text.withoutReturn
    split
    · next returns =>
      -- The carriage return is not the `!`, so it stands behind it.
      have behind : rest ≠ [] := by
        rintro rfl
        simp at returns
      refine ⟨gap, rest.dropLast, blank, ?_⟩
      rw [List.dropLast_append_of_ne_nil (by simp), List.dropLast_cons_of_ne_nil (by simp),
        List.dropLast_cons_of_ne_nil behind]
    · exact ⟨gap, rest, blank, rfl⟩

/-- A declaration line leaves no trace. -/
theorem withoutDeclarations_insert {u d : List Char} (ends : u = [] ∨ ∃ t, u = t ++ ['\n'])
    (single : '\n' ∉ d) (declares : Declares d) (v : List Char) :
    withoutDeclarations (u ++ (d ++ '\n' :: v)) = withoutDeclarations (u ++ v) := by
  have dropped : isDeclaration (Text.withoutReturn d) = true :=
    isDeclaration_iff.mpr (declares_withoutReturn.mpr declares)
  have behind : (Text.lines (d ++ '\n' :: v)).filter (fun line => !isDeclaration line) =
      (Text.lines v).filter fun line => !isDeclaration line := by
    rw [Text.lines_line_append single, List.filter_cons_of_neg (by simp [dropped])]
  rcases ends with rfl | ⟨t, rfl⟩
  · exact congrArg Text.joinLines behind
  · have feed : ∀ s, t ++ ['\n'] ++ s = t ++ '\n' :: s := fun s => by simp
    rw [feed, feed, withoutDeclarations, withoutDeclarations, Text.lines_append_feed t,
      Text.lines_append_feed t, List.filter_append, List.filter_append, behind]

/-- What is left has only lines that were kept. -/
theorem exists_line_of_mem_splitOn {s line : List Char}
    (h : line ∈ (withoutDeclarations s).splitOn '\n') :
    line = [] ∨ line ∈ Text.lines s ∧ ¬ Declares line := by
  rw [withoutDeclarations, Text.joinLines] at h
  by_cases none : (Text.lines s).filter (fun line => !isDeclaration line) = []
  · rw [none] at h
    exact .inl (by simpa using h)
  · have kept : ∀ line ∈ (Text.lines s).filter (fun line => !isDeclaration line),
        line ∈ Text.lines s ∧ ¬ Declares line := by
      intro line mem
      obtain ⟨mem, printed⟩ := List.mem_filter.mp mem
      exact ⟨mem, fun declares => by simp [isDeclaration_iff.mpr declares] at printed⟩
    rw [List.splitOn_intercalate '\n'
      (fun line mem => Text.feed_notMem_of_mem_lines (kept line mem).1) none] at h
    exact .inr (kept line h)

/-- No declaration line is left, and putting the other lines together makes none. -/
theorem not_declares_of_mem_splitOn {s line : List Char}
    (h : line ∈ (withoutDeclarations s).splitOn '\n') : ¬ Declares line := by
  rcases exists_line_of_mem_splitOn h with rfl | ⟨-, kept⟩
  · rintro ⟨gap, rest, -, written⟩
    simp at written
  · exact kept

/-- **Dropping declaration lines hides them.**  A text with a declaration line at its beginning or
behind a line feed is stripped to the same text as the one without that line; so documents that
differ by it have the same root element or the same error, and queries the same result.  No line of
a stripped text is a declaration line. -/
theorem strip_eq_of_declares :
    (∀ u d v : String, (u = "" ∨ ∃ t, u = t ++ "\n") → '\n' ∉ d.toList → Declares d.toList →
      strip (u ++ d ++ "\n" ++ v) = strip (u ++ v) ∧
        parse (u ++ d ++ "\n" ++ v) .stripping = parse (u ++ v) .stripping ∧
        ∀ path, query (u ++ d ++ "\n" ++ v) path .stripping = query (u ++ v) path .stripping) ∧
    ∀ (t : String) (line : List Char),
      line ∈ (strip t).toList.splitOn '\n' ∨ line ∈ Text.lines (strip t).toList →
        ¬ Declares line := by
  constructor
  · intro u d v ends single declares
    have same : withoutDeclarations (u ++ d ++ "\n" ++ v).toList =
        withoutDeclarations (u ++ v).toList := by
      have ends' : u.toList = [] ∨ ∃ t, u.toList = t ++ ['\n'] := by
        rcases ends with rfl | ⟨t, rfl⟩
        · exact .inl rfl
        · exact .inr ⟨t.toList, by simp⟩
      simpa using withoutDeclarations_insert ends' single declares v.toList
    have read : parse (u ++ d ++ "\n" ++ v) .stripping = parse (u ++ v) .stripping :=
      congrArg (fun s => build Builder.start (Markup.Reader.ofText s)) same
    refine ⟨congrArg String.ofList same, read, fun path => ?_⟩
    rw [query, query, read]
  · intro t line h
    rw [strip, String.toList_ofList] at h
    rcases h with piece | line
    · exact not_declares_of_mem_splitOn piece
    · obtain ⟨piece, mem, same⟩ := Text.exists_piece_of_mem_lines line
      rw [Text.pieces_eq_splitOnP] at mem
      rcases same with rfl | rfl
      · exact not_declares_of_mem_splitOn mem
      · exact mt declares_withoutReturn.mp (not_declares_of_mem_splitOn mem)

/-- Declaration lines at the end, behind a line with a carriage return, and as all there is; and
what is left of a line between two of them. -/
theorem strip_eq_of_declares_ends :
    let d := " \t<!ENTITY e>\r"
    Declares d.toList ∧ strip ("a\r\n" ++ d ++ "\n" ++ "") = strip ("a\r\n" ++ "") ∧
      strip ("a\r\n" ++ "") = "a" ∧ strip ("" ++ d ++ "\n" ++ d) = strip ("" ++ d) ∧
      strip ("" ++ d) = "" ∧ ['a', '<', '!'] ∈ (strip "<!\na<!\n <!").toList.splitOn '\n' ∧
      ¬ Declares ['a', '<', '!'] := by
  intro d
  have declares : Declares d.toList :=
    ⟨[' ', '\t'], "ENTITY e>\r".toList, List.all_eq_true.mp rfl, by decide⟩
  obtain ⟨hidden, kept⟩ := strip_eq_of_declares
  have behind := hidden "a\r\n" d "" (.inr ⟨"a\r", by decide⟩) (by decide) declares
  have alone := hidden "" d d (.inl rfl) (by decide) declares
  have between : ['a', '<', '!'] ∈ (strip "<!\na<!\n <!").toList.splitOn '\n' := by decide
  exact ⟨declares, behind.1, by decide, alone.1, by decide, between, kept _ _ (.inl between)⟩

end Document

end TreeQuery

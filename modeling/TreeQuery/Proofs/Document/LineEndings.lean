import TreeQuery.Proofs.Document.FinalFeed
import TreeQuery.Proofs.Document.Returns
import TreeQuery.Proofs.Document.Stripping

/-!
# Dropping no declaration lines

A text without declaration lines is put together again from all of its lines.  That does not give
back the text itself: every line ends with a bare line feed then, and the last one without
(`Text.joinLines_lines`).  No document is changed by that (`parse_stripping`), since it may lose
carriage returns in front of line feeds (`parse_unreturned`) and the line feed at its end
(`parse_of_feed`).
-/

namespace TreeQuery

namespace Text

/-- A text with a bare line feed for every carriage return that has one behind it. -/
def feeds : List Char → List Char
  | '\r' :: '\n' :: s => '\n' :: feeds s
  | c :: s => c :: feeds s
  | [] => []

/-- A text without the line feed at its end, if there is one. -/
def withoutFeed (s : List Char) : List Char := if s.getLast? = some '\n' then s.dropLast else s

variable {s line : List Char}

theorem unreturned_feeds (s : List Char) : Unreturned s (feeds s) := by
  fun_induction feeds s with
  | case1 s ih => exact .drop ih
  | case2 c s _ ih => exact .cons c ih
  | case3 => exact .nil

theorem feeds_cons {c : Char} (apart : c ≠ '\r' ∨ s.head? ≠ some '\n') :
    feeds (c :: s) = c :: feeds s := by
  rw [feeds]
  rintro t rfl rfl
  exact apart.elim (absurd rfl) (absurd rfl)

theorem feeds_free_append {u : List Char} (free : '\n' ∉ u) {v : List Char}
    (apart : v.head? ≠ some '\n') : feeds (u ++ v) = u ++ feeds v := by
  induction u with
  | nil => rfl
  | cons c u ih =>
    obtain ⟨-, free⟩ := List.ne_and_not_mem_of_not_mem_cons free
    have apart' : (u ++ v).head? ≠ some '\n' := by
      rcases u with _ | ⟨d, u⟩
      · exact apart
      · exact fun first => free (List.mem_of_head? first)
    rw [List.cons_append, feeds_cons (.inr apart'), ih free, List.cons_append]

theorem feeds_of_free (free : '\n' ∉ s) : feeds s = s := by
  have whole := feeds_free_append free (v := []) (by simp)
  rwa [List.append_nil, feeds, List.append_nil] at whole

theorem feeds_line_append (single : '\n' ∉ line) (s : List Char) :
    feeds (line ++ '\n' :: s) = withoutReturn line ++ '\n' :: feeds s := by
  rcases List.eq_nil_or_concat' line with rfl | ⟨w, c, rfl⟩
  · exact feeds_cons (.inl (by decide))
  · have free : '\n' ∉ w := fun inside => single (List.mem_append_left _ inside)
    have other : c ≠ '\n' := fun eq => single (by simp [eq])
    have front : feeds (w ++ c :: '\n' :: s) = w ++ feeds (c :: '\n' :: s) :=
      feeds_free_append free (by simpa using other)
    rw [List.append_assoc, List.singleton_append, front]
    by_cases returns : c = '\r'
    · subst returns
      simp [withoutReturn, feeds]
    · have kept : withoutReturn (w ++ [c]) = w ++ [c] := by simp [withoutReturn, returns]
      rw [kept, feeds_cons (.inl returns), feeds_cons (.inl (by decide))]
      simp

theorem lines_of_free (free : '\n' ∉ s) (filled : s ≠ []) : lines s = [s] := by
  have whole : pieces (· == '\n') s = [s] :=
    pieces_of_neg fun c hc cut => free (eq_of_beq cut ▸ hc)
  simp [lines, whole, filled]

theorem joinLines_cons {l : List Char} {ls : List (List Char)} (more : ls ≠ []) :
    joinLines (l :: ls) = l ++ '\n' :: joinLines ls := by
  obtain ⟨l', ls, rfl⟩ := List.exists_cons_of_ne_nil more
  rw [joinLines, List.intercalate_cons_cons]
  simp [joinLines]

theorem withoutFeed_append {u v : List Char} (filled : v ≠ []) :
    withoutFeed (u ++ v) = u ++ withoutFeed v := by
  rw [withoutFeed, withoutFeed, List.getLast?_append_of_ne_nil u filled]
  split
  · exact List.dropLast_append_of_ne_nil filled
  · rfl

theorem lines_ne_nil (filled : s ≠ []) : lines s ≠ [] := by
  by_cases ended : '\n' ∈ s
  · obtain ⟨line, rest, rfl, single⟩ := List.eq_append_cons_of_mem ended
    rw [lines_line_append single]
    exact List.cons_ne_nil _ _
  · rw [lines_of_free ended filled]
    exact List.cons_ne_nil _ _

/-- **Lines put together are the text with bare line feeds**, but for the one at the end. -/
theorem joinLines_lines (s : List Char) : joinLines (lines s) = withoutFeed (feeds s) := by
  by_cases ended : '\n' ∈ s
  · obtain ⟨line, rest, rfl, single⟩ := List.eq_append_cons_of_mem ended
    rw [lines_line_append single, feeds_line_append single]
    by_cases last : rest = []
    · subst last
      simp [lines, feeds, withoutFeed, joinLines]
    · have filled : feeds rest ≠ [] := mt (unreturned_feeds rest).eq_nil_iff.mp last
      calc joinLines (withoutReturn line :: lines rest)
          = withoutReturn line ++ '\n' :: joinLines (lines rest) :=
            joinLines_cons (lines_ne_nil last)
        _ = withoutReturn line ++ ['\n'] ++ withoutFeed (feeds rest) := by
            rw [joinLines_lines rest, List.append_cons]
        _ = withoutFeed (withoutReturn line ++ ['\n'] ++ feeds rest) :=
            (withoutFeed_append filled).symm
        _ = withoutFeed (withoutReturn line ++ '\n' :: feeds rest) := by rw [← List.append_cons]
  · rw [feeds_of_free ended]
    by_cases filled : s = []
    · subst filled
      rfl
    · have last : ¬ s.getLast? = some '\n' := fun last => ended (List.mem_of_getLast? last)
      rw [lines_of_free ended filled, withoutFeed, if_neg last, joinLines,
        List.intercalate_singleton]
termination_by s.length
decreasing_by subst_vars; simp; omega

end Text

namespace Document

theorem withoutDeclarations_eq {s : List Char}
    (undeclared : ∀ line ∈ s.splitOn '\n', ¬ Declares line) :
    withoutDeclarations s = Text.withoutFeed (Text.feeds s) := by
  have kept : ∀ line ∈ Text.lines s, (!isDeclaration line) = true := by
    intro line mem
    obtain ⟨piece, inside, same⟩ := Text.exists_piece_of_mem_lines mem
    rw [Text.pieces_eq_splitOnP] at inside
    have plain : ¬ Declares line := by
      rcases same with rfl | rfl
      · exact undeclared _ inside
      · exact mt declares_withoutReturn.mp (undeclared _ inside)
    simpa using mt isDeclaration_iff.mp plain
  rw [withoutDeclarations, List.filter_eq_self.mpr kept, Text.joinLines_lines]

/-- **Without a declaration line nothing is stripped from a document.** -/
theorem parse_stripping {text : String} {root : Node}
    (undeclared : ∀ line ∈ text.toList.splitOn '\n', ¬ Declares line)
    (parsed : parse text .plain = .ok root) :
    parse text .stripping = .ok root ∧
      source text .stripping = Text.withoutFeed (Text.feeds text.toList) := by
  have stripped : source text .stripping = Text.withoutFeed (Text.feeds text.toList) :=
    withoutDeclarations_eq undeclared
  refine ⟨?_, stripped⟩
  have fed : parse (String.ofList (Text.feeds text.toList)) .plain = .ok root :=
    parse_unreturned (by rw [String.toList_ofList]; exact Text.unreturned_feeds _) parsed
  have read : parse text .stripping =
      parse (String.ofList (Text.withoutFeed (Text.feeds text.toList))) .plain := by
    rw [parse, stripped, parse, source, if_neg (by decide), String.toList_ofList]
  rw [read, Text.withoutFeed]
  split
  · next last =>
    obtain ⟨t, whole⟩ := List.getLast?_eq_some_iff.mp last
    rw [whole, List.dropLast_concat]
    exact parse_of_feed (by rw [String.toList_ofList, String.toList_ofList]) (whole ▸ fed)
  · exact fed

/-- Carriage returns in a tag, in a quote, in a comment, in text, in an instruction, in a data
section and in an end tag that is not finished. -/
theorem parse_stripping_returns :
    let text := "<a\r\n b='\r\n>'>1<!--\r\n-->\r\n<b/>2\r\n<?x\r\n?><![CDATA[\r\n]]></a\r\n"
    (∀ line ∈ text.toList.splitOn '\n', ¬ Declares line) ∧
      parse text .plain = .ok ⟨"a", [⟨"b", [], none⟩], some "1"⟩ ∧
      parse text .stripping = .ok ⟨"a", [⟨"b", [], none⟩], some "1"⟩ ∧
      source text .stripping =
        "<a\n b='\n>'>1<!--\n-->\n<b/>2\n<?x\n?><![CDATA[\n]]></a".toList := by
  intro text
  have undeclared : ∀ line ∈ text.toList.splitOn '\n', ¬ Declares line := by
    have none : ∀ line ∈ text.toList.splitOn '\n', isDeclaration line = false := by decide
    exact fun line mem declares => by
      cases (none line mem).symm.trans (isDeclaration_iff.mpr declares)
  have plain : parse text .plain = .ok ⟨"a", [⟨"b", [], none⟩], some "1"⟩ := by cbv
  obtain ⟨stripped, read⟩ := parse_stripping undeclared plain
  exact ⟨undeclared, plain, stripped, read.trans (by decide)⟩

end Document

end TreeQuery

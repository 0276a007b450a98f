import TreeQuery.Proofs.Path.Reading

/-!
# The normal form of a path

A path may be written with more slashes than it needs, and is shown with one slash before each part
and none behind the last.  `Normal` says of a text that it has this form.  A text in this form is
what its path shows, and no other text is (`normal_iff_flatMap`), because the pieces of a text have
all of it but the slashes (`flatMap_pieces`).

What is cut away at a slash does not matter for the parts (`parts_append_replicate`), so slashes may
be added and removed wherever one is left.  `display_normal` has all of this for paths.
-/

namespace TreeQuery

namespace Text

variable {p : Char → Bool} {cut : Char}

/-- At a cut the pieces of one text end and those of another begin. -/
theorem pieces_append_cut (cuts : p cut = true) (u v : List Char) :
    pieces p (u ++ cut :: v) = pieces p u ++ pieces p v := by
  obtain ⟨earlier, last, hu, huv⟩ := exists_pieces_append u (pieces_cons_of_pos cuts v)
  rw [huv, hu, List.append_nil, List.append_assoc, List.singleton_append]

theorem parts_append_cut (cuts : p cut = true) (u v : List Char) :
    parts p (u ++ cut :: v) = parts p u ++ parts p v := by
  rw [parts, pieces_append_cut cuts, List.filter_append, parts, parts]

/-- Cuts side by side make no more parts than one of them; at either end there need be none. -/
theorem parts_append_replicate (cuts : p cut = true) {u v : List Char} {k : Nat}
    (divided : 0 < k ∨ u = [] ∨ v = []) :
    parts p (u ++ List.replicate k cut ++ v) = parts p u ++ parts p v := by
  induction k generalizing u with
  | zero =>
    rcases divided with h | rfl | rfl
    · exact absurd h (Nat.lt_irrefl 0)
    · simp [parts]
    · simp [parts]
  | succ k ih =>
    -- The first cut ends `u`, and nothing stands between it and the others.
    have later := ih (u := []) (.inr (.inl rfl))
    rw [List.replicate_succ, List.append_assoc, List.cons_append, parts_append_cut cuts]
    exact congrArg _ later

theorem mem_of_mem_parts {s part : List Char} {c : Char} (h : part ∈ parts (· == cut) s)
    (hc : c ∈ part) : c ∈ s := by
  have there : c ∈ (pieces (· == cut) s).flatMap (cut :: ·) :=
    List.mem_flatMap.mpr ⟨part, (List.mem_filter.mp h).1, List.mem_cons_of_mem _ hc⟩
  rw [flatMap_pieces] at there
  rcases List.mem_cons.mp there with rfl | there
  · exact absurd (beq_self_eq_true c) ((sound_of_mem_parts h).2 c hc)
  · exact there

end Text

namespace Path

/-- Whether a text has one slash at its beginning, none at its end and no two side by side. -/
structure Normal (s : List Char) : Prop where
  begins : s.head? = some '/'
  apart : ¬ ['/', '/'] <:+: s
  ends : s.getLast? ≠ some '/'

/-- A text in normal form has no empty piece but the one before its first slash. -/
theorem Normal.nil_notMem_pieces {s : List Char} (h : Normal ('/' :: s)) :
    [] ∉ Text.pieces (· == '/') s := by
  intro empty
  obtain ⟨before, after, split⟩ := List.append_of_mem empty
  have whole := Text.flatMap_pieces '/' s
  rw [split, List.flatMap_append, List.flatMap_cons] at whole
  rcases after with _ | ⟨piece, after⟩
  · refine h.ends ?_
    rw [← whole]
    exact List.getLast?_concat
  · refine h.apart ⟨before.flatMap ('/' :: ·), piece ++ after.flatMap ('/' :: ·), ?_⟩
    rw [← whole]
    simp

/-- What is shown of parts is in normal form. -/
theorem normal_flatMap {parts : List (List Char)} (nonempty : parts ≠ [])
    (sound : ∀ part ∈ parts, part ≠ [] ∧ ∀ c ∈ part, ¬ (c == '/') = true) :
    Normal (parts.flatMap ('/' :: ·)) := by
  -- Two slashes side by side, or one at the end, would have an empty piece between or behind them.
  have filled : ∀ {u later : List (List Char)}, u ≠ [] → [] :: parts = u ++ later → [] ∉ later := by
    rintro (_ | ⟨first, u⟩) later h split empty
    · exact h rfl
    · have mem : [] ∈ parts := by
        rw [(List.cons.inj split).2]
        exact List.mem_append_right u empty
      exact (sound [] mem).1 rfl
  have pieces : Text.pieces (· == '/') (parts.flatMap ('/' :: ·)) = [] :: parts :=
    Text.pieces_flatMap rfl fun part h => (sound part h).2
  constructor
  · obtain ⟨part, others, rfl⟩ := List.exists_cons_of_ne_nil nonempty
    rfl
  · rintro ⟨u, v, double⟩
    have double : u ++ '/' :: ([] ++ '/' :: v) = parts.flatMap ('/' :: ·) := by simpa using double
    rw [← double, Text.pieces_append_cut rfl, Text.pieces_append_cut rfl] at pieces
    exact filled (Text.pieces_ne_nil _ u) pieces.symm List.mem_cons_self
  · intro last
    obtain ⟨u, ended⟩ := List.getLast?_eq_some_iff.mp last
    rw [ended, Text.pieces_append_cut rfl] at pieces
    exact filled (Text.pieces_ne_nil _ u) pieces.symm List.mem_cons_self

/-- **A text in normal form is what is shown of its parts**, and no other text is. -/
theorem normal_iff_flatMap {s : List Char} (nonempty : partsOf s ≠ []) :
    Normal s ↔ (partsOf s).flatMap ('/' :: ·) = s := by
  constructor
  · intro h
    obtain ⟨t, rfl⟩ := List.head?_eq_some_iff.mp h.begins
    have filled : ∀ piece ∈ Text.pieces (· == '/') t, (!piece.isEmpty) = true := by
      intro piece mem
      have : piece ≠ [] := fun empty => h.nil_notMem_pieces (empty ▸ mem)
      simpa using this
    rw [partsOf, Text.parts, Text.pieces_cons_of_pos rfl, List.filter_cons_of_neg (by simp),
      List.filter_eq_self.mpr filled, Text.flatMap_pieces]
  · intro h
    have normal := normal_flatMap nonempty fun part => Text.sound_of_mem_parts
    rwa [h] at normal

/-! ## Paths -/

/-- A path is its parts. -/
theorem eq_of_parts {p q : Path} (same : p.parts = q.parts) : p = q := by
  obtain ⟨root, segments⟩ := p
  obtain ⟨root', segments'⟩ := q
  obtain ⟨first, others⟩ := List.cons_eq_cons.mp same
  obtain rfl : root = root' := String.toList_inj.mp first
  obtain rfl : segments = segments' :=
    List.map_injective_iff.mpr (fun _ _ => String.toList_inj.mp) others
  rfl

/-- A text whose parts are sound is not blank. -/
theorem parse_eq_ok_iff_parts {text : String} {p : Path} :
    parse text = .ok p ↔ partsOf text.toList = p.parts ∧ ∀ part ∈ p.parts, fault? part = none := by
  refine ⟨fun h => (parse_eq_ok_iff.mp h).2, fun ⟨same, sound⟩ => ?_⟩
  refine parse_eq_ok_iff.mpr ⟨Bool.eq_false_iff.mpr fun blank => ?_, same, sound⟩
  have mem : p.root.toList ∈ partsOf text.toList := same ▸ List.mem_cons_self
  obtain ⟨c, hc⟩ := List.exists_mem_of_ne_nil _ (Text.sound_of_mem_parts mem).1
  have inside : HasBlank p.root.toList :=
    ⟨c, hc, allBlank_iff.mp blank c (Text.mem_of_mem_parts mem hc)⟩
  exact fault?_eq_none_iff.mp (sound _ List.mem_cons_self) _ (.blank inside)

theorem parts_ne_nil (p : Path) : p.parts ≠ [] := List.cons_ne_nil _ _

/-- **The normal form of a path.**  What is shown of a path is in normal form and writes the path
again; of all texts that write it, the one in normal form is shown.  Two paths are the same exactly
if they are shown alike, and exactly if their texts have the same parts.  So slashes may be added
and removed next to a slash that stays, and at either end. -/
theorem display_normal {text : String} {p : Path} (h : parse text = .ok p) :
    parse p.display = .ok p ∧ Normal p.display.toList ∧
      (p.display = text ↔ Normal text.toList) ∧
      (∀ text' p', parse text' = .ok p' → (p = p' ↔ p.display = p'.display) ∧
        (p = p' ↔ (text.toList.splitOn '/').filter (· ≠ []) =
          (text'.toList.splitOn '/').filter (· ≠ []))) ∧
      ∀ (before after : List Char) (k l : Nat),
        text.toList = before ++ List.replicate k '/' ++ after →
        0 < k ∧ 0 < l ∨ before = [] ∨ after = [] →
        parse (String.ofList (before ++ List.replicate l '/' ++ after)) = .ok p := by
  obtain ⟨same, sound⟩ := parse_eq_ok_iff_parts.mp h
  have filled : partsOf text.toList ≠ [] := same ▸ p.parts_ne_nil
  refine ⟨parse_display h, ?_, ?_, fun text' p' h' => ⟨?_, ?_⟩,
    fun before after k l whole kept => ?_⟩
  · rw [toList_display, ← same]
    exact normal_flatMap filled fun part => Text.sound_of_mem_parts
  · rw [← String.toList_inj, toList_display, ← same]
    exact (normal_iff_flatMap filled).symm
  · -- A path is read from what is shown of it.
    refine ⟨congrArg display, fun shown => ?_⟩
    have read := parse_display h
    rw [shown, parse_display h'] at read
    exact (Except.ok.inj read).symm
  · rw [← partsOf_eq_splitOn, ← partsOf_eq_splitOn, same, (parse_eq_ok_iff_parts.mp h').1]
    exact ⟨congrArg parts, eq_of_parts⟩
  · refine parse_eq_ok_iff_parts.mpr ⟨?_, sound⟩
    rw [← same, whole, String.toList_ofList, partsOf, partsOf,
      Text.parts_append_replicate rfl (kept.imp_left (·.2)),
      Text.parts_append_replicate rfl (kept.imp_left (·.1))]

/-- Slashes at both ends and two between the parts, and none at all; and a path that differs by
one slash between two names. -/
theorem display_normal_redundant :
    let p : Path := ⟨"r", ["a", "b"]⟩
    let q : Path := ⟨"r", ["ab"]⟩
    parse "//r//a/b/" = .ok p ∧ p.display = "/r/a/b" ∧ parse "/r/a/b" = .ok p ∧
      p.display ≠ "//r//a/b/" ∧ (parse "r/ab/" = .ok q ∧ p.display ≠ q.display) ∧
      parse "r//a/b/" = .ok p ∧ parse "//r/a/b/" = .ok p := by
  intro p q
  have read : parse "//r//a/b/" = .ok p := by decide
  have other : parse "r/ab/" = .ok q := by decide
  obtain ⟨again, -, written, alike, slashes⟩ := display_normal read
  refine ⟨read, by decide, again, fun shown => ?_, ⟨other, fun shown => ?_⟩, ?_, ?_⟩
  · exact (written.mp shown).apart ⟨[], "r//a/b/".toList, by decide⟩
  · exact absurd ((alike _ q other).1.mpr shown) (by decide)
  · exact slashes [] "r//a/b/".toList 2 0 (by decide) (.inr (.inl rfl))
  · exact slashes "//r".toList "a/b/".toList 2 1 (by decide) (.inl (by decide))

end Path

end TreeQuery

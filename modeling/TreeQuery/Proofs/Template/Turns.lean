import TreeQuery.Proofs.Template.LiteralText
import TreeQuery.Proofs.Template.Placeholder

/-!
# Templates of texts and placeholders

`Written s t turns` says that a template `s` is made of literal texts and placeholders by turns: of
the text `t`, and of names with the text behind each.  Such a template is read as just these
elements (`parse_eq_elementsOf`).  Only a name that begins with `else` is read as what it begins
with, and that has no place outside of a block.

Reading goes turn by turn: literal text is passed in one step or, if it is nothing but blanks,
together with the tag behind it (`Layout.exists_readFrom_literal`), and a placeholder in one step
(`Layout.exists_readFrom_placeholder`).  Between the turns there is nothing to remember but the
elements so far (`Layout.Outside`).
-/

namespace TreeQuery.Template

open Tag (opening closing)

/-- The names of placeholders, each with the literal text behind it. -/
abbrev Turns := List (List Char × List Char)

/-- How a template is written with literal texts and placeholders by turns. -/
inductive Written : List Char → List Char → Turns → Prop where
  /-- Only literal text. -/
  | text {s t : List Char} : LiteralText s t [] → Written s t []
  /-- Literal text, a placeholder, and what is behind. -/
  | hole {s t before name after rest u : List Char} {turns : Turns} :
    LiteralText s t (placeholder before name after rest) → IsGap before → IsName name →
      IsGap after → Written rest u turns → Written s t ((name, u) :: turns)

/-- What can stand before the literal text at the beginning can stand before the template. -/
theorem Written.of_longer {s t s' t' : List Char} {turns : Turns} (h : Written s t turns)
    (longer : ∀ rest, LiteralText s t rest → LiteralText s' t' rest) : Written s' t' turns := by
  cases h with
  | text literal => exact .text (longer _ literal)
  | hole literal blank named blank' behind =>
    exact .hole (longer _ literal) blank named blank' behind

/-! ## Reading -/

/-- The elements that a literal text is read as. -/
def textElements (t : List Char) : List Element := if t.isEmpty then [] else [.text t]

/-- The elements that literal texts and placeholders are read as. -/
def elementsOf (t : List Char) (turns : Turns) : List Element :=
  textElements t ++ turns.flatMap fun turn =>
    .expression (nameCall turn.1) :: textElements turn.2

/-- Whether one of the names begins with the word for a failed condition. -/
def conditional (turns : Turns) : Bool :=
  turns.any fun turn => ['e', 'l', 's', 'e'].isPrefixOf turn.1

namespace LiteralText

variable {s t rest : List Char}

/-- The blanks at the beginning of a literal text are as they are written. -/
theorem exists_gap (h : LiteralText s t rest) :
    ∃ gap s₁ t₁, IsGap gap ∧ (∀ c ∈ s₁.head?, Json.isGap c = false) ∧ s = gap ++ s₁ ∧
      t = gap ++ t₁ ∧ LiteralText s₁ t₁ rest := by
  have blank : IsGap (s.takeWhile Json.isGap) := fun c mem => List.mem_takeWhile_imp mem
  have split : s.takeWhile Json.isGap ++ s.dropWhile Json.isGap = s :=
    List.takeWhile_append_dropWhile
  obtain ⟨t₁, rest₁, behind⟩ := exists_literalText (s.dropWhile Json.isGap)
  have plain : ∀ c ∈ s.takeWhile Json.isGap, c ≠ '\\' ∧ c ≠ '\x7b' := by
    intro c mem
    constructor <;> rintro rfl <;> cases blank _ mem
  have whole := append_plain plain behind
  rw [split] at whole
  obtain ⟨rfl, rfl⟩ := h.unique whole
  refine ⟨_, _, t₁, blank, fun c first => ?_, split.symm, rfl, behind⟩
  have := List.head?_dropWhile_not Json.isGap s
  rwa [Option.mem_def.mp first] at this

/-- A literal text is empty only where a tag begins or the template ends. -/
theorem nil_or_begins (h : LiteralText s t rest) :
    t = [] ∧ s = rest ∨ t ≠ [] ∧ s ≠ [] ∧ ¬ opening <+: s := by
  cases h with
  | finish => exact .inl ⟨rfl, rfl⟩
  | tag => exact .inl ⟨rfl, rfl⟩
  | slashes k =>
    rw [List.replicate_succ, List.replicate_succ]
    exact .inr ⟨List.cons_ne_nil _ _, List.cons_ne_nil _ _, fun begins => by
      simp [opening] at begins⟩
  | two | four =>
    exact .inr ⟨List.cons_ne_nil _ _, List.cons_ne_nil _ _, fun begins => by
      simp [opening] at begins⟩
  | letter other =>
    exact .inr ⟨List.cons_ne_nil _ _, List.cons_ne_nil _ _, fun begins => other ⟨0, begins⟩⟩

end LiteralText

namespace Layout

/-- Outside of all blocks, and with no blanks to be taken away. -/
structure Outside (l : Layout) : Prop where
  frames : l.frames = []
  trimAfter : l.trimAfter = false
  trimLine : l.trimLine = false

theorem outside_start : start.Outside := ⟨rfl, rfl, rfl⟩

variable {l : Layout} {s t rest : List Char}

theorem advance_self (l : Layout) (s : List Char) : l.advance s s = l := by
  simp [advance]

/-- Which tag a text begins with depends on what is open, and on nothing else. -/
theorem tag?_congr {l l' : Layout} (same : l.frames = l'.frames) (s : List Char) :
    l.tag? s = l'.tag? s := by
  unfold tag? closingName?
  rw [same]

theorem pushGap_frames (l : Layout) (gap : List Char) : (l.pushGap gap).frames = l.frames := by
  unfold pushGap
  split <;> rfl

theorem shorten_frames (l : Layout) (trim : List Char → List Char) :
    (l.shorten trim).frames = l.frames := by
  unfold shorten
  split <;> rfl

theorem applyTrim_frames (l : Layout) (tag : Tag) : (l.applyTrim tag).frames = l.frames := by
  unfold applyTrim
  cases tag.trimBefore with
  | false => rfl
  | true => exact shorten_frames l _

theorem standAlone_frames (l : Layout) (rest : List Char) :
    (l.standAlone rest).frames = l.frames := by
  unfold standAlone
  extract_lets beginsLine l'
  split
  · show l'.frames = l.frames
    simp only [l']
    split
    · exact shorten_frames l _
    · rfl
  · rfl

namespace Outside

theorem advance (h : l.Outside) (s rest : List Char) : (l.advance s rest).Outside :=
  ⟨h.frames, h.trimAfter, h.trimLine⟩

theorem pushText_eq (h : l.Outside) (t : List Char) : l.pushText t = l.push (.text t) := by
  obtain ⟨read, elements, frames, trimAfter, trimLine⟩ := l
  obtain ⟨rfl, rfl, rfl⟩ := h
  rfl

theorem push (h : l.Outside) (e : Element) : (l.push e).Outside :=
  ⟨h.frames, h.trimAfter, h.trimLine⟩

theorem pushGap (h : l.Outside) (gap : List Char) :
    (l.pushGap gap).Outside ∧ (l.pushGap gap).elements = textElements gap ++ l.elements := by
  unfold Layout.pushGap textElements
  rw [h.trimAfter, Bool.or_false, h.pushText_eq]
  split
  · exact ⟨h, rfl⟩
  · exact ⟨h.push _, rfl⟩

end Outside

/-- Blanks are read as far as they go. -/
theorem cut_gap {gap : List Char} (blank : IsGap gap)
    (printed : ∀ c ∈ s.head?, Json.isGap c = false) :
    (gap ++ s).takeWhile Json.isGap = gap ∧ (gap ++ s).dropWhile Json.isGap = s := by
  rw [List.takeWhile_append_of_pos blank, List.dropWhile_append_of_pos blank]
  cases s with
  | nil => exact ⟨List.append_nil gap, rfl⟩
  | cons c s =>
    have : ¬ Json.isGap c = true := by simp [printed c rfl]
    rw [List.takeWhile_cons_of_neg this, List.dropWhile_cons_of_neg this, List.append_nil]
    exact ⟨rfl, rfl⟩

/-- Blanks before a tag or before the end are passed first. -/
theorem readFrom_gap (l : Layout) {gap : List Char} (blank : IsGap gap)
    (ends : rest = [] ∨ opening <+: rest) (steps : Nat) :
    l.readFrom (steps + 1) (gap ++ rest) =
      ((l.pushGap gap).advance (gap ++ rest) rest).readFrom (steps + 1) rest := by
  have printed : ∀ c ∈ rest.head?, Json.isGap c = false := by
    rcases ends with rfl | ⟨u, rfl⟩
    · exact nofun
    · rintro c ⟨⟩
      decide
  obtain ⟨here, behind⟩ := cut_gap blank printed
  obtain ⟨none, all⟩ := cut_gap isGap_nil printed
  rw [List.nil_append] at none all
  unfold readFrom
  simp only [here, behind, none, all]
  rcases ends with rfl | begins
  · simp [pushGap, advance]
  · have : rest.isEmpty = false := by
      obtain ⟨u, rfl⟩ := begins
      rfl
    have mark : opening.isPrefixOf rest = true := List.isPrefixOf_iff_prefix.mpr begins
    have frames : ((l.pushGap gap).advance (gap ++ rest) rest).frames = l.frames :=
      pushGap_frames l gap
    have unchanged : ∀ l : Layout, (l.pushGap []).advance rest rest = l := fun l =>
      advance_self l rest
    rw [tag?_congr frames rest]
    simp only [this, mark, unchanged, Bool.false_eq_true, if_false, if_true]

/-- Literal text up to a tag or to the end is one element. -/
theorem readFrom_run (l : Layout) {gap : List Char} (blank : IsGap gap)
    (printed : ∀ c ∈ s.head?, Json.isGap c = false) (h : LiteralText s t rest) (nonempty : s ≠ [])
    (single : ¬ opening <+: s) (steps : Nat) :
    l.readFrom (steps + 1) (gap ++ s) =
      ((l.pushText (gap ++ t)).advance (gap ++ s) rest).readFrom steps rest := by
  obtain ⟨here, behind⟩ := cut_gap blank printed
  have read := h.literalRun_eq (Nat.le_refl _) []
  have empty : s.isEmpty = false := by simpa using nonempty
  have mark : opening.isPrefixOf s = false := by
    rw [Bool.eq_false_iff]
    exact fun begins => single (List.isPrefixOf_iff_prefix.mp begins)
  conv => lhs; unfold readFrom
  simp only [here, behind, empty, mark, read, List.append_nil, List.reverse_reverse]
  rfl

/-- **Literal text is read as one element**, or as none if it is empty. -/
theorem exists_readFrom_literal (h : LiteralText s t rest) (outside : l.Outside) {steps : Nat}
    (enough : s.length < steps) :
    ∃ (l' : Layout) (steps' : Nat), l'.Outside ∧ l'.elements = textElements t ++ l.elements ∧
      rest.length < steps' ∧ l.readFrom steps s = l'.readFrom steps' rest := by
  obtain ⟨gap, s₁, t₁, blank, printed, rfl, rfl, behind⟩ := h.exists_gap
  obtain ⟨steps, rfl⟩ : ∃ k, steps = k + 1 := ⟨steps - 1, by omega⟩
  rw [List.length_append] at enough
  rcases behind.nil_or_begins with ⟨rfl, rfl⟩ | ⟨written, nonempty, single⟩
  · obtain ⟨pushed, elements⟩ := outside.pushGap gap
    refine ⟨_, steps + 1, pushed.advance _ _, ?_, by omega, readFrom_gap l blank h.ends steps⟩
    rw [List.append_nil]
    exact elements
  · have text : gap ++ t₁ ≠ [] := List.append_ne_nil_of_right_ne_nil gap written
    have shorter : 0 < t₁.length := List.length_pos_iff.mpr written
    have := behind.length_le
    refine ⟨_, steps, ?_, ?_, by omega, readFrom_run l blank printed behind nonempty single steps⟩
    · rw [outside.pushText_eq]
      exact (outside.push _).advance _ _
    · rw [outside.pushText_eq, textElements, if_neg (by simpa using text)]
      rfl

/-- Where a tag begins there must be one. -/
theorem readFrom_begins (begins : opening <+: s) (steps : Nat) :
    l.readFrom (steps + 1) s =
      (l.tag? s).bind fun (tag, rest) => (l.place tag rest).bind fun placed =>
        match tag.kind with
        | .rawOpening _ =>
          ((placed.advance s rest).literalBlock rest).bind fun (l, rest) => readFrom steps l rest
        | _ => (placed.advance s rest).readFrom steps rest := by
  have printed : ∀ c ∈ s.head?, Json.isGap c = false := by
    obtain ⟨u, rfl⟩ := begins
    rintro c ⟨⟩
    decide
  obtain ⟨none, all⟩ := cut_gap isGap_nil printed
  rw [List.nil_append] at none all
  have empty : s.isEmpty = false := by
    obtain ⟨u, rfl⟩ := begins
    rfl
  have mark : opening.isPrefixOf s = true := List.isPrefixOf_iff_prefix.mpr begins
  have unchanged : (l.pushGap []).advance s s = l := advance_self l s
  conv => lhs; unfold readFrom
  simp only [none, all, empty, mark, unchanged, Bool.false_eq_true, if_false, if_true]
  cases l.tag? s with
  | none => rfl
  | some found =>
    simp only [Option.bind_some]
    cases l.place found.1 found.2 <;> rfl

/-- A tag is placed, and reading goes on behind it. -/
theorem readFrom_tag {tag : Tag} (begins : opening <+: s) (found : l.tag? s = some (tag, rest))
    (ordinary : ∀ call, tag.kind ≠ .rawOpening call) (steps : Nat) :
    l.readFrom (steps + 1) s =
      (l.place tag rest).bind fun placed => (placed.advance s rest).readFrom steps rest := by
  rw [readFrom_begins begins, found, Option.bind_some]
  dsimp only
  cases kind : tag.kind with
  | rawOpening call => exact absurd kind (ordinary call)
  | _ => rfl

variable {before name after : List Char}

theorem length_lt_placeholder (before name after rest : List Char) :
    rest.length < (placeholder before name after rest).length := by
  simp only [placeholder, ending, List.length_append, opening, closing, List.length_cons]
  omega

theorem opening_begins (before name after rest : List Char) :
    opening <+: placeholder before name after rest := List.prefix_append _ _

/-- A placeholder is read as an expression. -/
theorem exists_readFrom_placeholder (named : IsName name) (other : name ≠ ['t', 'h', 'i', 's'])
    (condition : ¬ ['e', 'l', 's', 'e'] <+: name) (blank : IsGap before) (blank' : IsGap after)
    (outside : l.Outside) (steps : Nat) :
    ∃ l' : Layout, l'.Outside ∧ l'.elements = .expression (nameCall name) :: l.elements ∧
      l.readFrom (steps + 1) (placeholder before name after rest) = l'.readFrom steps rest := by
  have found : l.tag? (placeholder before name after rest) =
      some (⟨.expression (nameCall name), false, false⟩, rest) :=
    l.tag?_placeholder named other condition blank blank'
  have untrimmed : l.applyTrim ⟨.expression (nameCall name), false, false⟩ = l := by
    obtain ⟨read, elements, frames, trimAfter, trimLine⟩ := l
    obtain ⟨rfl, rfl, rfl⟩ := outside
    rfl
  have placed : l.place ⟨.expression (nameCall name), false, false⟩ rest =
      some (l.push (.expression (nameCall name))) := by
    show some ((l.applyTrim _).push _) = _
    rw [untrimmed]
  refine ⟨(l.push (.expression (nameCall name))).advance (placeholder before name after rest) rest,
    (outside.push _).advance _ _, rfl, ?_⟩
  rw [readFrom_tag (opening_begins _ _ _ _) found nofun, placed, Option.bind_some]

/-- A name that begins with `else` has no place here. -/
theorem readFrom_eq_none (named : IsName name) (condition : ['e', 'l', 's', 'e'] <+: name)
    (blank : IsGap before) (blank' : IsGap after) (outside : l.Outside) (steps : Nat) :
    l.readFrom steps (placeholder before name after rest) = none := by
  obtain ⟨⟨kind, trimBefore, trimAfter⟩, left, call, found, rfl⟩ :=
    l.exists_otherwise named condition blank blank' rest
  cases steps with
  | zero => rfl
  | succ steps =>
    rw [readFrom_tag (opening_begins _ _ _ _) found nofun]
    have frames : ((l.applyTrim ⟨.otherwise call, trimBefore, trimAfter⟩).standAlone left).frames =
        [] := by rw [standAlone_frames, applyTrim_frames, outside.frames]
    have unplaced : l.place ⟨.otherwise call, trimBefore, trimAfter⟩ left = none := by
      show nextPart _ call = none
      rw [nextPart, frames]
    rw [unplaced, Option.bind_none]

end Layout

theorem reverse_textElements (t : List Char) : (textElements t).reverse = textElements t := by
  unfold textElements
  split <;> rfl

/-- **A template of literal texts and placeholders is read as what it is made of.**  A name that
begins with `else` would go on with a block, and here is none. -/
theorem Written.readFrom_eq {s t : List Char} {turns : Turns} (h : Written s t turns)
    (other : ∀ turn ∈ turns, turn.1 ≠ ['t', 'h', 'i', 's']) {l : Layout} (outside : l.Outside)
    {steps : Nat} (enough : s.length < steps) :
    l.readFrom steps s =
      if conditional turns then none else some (l.elements.reverse ++ elementsOf t turns) := by
  induction h generalizing l steps with
  | text literal =>
    obtain ⟨l', steps', outside', elements, enough', same⟩ :=
      Layout.exists_readFrom_literal literal outside enough
    obtain ⟨steps', rfl⟩ : ∃ k, steps' = k + 1 := ⟨steps' - 1, by omega⟩
    rw [same]
    simp [Layout.readFrom, Layout.pushGap, outside'.frames, elements, elementsOf,
      reverse_textElements, conditional]
  | @hole _ t before name after rest u turns literal blank named blank' _ ih =>
    obtain ⟨l', steps', outside', elements, enough', same⟩ :=
      Layout.exists_readFrom_literal literal outside enough
    obtain ⟨steps', rfl⟩ : ∃ k, steps' = k + 1 := ⟨steps' - 1, by omega⟩
    rw [same]
    by_cases begins : ['e', 'l', 's', 'e'] <+: name
    · rw [Layout.readFrom_eq_none named begins blank blank' outside' (steps' + 1), if_pos]
      simp [conditional, begins]
    · obtain ⟨l'', outside'', elements', same'⟩ := Layout.exists_readFrom_placeholder named
        (other _ List.mem_cons_self) begins blank blank' outside' steps'
      have shorter := Layout.length_lt_placeholder before name after rest
      have rest : conditional ((name, u) :: turns) = conditional turns := by
        simp [conditional, begins]
      rw [same', ih (fun turn mem => other turn (List.mem_cons_of_mem _ mem)) outside'' (by omega),
        rest, elements', elements]
      simp [elementsOf, reverse_textElements]

theorem parse_eq_elementsOf {s t : List Char} {turns : Turns} (h : Written s t turns)
    (other : ∀ turn ∈ turns, turn.1 ≠ ['t', 'h', 'i', 's']) :
    parse s = if conditional turns then none else some (elementsOf t turns) :=
  h.readFrom_eq other Layout.outside_start (Nat.lt_succ_self _)

end TreeQuery.Template

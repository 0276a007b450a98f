import TreeQuery.Proofs.Template.Rest
import TreeQuery.Template.Layout

/-!
# Placeholders

A placeholder is a name between two opening and two closing braces, with blanks around it or
without.  A name is as long as it can be, and behind it there is neither a separator nor an
argument; so a placeholder is a tag that writes the value of its name (`Layout.tag?_placeholder`).
Only a name that begins with `else` is read otherwise, as what it begins with
(`Layout.exists_otherwise`).
-/

namespace TreeQuery.Template

/-- Whether a text can be a name: characters of names, and at least one. -/
structure IsName (name : List Char) : Prop where
  nonempty : name ≠ []
  symbols : ∀ c ∈ name, isSymbol c = true

/-- Whether a text is nothing but blanks between the parts of a tag. -/
def IsGap (gap : List Char) : Prop := ∀ c ∈ gap, Json.isGap c = true

instance (gap : List Char) : Decidable (IsGap gap) :=
  decidable_of_iff (gap.all Json.isGap = true) List.all_eq_true

instance (name : List Char) : Decidable (IsName name) :=
  decidable_of_iff (name ≠ [] ∧ name.all isSymbol = true)
    ⟨fun h => ⟨h.1, List.all_eq_true.mp h.2⟩, fun h => ⟨h.nonempty, List.all_eq_true.mpr h.symbols⟩⟩

/-- The reference to a name. -/
def nameCall (name : List Char) : Call :=
  ⟨.reference (String.ofList name) [.name (String.ofList name)], [], [], []⟩

/-- What follows the name of a placeholder: blanks, its closing braces, and the rest. -/
def ending (after rest : List Char) : List Char := after ++ (Tag.closing ++ rest)

/-- A placeholder and what follows it. -/
def placeholder (before name after rest : List Char) : List Char :=
  Tag.opening ++ (before ++ (name ++ ending after rest))

theorem isGap_nil : IsGap [] := nofun

section Ending

variable {after rest : List Char}

theorem isSymbol_of_isGap {c : Char} (h : Json.isGap c = true) : isSymbol c = false := by
  simp only [Json.isGap, Bool.or_eq_true, beq_iff_eq] at h
  rcases h with ((rfl | rfl) | rfl) | rfl <;> decide

theorem skipGap_append {gap : List Char} (blank : IsGap gap) {c : Char}
    (printed : Json.isGap c = false) (s : List Char) : skipGap (gap ++ c :: s) = c :: s := by
  rw [skipGap, List.dropWhile_append_of_pos blank, List.dropWhile_cons_of_neg (by simp [printed])]

theorem skipGap_ending (blank : IsGap after) : skipGap (ending after rest) = Tag.closing ++ rest :=
  skipGap_append blank (by decide) _

/-- A name goes no further than to the blanks or the braces behind it. -/
theorem exists_ending (blank : IsGap after) (rest : List Char) :
    ∃ c s, ending after rest = c :: s ∧ isSymbol c = false ∧ c ≠ '.' ∧ c ≠ '/' := by
  cases after with
  | nil => exact ⟨_, _, rfl, by decide, by decide, by decide⟩
  | cons c after =>
    have gap := blank c List.mem_cons_self
    refine ⟨c, _, rfl, isSymbol_of_isGap gap, ?_, ?_⟩ <;> rintro rfl <;> cases gap

/-! ## Nothing is read in front of the closing braces -/

theorem literalText?_closing (depth : Nat) : literalText? depth (Tag.closing ++ rest) = none := by
  cases depth with
  | zero => rfl
  | succ depth =>
    simp [literalText?, Tag.closing, quotedLiteral?, numberLiteral?, wordLiteral?, behind?, isDigit]

theorem reference?_closing : reference? (Tag.closing ++ rest) = none := by
  simp [reference?, segments?, segment?, identifier?, beginsSymbol, isSymbol, Tag.closing, behind?,
    upward]

theorem parenthesised?_eq_none {s : List Char} (other : s.head? ≠ some '(') (depth : Nat) :
    parenthesised? depth s = none := by
  cases depth with
  | zero => rfl
  | succ depth =>
    cases s with
    | nil => rfl
    | cons c s =>
      have : c ≠ '(' := fun same => other (congrArg some same)
      simp [parenthesised?, this]

theorem argument?_closing (depth : Nat) : argument? depth (Tag.closing ++ rest) = none := by
  cases depth with
  | zero => rfl
  | succ depth =>
    unfold argument?
    rw [literalText?_closing, reference?_closing, parenthesised?_eq_none (by simp [Tag.closing])]
    split <;> rfl

theorem namedOrNot?_closing (depth : Nat) : namedOrNot? depth (Tag.closing ++ rest) = none := by
  cases depth with
  | zero => rfl
  | succ depth =>
    have unnamed : identifier? (Tag.closing ++ rest) = none := rfl
    unfold namedOrNot?
    rw [argument?_closing, unnamed]
    rfl

theorem arguments_ending (blank : IsGap after) (depth : Nat) :
    arguments depth (ending after rest) = ([], ending after rest) := by
  cases depth with
  | zero => rfl
  | succ depth =>
    unfold arguments
    rw [skipGap_ending blank, namedOrNot?_closing]

theorem blockNames?_closing : blockNames? (Tag.closing ++ rest) = none := rfl

end Ending

/-! ## A name with its ending -/

theorem ne_of_isSymbol {c x : Char} (h : isSymbol c = true) (other : isSymbol x = false) :
    c ≠ x := by
  rintro rfl
  rw [h] at other
  cases other

section Name

variable {name after rest : List Char}

/-- A name that begins with some characters of names, also if all of what follows is looked at. -/
theorem eq_append_of_behind {word s : List Char} (symbols : word.all isSymbol = true)
    (blank : IsGap after) (h : behind? word (name ++ ending after rest) = some s) :
    ∃ more, name = word ++ more ∧ s = more ++ ending after rest := by
  obtain ⟨c, t, cons, other, -⟩ := exists_ending blank rest
  rcases List.append_eq_append_iff.mp (behind?_eq_some_iff.mp h) with
    ⟨more, longer, split⟩ | ⟨more, shorter, split⟩
  · cases more with
    | nil => exact ⟨[], by simpa using longer.symm, by simpa using split.symm⟩
    | cons d more =>
      -- The word would go on with the first character behind the name.
      have same : c = d := by
        rw [cons] at split
        exact (List.cons.inj split).1
      have inWord : d ∈ word := by
        rw [longer]
        exact List.mem_append_right name List.mem_cons_self
      rw [same, List.all_eq_true.mp symbols d inWord] at other
      cases other
  · exact ⟨more, shorter, split⟩

theorem IsName.exists_cons (named : IsName name) : ∃ c t, name = c :: t ∧ isSymbol c = true := by
  obtain ⟨c, t, rfl⟩ := List.exists_cons_of_ne_nil named.nonempty
  exact ⟨c, t, rfl, named.symbols c List.mem_cons_self⟩

theorem identifier?_name (named : IsName name) (blank : IsGap after) :
    identifier? (name ++ ending after rest) = some (name, ending after rest) := by
  obtain ⟨x, s, ends, other, -⟩ := exists_ending blank rest
  obtain ⟨c, t, cons, symbol⟩ := named.exists_cons
  have begins : beginsSymbol (name ++ ending after rest) = true := by
    simp [beginsSymbol, cons, symbol]
  rw [identifier?, if_pos begins, ends, List.takeWhile_append_of_pos named.symbols,
    List.dropWhile_append_of_pos named.symbols, List.takeWhile_cons_of_neg (by simp [other]),
    List.dropWhile_cons_of_neg (by simp [other]), List.append_nil]

theorem skipGap_name (named : IsName name) {gap : List Char} (blank : IsGap gap) (s : List Char) :
    skipGap (gap ++ (name ++ s)) = name ++ s := by
  obtain ⟨c, t, rfl, symbol⟩ := named.exists_cons
  have printed : Json.isGap c = false := by
    cases blank : Json.isGap c with
    | false => rfl
    | true => rw [isSymbol_of_isGap blank] at symbol; cases symbol
  exact skipGap_append blank printed _

theorem IsName.append_ne_cons (named : IsName name) {x : Char} (other : isSymbol x = false)
    (s t : List Char) : name ++ s ≠ x :: t := by
  obtain ⟨c, u, rfl, symbol⟩ := named.exists_cons
  intro same
  exact ne_of_isSymbol symbol other (List.cons.inj same).1

theorem separator?_ending (blank : IsGap after) : separator? (ending after rest) = none := by
  obtain ⟨x, s, ends, -, point, slash⟩ := exists_ending blank rest
  rw [ends, separator?]
  · rintro t ⟨⟩
    exact slash rfl
  · rintro t ⟨⟩
    exact point rfl

theorem separator?_name (named : IsName name) (s : List Char) : separator? (name ++ s) = none := by
  rw [separator?]
  · exact named.append_ne_cons (by decide) s
  · exact named.append_ne_cons (by decide) s

/-- Nothing that does not begin a name is found where a name stands. -/
theorem behind?_name (named : IsName name) {x : Char} (other : isSymbol x = false)
    (mark s : List Char) : behind? (x :: mark) (name ++ s) = none := by
  refine Option.eq_none_iff_forall_ne_some.mpr fun t found => ?_
  exact named.append_ne_cons other s _ (behind?_eq_some_iff.mp found)

/-- **A name is a reference of one part**, except for the word for the current value. -/
theorem segments?_name (named : IsName name) (other : name ≠ ['t', 'h', 'i', 's'])
    (blank : IsGap after) :
    segments? (name ++ ending after rest) =
      some ([.name (String.ofList name)], ending after rest) := by
  have current : (behind? ['t', 'h', 'i', 's'] (name ++ ending after rest)).bind
      separator? = none := by
    refine Option.bind_eq_none_iff.mpr fun s found => ?_
    obtain ⟨more, split, rfl⟩ := eq_append_of_behind (by decide) blank found
    cases more with
    | nil => exact absurd (split.trans (List.append_nil _)) other
    | cons c more =>
      have symbols : IsName (c :: more) := by
        refine ⟨List.cons_ne_nil c more, fun d mem => named.symbols d ?_⟩
        rw [split]
        exact List.mem_append_right _ mem
      exact separator?_name symbols _
  have noUps : ∀ steps, upward steps (name ++ ending after rest) =
      ([], name ++ ending after rest) := by
    intro steps
    cases steps with
    | zero => rfl
    | succ steps =>
      simp only [upward, behind?_name named (by decide : isSymbol '.' = false), Option.bind_none]
  have noMore : ∀ steps, moreSegments steps (ending after rest) = ([], ending after rest) := by
    intro steps
    cases steps with
    | zero => rfl
    | succ steps => simp only [moreSegments, separator?_ending blank, Option.bind_none]
  have first : segment? (name ++ ending after rest) =
      some ([.name (String.ofList name)], ending after rest) := by
    simp [segment?, identifier?_name named blank, other]
  unfold segments?
  simp only [current, behind?_name named (by decide : isSymbol '.' = false),
    behind?_name named (by decide : isSymbol '@' = false), Option.none_or, Option.getD_none,
    Option.bind_none]
  split
  · next t begins => exact absurd begins (named.append_ne_cons (by decide) _ t)
  · rw [noUps, first]
    simp [noMore]

/-- The reference that a name is. -/
theorem reference?_name (named : IsName name) (other : name ≠ ['t', 'h', 'i', 's'])
    (blank : IsGap after) :
    reference? (name ++ ending after rest) = some ((nameCall name).head, ending after rest) := by
  rw [reference?, segments?_name named other blank]
  simp [nameCall]

theorem expressionCall?_name (named : IsName name) (other : name ≠ ['t', 'h', 'i', 's'])
    (blank : IsGap after) :
    expressionCall? (name ++ ending after rest) = some (nameCall name, ending after rest) := by
  have unbracketed : (name ++ ending after rest).head? ≠ some '(' := by
    obtain ⟨c, t, rfl, symbol⟩ := named.exists_cons
    exact fun same => ne_of_isSymbol symbol (by decide) (Option.some.inj same)
  unfold expressionCall? head?
  simp only [identifier?_name named blank, arguments_ending blank,
    parenthesised?_eq_none unbracketed, reference?_name named other blank]
  rfl

theorem blockCall?_name (named : IsName name) (blank : IsGap after) (rest : List Char) :
    blockCall? (name ++ ending after rest) =
      some (.ofArguments (.word (String.ofList name)) [] [], ending after rest) := by
  simp only [blockCall?, identifier?_name named blank, arguments_ending blank, skipGap_ending blank,
    blockNames?_closing, Option.map_some, Option.getD_none]

end Name

/-! ## The tag -/

section Tag

open Tag (opening closing between? doubled? after? otherwiseMark? otherwise?)

variable {α : Type} {before name after rest : List Char}

/-- What stands between the braces is the name, with what is read of it. -/
theorem between?_placeholder (named : IsName name) (blank : IsGap before) {inner : Reads α} {a : α}
    {left : List Char}
    (found : inner (name ++ ending after rest) = some (a, left))
    (ends : skipGap left = closing ++ rest) :
    between? opening closing inner (placeholder before name after rest) =
      some ((false, a, false), rest) := by
  have mark : behind? opening (placeholder before name after rest) =
      some (before ++ (name ++ ending after rest)) := behind?_eq_some_iff.mpr rfl
  have last : behind? closing (closing ++ rest) = some rest := behind?_eq_some_iff.mpr rfl
  unfold between?
  simp only [mark, Option.bind_eq_bind, Option.bind_some, skipGap_name named blank]
  split
  · next t begins => exact absurd begins (named.append_ne_cons (by decide) _ t)
  · simp only [found, ends, Option.bind_some]
    show (behind? closing (closing ++ rest)).bind (fun t => some ((false, a, false), t)) = _
    rw [last, Option.bind_some]

theorem between?_eq_none (named : IsName name) (blank : IsGap before) {inner : Reads α}
    (unread : inner (name ++ ending after rest) = none) :
    between? opening closing inner (placeholder before name after rest) = none := by
  have mark : behind? opening (placeholder before name after rest) =
      some (before ++ (name ++ ending after rest)) := behind?_eq_some_iff.mpr rfl
  unfold between?
  simp only [mark, Option.bind_eq_bind, Option.bind_some, skipGap_name named blank]
  split
  · next t begins => exact absurd begins (named.append_ne_cons (by decide) _ t)
  · rw [unread, Option.bind_none]

theorem otherwiseMark?_name (named : IsName name) (other : ¬ ['e', 'l', 's', 'e'] <+: name)
    (blank : IsGap after) (rest : List Char) :
    otherwiseMark? (name ++ ending after rest) = none := by
  have word : behind? ['e', 'l', 's', 'e'] (name ++ ending after rest) = none := by
    refine Option.eq_none_iff_forall_ne_some.mpr fun s found => ?_
    obtain ⟨more, split, -⟩ := eq_append_of_behind (by decide) blank found
    exact other ⟨more, split.symm⟩
  rw [otherwiseMark?, word, behind?_name named (by decide), Option.none_or, Option.map_none]

/-- **A placeholder writes the value of its name.** -/
theorem Layout.tag?_placeholder (l : Layout) (named : IsName name)
    (other : name ≠ ['t', 'h', 'i', 's']) (condition : ¬ ['e', 'l', 's', 'e'] <+: name)
    (blank : IsGap before) (blank' : IsGap after) :
    l.tag? (placeholder before name after rest) =
      some (⟨.expression (nameCall name), false, false⟩, rest) := by
  have mark := otherwiseMark?_name named condition blank' rest
  have first : otherwise? (placeholder before name after rest) = none := by
    rw [otherwise?, doubled?, doubled?, between?_eq_none named blank mark,
      between?_eq_none named blank (by rw [mark, Option.bind_none])]
    rfl
  have read : doubled? .expression expressionCall? (placeholder before name after rest) =
      some (⟨.expression (nameCall name), false, false⟩, rest) := by
    rw [doubled?, between?_placeholder named blank (expressionCall?_name named other blank')
      (skipGap_ending blank')]
    rfl
  rw [tag?, Tag.ofText?, Tag.expression?, first, read]
  rfl

/-- A name behind the word for a failed condition begins what is written then. -/
theorem isSome_otherwise? (named : IsName name) (condition : ['e', 'l', 's', 'e'] <+: name)
    (blank : IsGap before) (blank' : IsGap after) (rest : List Char) :
    (otherwise? (placeholder before name after rest)).isSome := by
  obtain ⟨more, rfl⟩ := condition
  have mark : otherwiseMark? (['e', 'l', 's', 'e'] ++ more ++ ending after rest) =
      some ((), more ++ ending after rest) := by
    rw [List.append_assoc]
    rfl
  unfold otherwise?
  cases more with
  | nil =>
    rw [doubled?, between?_placeholder named blank mark (skipGap_ending blank')]
    rfl
  | cons c more =>
    have symbols : IsName (c :: more) :=
      ⟨List.cons_ne_nil c more, fun d mem => named.symbols d (List.mem_append_right _ mem)⟩
    have block := blockCall?_name symbols blank' rest
    have behind : skipGap (c :: more ++ ending after rest) = c :: more ++ ending after rest :=
      skipGap_name symbols isGap_nil _
    rw [Option.orElse_eq_or, Option.isSome_or, Bool.or_eq_true]
    refine .inr ?_
    have read := congrArg (Option.bind · fun x => blockCall? (skipGap x.2)) mark
    simp only [Option.bind_some, behind, block] at read
    rw [doubled?, between?_placeholder named blank read (skipGap_ending blank')]
    rfl

theorem kind_of_otherwise? {s left : List Char} {tag : Tag} (h : otherwise? s = some (tag, left)) :
    ∃ call, tag.kind = .otherwise call := by
  rcases orElse_eq_some h with h | h
  · obtain ⟨⟨⟨b, u, c⟩, t⟩, -, same⟩ := Option.map_eq_some_iff.mp h
    cases same
    exact ⟨none, rfl⟩
  · obtain ⟨⟨⟨b, call, c⟩, t⟩, -, same⟩ := Option.map_eq_some_iff.mp h
    cases same
    exact ⟨some call, rfl⟩

/-- No other tag begins like a placeholder. -/
theorem behind?_opening (named : IsName name) (blank : IsGap before) {x : Char}
    (printed : Json.isGap x = false) (other : isSymbol x = false) (mark : List Char) :
    behind? (opening ++ x :: mark) (placeholder before name after rest) = none := by
  refine Option.eq_none_iff_forall_ne_some.mpr fun s found => ?_
  have same := behind?_eq_some_iff.mp found
  rw [placeholder, List.append_assoc, List.append_cancel_left_eq] at same
  cases before with
  | nil => exact named.append_ne_cons other _ _ same
  | cons c before =>
    have : c = x := (List.cons.inj same).1
    rw [← this, blank c List.mem_cons_self] at printed
    cases printed

/-- A name that begins with `else` is read as what it begins with. -/
theorem Layout.exists_otherwise (l : Layout) (named : IsName name)
    (condition : ['e', 'l', 's', 'e'] <+: name) (blank : IsGap before) (blank' : IsGap after)
    (rest : List Char) :
    ∃ tag left call, l.tag? (placeholder before name after rest) = some (tag, left) ∧
      tag.kind = .otherwise call := by
  have first := isSome_otherwise? named condition blank blank' rest
  obtain ⟨⟨tag, left⟩, found⟩ := Option.isSome_iff_exists.mp first
  obtain ⟨call, kind⟩ := kind_of_otherwise? found
  refine ⟨tag, left, call, ?_, kind⟩
  have marked : ∀ {β : Type} (kind : β → Tag.Kind) {x : Char} (mark : List Char) (inner : Reads β),
      isSymbol x = false →
        doubled? kind (after? (x :: mark) inner) (placeholder before name after rest) = none := by
    intro β kind x mark inner other
    rw [doubled?, between?_eq_none named blank (by rw [after?, behind?_name named other]; rfl)]
    rfl
  have opened : ∀ {β : Type} {x : Char} (mark closing : List Char) (inner : Reads β),
      Json.isGap x = false → isSymbol x = false →
        between? (opening ++ x :: mark) closing inner (placeholder before name after rest) =
          none := by
    intro β x mark closing inner printed other
    rw [between?, behind?_opening named blank printed other]
    rfl
  have triple : ('\x7b' :: opening) = opening ++ ['\x7b'] := rfl
  have expression : Tag.expression? (placeholder before name after rest) = none := by
    rw [Tag.expression?, if_pos first, triple, opened _ _ _ (by decide) (by decide),
      marked _ _ _ (by decide), marked _ _ _ (by decide)]
    rfl
  have remark : Tag.comment? (placeholder before name after rest) = none := by
    rw [Tag.comment?, behind?_opening named blank (by decide) (by decide)]
    rfl
  have element : Tag.ofText? (placeholder before name after rest) = none := by
    have doubled : opening ++ opening = opening ++ '\x7b' :: ['\x7b'] := rfl
    rw [Tag.ofText?, expression, doubled, remark, opened _ _ _ (by decide) (by decide),
      marked _ _ _ (by decide), marked _ _ _ (by decide), marked _ _ _ (by decide),
      marked _ _ _ (by decide), marked _ _ _ (by decide)]
    rfl
  rw [tag?, element, found]
  rfl

end Tag

end TreeQuery.Template

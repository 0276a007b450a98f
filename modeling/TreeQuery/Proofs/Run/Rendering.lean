import Mathlib
import TreeQuery.Json.Writer
import TreeQuery.Proofs.Path.Reading
import TreeQuery.Proofs.Template.Filling
import TreeQuery.Proofs.Template.TagEnd
import TreeQuery.Run.Execution

/-!
# Rendered paths

A path that is not taken for a template is used as it is written.  Rendering would make the same
of it as long as it has no two opening braces side by side (`renderPath_of_not_isTemplated`).  With
such braces it fails, unless a backslash stands before them so that they begin no tag; then it takes
the backslash away (`renderPath_escaped`).

A template of plain texts and placeholders is rendered by filling in the values, as they are; the
leftmost name that is not bound decides about the failure (`renderPath_snippets`).
-/

namespace TreeQuery

namespace Template

open Tag (opening closing)

variable {s t rest : List Char}

/-- A tag that begins but does not end makes a text malformed. -/
theorem parse_eq_none_of_unclosed (h : LiteralText s t rest) (begins : opening <+: rest)
    (free : ¬ closing <:+: s) : parse s = none := by
  obtain ⟨l, steps, -, -, enough, same⟩ :=
    Layout.exists_readFrom_literal h Layout.outside_start (Nat.lt_succ_self _)
  obtain ⟨steps, rfl⟩ : ∃ k, steps = k + 1 := ⟨steps - 1, by omega⟩
  have unclosed : ¬ closing <:+: rest := fun inside => free (inside.trans h.suffix.isInfix)
  rw [parse, same, Layout.readFrom_begins begins, l.tag?_eq_none unclosed, Option.bind_none]

/-- A template without tags means its text. -/
theorem render_literal {template text : String} (members : Bindings Json)
    (h : LiteralText template.toList text.toList []) :
    render template (.obj members) = .ok text := by
  rw [render_written members (.text h) nofun nofun]
  simp [conditional, fill, Except.map]

end Template

namespace Context

variable {c : Context} {template text : String}

theorem renderPath_of_ok (h : Template.render template (.obj c.bindings.entries) = .ok text) :
    c.renderPath template = .ok text := by
  rw [renderPath, toJson, Json.ofDict, h]

theorem renderPath_of_error {e : Template.Error}
    (h : Template.render template (.obj c.bindings.entries) = .error e) :
    c.renderPath template = .error ⟨[.template template], .template e⟩ := by
  rw [renderPath, toJson, Json.ofDict, h]

open Template.Tag (opening closing)

/-! ## Paths that are no templates -/

theorem isTemplated_eq_false_iff {s : Selection} :
    s.isTemplated = false ↔ ¬ opening <:+: s.path.toList ∨ ¬ closing <:+: s.path.toList := by
  rw [Selection.isTemplated, Bool.and_eq_false_iff, Bool.eq_false_iff, Bool.eq_false_iff]
  show ¬ Text.occursIn opening _ = true ∨ ¬ Text.occursIn closing _ = true ↔ _
  rw [Text.occursIn_iff, Text.occursIn_iff]

/-- What rendering makes of a path without closing or without opening braces: its literal text, or
nothing where a tag begins. -/
theorem renderPath_cases (c : Context) {s : Selection} (plain : s.isTemplated = false) :
    (∃ text : String, Template.LiteralText s.path.toList text.toList [] ∧
      c.renderPath s.path = .ok text) ∨
    (opening <:+: s.path.toList ∧
      c.renderPath s.path = .error ⟨[.template s.path], .template .malformed⟩) := by
  obtain ⟨t, rest, literal⟩ := Template.exists_literalText s.path.toList
  rcases literal.ends with rfl | begins
  · have whole : Template.LiteralText s.path.toList (String.ofList t).toList [] := by
      rwa [String.toList_ofList]
    exact .inl ⟨_, whole, renderPath_of_ok (Template.render_literal _ whole)⟩
  · have braces : opening <:+: s.path.toList := begins.isInfix.trans literal.suffix.isInfix
    have free : ¬ closing <:+: s.path.toList :=
      (isTemplated_eq_false_iff.mp plain).resolve_left fun none => none braces
    have malformed : Template.parse s.path.toList = none :=
      Template.parse_eq_none_of_unclosed literal begins free
    exact .inr ⟨braces, renderPath_of_error (by rw [Template.render, malformed])⟩

/-- **What skipping the templates is worth.**  Rendering a path that is not taken for a template
gives its literal text.  This is the path itself if and only if no two opening braces stand side by
side in it; otherwise the path is different, or malformed as a template. -/
theorem renderPath_of_not_isTemplated (c : Context) {s : Selection}
    (plain : s.isTemplated = false) :
    (∀ text : String, c.renderPath s.path = .ok text ↔
      Template.LiteralText s.path.toList text.toList []) ∧
    (∀ f, c.renderPath s.path = .error f →
      f = ⟨[.template s.path], .template .malformed⟩ ∧ opening <:+: s.path.toList) ∧
    (¬ opening <:+: s.path.toList → c.renderPath s.path = .ok s.path) ∧
    (∀ text, c.renderPath s.path = .ok text → (text = s.path ↔ ¬ opening <:+: s.path.toList)) := by
  have literal : ∀ text : String, c.renderPath s.path = .ok text ↔
      Template.LiteralText s.path.toList text.toList [] := by
    intro text
    constructor
    · intro rendered
      rcases renderPath_cases c plain with ⟨text', whole, rendered'⟩ | ⟨-, failed⟩
      · rw [rendered'] at rendered
        cases rendered
        exact whole
      · rw [failed] at rendered
        cases rendered
    · exact fun whole => renderPath_of_ok (Template.render_literal _ whole)
  refine ⟨literal, fun f failed => ?_, fun free => ?_, fun text rendered => ?_⟩
  · rcases renderPath_cases c plain with ⟨text, -, rendered⟩ | ⟨braces, failed'⟩
    · rw [rendered] at failed
      cases failed
    · rw [failed'] at failed
      cases failed
      exact ⟨rfl, braces⟩
  · exact (literal s.path).mpr (.of_free free)
  · rcases ((literal text).mp rendered).eq_or_length_lt with ⟨same, free⟩ | ⟨shorter, braces⟩
    · exact ⟨fun _ => free, fun _ => String.toList_inj.mp same⟩
    · refine ⟨fun same => ?_, fun free => absurd braces free⟩
      rw [same] at shorter
      exact absurd shorter (Nat.lt_irrefl _)

/-- Braces behind a backslash, without the backslash. -/
theorem literalText_escaped :
    Template.LiteralText "/r/\\\x7b\x7bx".toList "/r/\x7b\x7bx".toList [] := by
  have behind : Template.LiteralText ['x'] ['x'] [] := .of_free (by decide)
  have before : ∀ c ∈ ['/', 'r', '/'], c ≠ '\\' ∧ c ≠ '\x7b' := by simp
  exact .append_plain before (.two (by decide) behind)

/-- A path with escaped braces, one with braces that begin a tag, and one without braces. -/
theorem renderPath_of_not_isTemplated_braces :
    let escaped := Selection.ofPath "/r/\\\x7b\x7bx"
    let unclosed := Selection.ofPath "/r/\x7b\x7bx"
    let plain := Selection.ofPath "/r/x\x7d\x7d"
    (escaped.isTemplated = false ∧ Context.empty.renderPath escaped.path = .ok "/r/\x7b\x7bx") ∧
    (unclosed.isTemplated = false ∧ ∀ f, Context.empty.renderPath unclosed.path = .error f →
      f.cause = .template .malformed) ∧
    (plain.isTemplated = false ∧ Context.empty.renderPath plain.path = .ok plain.path) := by
  intro escaped unclosed plain
  have closed : escaped.isTemplated = false ∧ unclosed.isTemplated = false ∧
      plain.isTemplated = false := by decide
  refine ⟨⟨closed.1, ?_⟩, ⟨closed.2.1, fun f failed => ?_⟩, closed.2.2, ?_⟩
  · exact ((renderPath_of_not_isTemplated _ closed.1).1 _).mpr literalText_escaped
  · rw [((renderPath_of_not_isTemplated _ closed.2.1).2.1 f failed).1]
  · exact (renderPath_of_not_isTemplated _ closed.2.2).2.2.1 (by decide)

/-- Braces behind a backslash are rendered without it, so such a path is not rendered to itself. -/
theorem renderPath_escaped :
    ¬ ∀ (c : Context) (s : Selection), s.isTemplated = false →
      ∀ text, c.renderPath s.path = .ok text → text = s.path := by
  intro same
  have rendered : Context.empty.renderPath "/r/\\\x7b\x7bx" = .ok "/r/\x7b\x7bx" :=
    renderPath_of_ok (Template.render_literal _ literalText_escaped)
  exact absurd (same .empty (.ofPath "/r/\\\x7b\x7bx") (by decide) _ rendered) (by decide)

end Context

/-! ## Templates of plain texts and placeholders -/

/-- The text of a value in a path: a text stands for itself and null for nothing, and truth values
and whole numbers for what they are written as. -/
def Json.scalarText? : Json → Option String
  | .null => some ""
  | .bool b => some (Json.bool b).text
  | .int n => some (Json.int n).text
  | .str s => some s
  | _ => none

theorem Json.display_of_scalarText? {v : Json} {text : String} (h : v.scalarText? = some text) :
    v.display = text := by
  cases v with
  | null | str => exact Option.some.inj h
  | bool | int =>
    rw [← Option.some.inj h]
    simp [display, Json.text, write]
  | float | arr | obj => cases h

namespace Template

/-- A snippet of a template: plain text or a placeholder. -/
inductive Snippet where
  /-- Text that is as it is. -/
  | plain (t : List Char)
  /-- A name between double braces, with blanks around it. -/
  | placeholder (before name after : List Char)

namespace Snippet

/-- How a snippet is written. -/
def source : Snippet → List Char
  | .plain t => t
  | .placeholder before name after => Template.placeholder before name after []

/-- The name in a snippet, if it is a placeholder. -/
def name? : Snippet → Option String
  | .plain _ => none
  | .placeholder _ name _ => some (String.ofList name)

/-- The text that a snippet gives way to, for the members of an object. -/
def filled (data : Json) : Snippet → List Char
  | .plain t => t
  | .placeholder _ name _ =>
    ((data.member? (String.ofList name)).bind Json.scalarText?).getD "" |>.toList

/-- Whether a snippet is what it looks like.  The name of a placeholder may be any name of a
variable that does not begin with `else`. -/
def Sound : Snippet → Prop
  | .plain t => ∀ c ∈ t, c ≠ '\\' ∧ c ≠ '\x7b'
  | .placeholder before name after =>
    IsGap before ∧ IsGap after ∧ IsVariable name ∧ ¬ ['e', 'l', 's', 'e'] <+: name

instance : (p : Snippet) → Decidable p.Sound
  | .plain t => decidable_of_iff (t.all (fun c => c ≠ '\\' ∧ c ≠ '\x7b') = true) (by simp [Sound])
  | .placeholder before name after => inferInstanceAs (Decidable
      (IsGap before ∧ IsGap after ∧ IsVariable name ∧ ¬ ['e', 'l', 's', 'e'] <+: name))

/-- A snippet as a part of a template. -/
def part : Snippet → Part
  | .plain t => .text t
  | .placeholder _ name _ => .name name

end Snippet

/-- The template that snippets make. -/
def templateOf (snippets : List Snippet) : String := String.ofList (snippets.flatMap Snippet.source)

theorem written_snippets {snippets : List Snippet} (sound : ∀ p ∈ snippets, p.Sound) :
    Written (snippets.flatMap Snippet.source) (Part.firstText (snippets.map Snippet.part))
      (Part.turnsOf (snippets.map Snippet.part)) := by
  induction snippets with
  | nil => exact .text .finish
  | cons p snippets ih =>
    have behind := ih fun q mem => sound q (List.mem_cons_of_mem p mem)
    have here := sound p List.mem_cons_self
    cases p with
    | plain t => exact behind.of_longer fun rest literal => .append_plain here literal
    | placeholder before name after =>
      obtain ⟨blank, blank', isVariable, -⟩ := here
      have source : (Snippet.placeholder before name after).source ++
          snippets.flatMap Snippet.source =
            placeholder before name after (snippets.flatMap Snippet.source) := by
        simp [Snippet.source, placeholder, ending]
      rw [List.flatMap_cons, source]
      exact .hole (.tag (Layout.opening_begins _ _ _ _)) blank isVariable.named blank' behind

theorem namesOf_snippets (snippets : List Snippet) :
    Part.namesOf (snippets.map Snippet.part) = snippets.filterMap Snippet.name? := by
  rw [Part.namesOf, List.filterMap_map]
  congr 1
  funext p
  cases p <;> rfl

theorem conditional_snippets {snippets : List Snippet} (sound : ∀ p ∈ snippets, p.Sound) :
    conditional (Part.turnsOf (snippets.map Snippet.part)) = false := by
  rw [conditional, List.any_eq_false]
  intro turn mem begins
  obtain ⟨p, mem', same⟩ := List.mem_map.mp (Part.mem_of_mem_turnsOf mem)
  have here := sound p mem'
  cases p with
  | plain t => cases same
  | placeholder before name after =>
    cases same
    exact here.2.2.2 (List.isPrefixOf_iff_prefix.mp begins)

theorem render_snippets {snippets : List Snippet} (sound : ∀ p ∈ snippets, p.Sound)
    (members : Bindings Json) :
    render (templateOf snippets) (.obj members) =
      match (snippets.filterMap Snippet.name?).find? fun name => (members.find? name).isNone with
      | none => .ok (String.ofList ((snippets.map Snippet.part).flatMap (Part.shown members)))
      | some name => .error (.missingVariable (some name)) := by
  have written : Written (templateOf snippets).toList (Part.firstText (snippets.map Snippet.part))
      (Part.turnsOf (snippets.map Snippet.part)) := by
    rw [templateOf, String.toList_ofList]
    exact written_snippets sound
  have named : ∀ n, .name n ∈ snippets.map Snippet.part → IsVariable n := by
    intro n mem
    obtain ⟨p, mem, same⟩ := List.mem_map.mp mem
    have here := sound p mem
    cases p with
    | plain t => cases same
    | placeholder before name after =>
      cases same
      exact here.2.2.1
  have rendered := render_parts members written named
  rwa [conditional_snippets sound, namesOf_snippets] at rendered

/-- Names that are bound show the texts of their values. -/
theorem shown_snippets {snippets : List Snippet} {members : Bindings Json}
    (bound : ∀ name ∈ snippets.filterMap Snippet.name?, ∃ v, members.find? name = some v ∧
      v.scalarText?.isSome) :
    (snippets.map Snippet.part).flatMap (Part.shown members) =
      snippets.flatMap (Snippet.filled (.obj members)) := by
  rw [List.flatMap_map]
  refine List.flatMap_congr fun p mem => ?_
  cases p with
  | plain t => rfl
  | placeholder before name after =>
    obtain ⟨v, value, scalar⟩ := bound _ (List.mem_filterMap.mpr ⟨_, mem, rfl⟩)
    obtain ⟨text, scalar⟩ := Option.isSome_iff_exists.mp scalar
    have member : (Json.obj members).member? (String.ofList name) = some v := value
    simp [Snippet.part, Part.shown, Snippet.filled, value, member, scalar,
      Json.display_of_scalarText? scalar]

end Template

namespace Context

open Template (Snippet templateOf)

/-- **A template of plain texts and placeholders is rendered by filling in the values.**  It
succeeds if and only if every name is bound in what templates see; the texts stay as they are, a
text that is a value stands as it is in the place of its name, truth values and whole numbers as
they are written, and null leaves nothing.  Otherwise the leftmost name that is not bound is the one
that is missing.

A name is one of a variable that does not begin with `else`; so a letter followed by letters, digits
and underscores is one, unless it is the name of a helper or the word `this`. -/
theorem renderPath_snippets (c : Context) {snippets : List Snippet}
    (sound : ∀ p ∈ snippets, p.Sound)
    (scalar : ∀ name ∈ snippets.filterMap Snippet.name?, ∀ v, c.toJson.member? name = some v →
      v.scalarText?.isSome) :
    ((∃ text, c.renderPath (templateOf snippets) = .ok text) ↔
      ∀ name ∈ snippets.filterMap Snippet.name?, (c.toJson.member? name).isSome) ∧
    ((∀ name ∈ snippets.filterMap Snippet.name?, (c.toJson.member? name).isSome) →
      c.renderPath (templateOf snippets) =
        .ok (String.ofList (snippets.flatMap (Snippet.filled c.toJson)))) ∧
    (∀ earlier name later, snippets.filterMap Snippet.name? = earlier ++ name :: later →
      (∀ name ∈ earlier, (c.toJson.member? name).isSome) → c.toJson.member? name = none →
      c.renderPath (templateOf snippets) =
        .error ⟨[.template (templateOf snippets)], .template (.missingVariable (some name))⟩) := by
  have rendered := Template.render_snippets sound c.bindings.entries
  have absent_iff : ∀ name, (c.bindings.entries.find? name).isNone = true ↔
      ¬ (c.toJson.member? name).isSome = true := by
    intro name
    show (c.bindings.entries.find? name).isNone = true ↔ ¬ (c.bindings.entries.find? name).isSome
    rw [Option.isNone_iff_eq_none, Option.not_isSome_iff_eq_none]
  have ok : (∀ name ∈ snippets.filterMap Snippet.name?, (c.toJson.member? name).isSome) →
      c.renderPath (templateOf snippets) =
        .ok (String.ofList (snippets.flatMap (Snippet.filled c.toJson))) := by
    intro present
    have none := List.find?_eq_none.mpr fun name mem =>
      mt (absent_iff name).mp (not_not_intro (present name mem))
    have shown := Template.shown_snippets fun name mem => by
      obtain ⟨v, value⟩ := Option.isSome_iff_exists.mp (present name mem)
      exact ⟨v, value, scalar name mem v value⟩
    rw [none, shown] at rendered
    exact renderPath_of_ok rendered
  have missing : ∀ earlier name later,
      snippets.filterMap Snippet.name? = earlier ++ name :: later →
      (∀ name ∈ earlier, (c.toJson.member? name).isSome) → c.toJson.member? name = none →
      c.renderPath (templateOf snippets) =
        .error ⟨[.template (templateOf snippets)], .template (.missingVariable (some name))⟩ := by
    intro earlier name later names present absent
    have leftmost : ((snippets.filterMap Snippet.name?).find? fun name =>
        (c.bindings.entries.find? name).isNone) = some name := by
      refine List.find?_eq_some_iff_append.mpr ⟨(absent_iff name).mpr (by simp [absent]),
        earlier, later, names, fun other mem => ?_⟩
      rw [Bool.not_eq_true', Bool.eq_false_iff, Ne, absent_iff]
      exact not_not_intro (present other mem)
    rw [leftmost] at rendered
    exact renderPath_of_error rendered
  refine ⟨⟨fun ⟨text, success⟩ name mem => ?_, fun present => ⟨_, ok present⟩⟩, ok, missing⟩
  by_contra absent
  cases found : (snippets.filterMap Snippet.name?).find? fun name =>
    (c.bindings.entries.find? name).isNone with
  | none => exact List.find?_eq_none.mp found name mem ((absent_iff name).mpr absent)
  | some first =>
    rw [found] at rendered
    rw [renderPath_of_error rendered] at success
    cases success

/-- Values of all kinds with what other settings would escape, and two names that are not bound. -/
theorem renderPath_snippets_values :
    let c := ofParams (Dict.ofPairs
      [("n", .int (-3)), ("yes", .bool true), ("tag", .str "<a&b>"), ("none", .null)])
    let snippets : List Snippet :=
      [.plain ['/', '&', '\x7d', '/'], .placeholder [' '] ['t', 'a', 'g'] [' ', ' '],
        .placeholder [] ['n', 'o', 'n', 'e'] [], .plain ['/'], .placeholder [] ['n'] [' '],
        .plain ['\n'], .placeholder [' '] ['y', 'e', 's'] []]
    let unbound : List Snippet :=
      [.placeholder [] ['t', 'a', 'g'] [], .plain ['/'], .placeholder [] ['x', '_', '1'] [],
        .placeholder [] ['y'] []]
    c.renderPath (templateOf snippets) = .ok "/&\x7d/<a&b>/-3\ntrue" ∧
    (¬ ∃ text, c.renderPath (templateOf unbound) = .ok text) ∧
    c.renderPath (templateOf unbound) =
      .error ⟨[.template (templateOf unbound)], .template (.missingVariable (some "x_1"))⟩ := by
  intro c snippets unbound
  have sound : (∀ p ∈ snippets, p.Sound) ∧ ∀ p ∈ unbound, p.Sound := by decide
  have values : c.toJson.member? "tag" = some (.str "<a&b>") ∧
      c.toJson.member? "none" = some .null ∧ c.toJson.member? "n" = some (.int (-3)) ∧
      c.toJson.member? "yes" = some (.bool true) ∧ c.toJson.member? "x_1" = none ∧
      c.toJson.member? "y" = none := ⟨rfl, rfl, rfl, rfl, rfl, rfl⟩
  obtain ⟨tag, none, n, yes, x, y⟩ := values
  have bound : ∀ name ∈ ["tag", "none", "n", "yes"], ∃ v, c.toJson.member? name = some v ∧
      v.scalarText?.isSome := by
    simp [tag, none, n, yes, Json.scalarText?]
  have scalar : ∀ name ∈ snippets.filterMap Snippet.name?, ∀ v, c.toJson.member? name = some v →
      v.scalarText?.isSome := by
    intro name mem v value
    obtain ⟨v', value', scalar⟩ := bound name mem
    rw [value'] at value
    cases value
    exact scalar
  have scalar' : ∀ name ∈ unbound.filterMap Snippet.name?, ∀ v, c.toJson.member? name = some v →
      v.scalarText?.isSome := by
    have all : ∀ name ∈ ["tag", "x_1", "y"], ∀ v, c.toJson.member? name = some v →
        v.scalarText?.isSome := by
      simp [tag, x, y, Json.scalarText?]
    exact all
  have success := (renderPath_snippets c sound.1 scalar).2.1 fun name mem => by
    obtain ⟨v, value, -⟩ := bound name mem
    rw [value]
    rfl
  have failure := renderPath_snippets c sound.2 scalar'
  refine ⟨success.trans ?_, fun found => ?_, ?_⟩
  · exact congrArg Except.ok (by decide +kernel)
  · have present := failure.1.mp found "x_1" (by decide)
    rw [x] at present
    cases present
  · exact failure.2.2 ["tag"] "x_1" ["y"] rfl (by simp [tag]) x

end Context

end TreeQuery

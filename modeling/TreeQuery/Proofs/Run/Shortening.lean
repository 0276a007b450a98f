import Mathlib
import TreeQuery.Proofs.Path.Normal
import TreeQuery.Proofs.Run.Rendering

/-!
# How long rendered paths are

A template of a path has components between slashes: literal ones, and placeholders.  Rendering
fails where a name is not bound, so no component gets lost that way.  But a value may show nothing
between two slashes, and what is empty there does not count: the path of a rendered text has one
part for each literal component, and for each placeholder as many parts as the text of its value
(`length_segments_of_renderPath`).

Only null and texts without any character but slashes have no part.  A path with such a value is
shorter than its template (`renderPath_shortens`); every other path is at least as long.
-/

namespace TreeQuery

/-! ## What values show -/

namespace Json

theorem exists_mem_toString (n : Int) : ∃ c ∈ (toString n).toList, c ≠ '/' := by
  have digits : ∀ m : Nat, ∃ c ∈ m.repr.toList, c ≠ '/' := by
    intro m
    obtain ⟨c, mem⟩ := List.exists_mem_of_ne_nil _ (Nat.toDigits_ne_nil (n := m) (b := 10))
    refine ⟨c, by rwa [Nat.repr, String.toList_ofList], ?_⟩
    rintro rfl
    cases Nat.isDigit_of_mem_toDigits (by decide) (by decide) mem
  rw [Int.toString_eq_repr]
  cases n with
  | ofNat m => exact digits m
  | negSucc m => exact ⟨'-', by simp [Int.repr], by decide⟩

theorem exists_mem_floatText (x : Float) : ∃ c ∈ (floatText x).toList, c ≠ '/' := by
  have marked : '.' ∈ (floatText x).toList ∨ 'e' ∈ (floatText x).toList := by
    unfold floatText
    extract_lets bits sign zeros d digits point fraction plus magnitude
    rw [String.toList_ofList, List.mem_append, List.mem_append]
    have inside : '.' ∈ magnitude ∨ 'e' ∈ magnitude := by
      simp only [magnitude]
      split
      · simp
      split
      · simp
      split
      · simp
      split <;> simp
    exact inside.imp .inr .inr
  rcases marked with mem | mem
  · exact ⟨'.', mem, by decide⟩
  · exact ⟨'e', mem, by decide⟩

/-- Only null shows nothing, and a text what it is; all other values show more than slashes. -/
theorem exists_mem_display {v : Json} (valued : v ≠ .null)
    (filled : ∀ s, v = .str s → ∃ c ∈ s.toList, c ≠ '/') : ∃ c ∈ v.display.toList, c ≠ '/' := by
  cases v with
  | null => exact absurd rfl valued
  | bool b =>
    cases b
    · exact ⟨'f', by simp [display], by decide⟩
    · exact ⟨'t', by simp [display], by decide⟩
  | int n => exact exists_mem_toString n
  | float x => exact exists_mem_floatText x
  | str s => exact filled s rfl
  | arr items => exact ⟨']', by simp [display], by decide⟩
  | obj members => exact ⟨'o', by simp [display], by decide⟩

end Json

namespace Text

variable {p : Char → Bool} {cut : Char}

/-- Texts with a cut before each have the parts of all of them. -/
theorem parts_append_flatMap (cuts : p cut = true) (u : List Char) (texts : List (List Char)) :
    parts p (u ++ texts.flatMap (cut :: ·)) = parts p u ++ texts.flatMap (parts p) := by
  induction texts generalizing u with
  | nil => simp
  | cons text texts ih =>
    rw [List.flatMap_cons, List.cons_append, parts_append_cut cuts, ih, List.flatMap_cons]

end Text

/-! ## Components -/

namespace Template

/-- A component of a template of a path, behind its slash. -/
inductive Component where
  /-- A literal one, as it is written and as it is meant. -/
  | literal (written meant : List Char)
  /-- A placeholder. -/
  | placeholder (before name after : List Char)

namespace Component

/-- How a component is written. -/
def source : Component → List Char
  | .literal written _ => written
  | .placeholder before name after => Template.placeholder before name after []

/-- The name in a component, if it is a placeholder. -/
def name? : Component → Option String
  | .literal _ _ => none
  | .placeholder _ name _ => some (String.ofList name)

/-- Whether a component is what it looks like: text without slashes and tags, and not empty, or the
name of a variable. -/
def Sound : Component → Prop
  | .literal written meant => written ≠ [] ∧ '/' ∉ written ∧ LiteralText written meant []
  | .placeholder before name after => IsGap before ∧ IsGap after ∧ IsVariable name

/-- The text that a component gives way to, for the members of an object. -/
def shown (data : Json) : Component → List Char
  | .literal _ meant => meant
  | .placeholder _ name _ =>
    ((data.member? (String.ofList name)).map Json.display).getD "" |>.toList

/-- The number of parts of a path that a component becomes. -/
def partCount (data : Json) : Component → Nat
  | .literal _ _ => 1
  | .placeholder before name after =>
    (Path.partsOf ((Component.placeholder before name after).shown data)).length

/-- A component as parts of a template. -/
def parts : Component → List Part
  | .literal _ meant => [.text ('/' :: meant)]
  | .placeholder _ name _ => [.text ['/'], .name name]

/-- The parts of the text are those of its components. -/
theorem partsOf_shown (components : List Component) (data : Json) :
    Path.partsOf (components.flatMap fun x => '/' :: x.shown data) =
      components.flatMap fun x => Path.partsOf (x.shown data) := by
  have whole : Path.partsOf ([] ++ (components.map (shown data)).flatMap ('/' :: ·)) =
      Path.partsOf [] ++ (components.map (shown data)).flatMap Path.partsOf :=
    Text.parts_append_flatMap rfl [] _
  rwa [List.flatMap_map, List.flatMap_map] at whole

theorem length_partsOf_shown {x : Component} (sound : x.Sound) (data : Json) :
    (Path.partsOf (x.shown data)).length = x.partCount data := by
  cases x with
  | placeholder before name after => rfl
  | literal written meant =>
    obtain ⟨nonempty, single, literal⟩ := sound
    have within : ∀ c ∈ meant, ¬ (c == '/') = true := by
      intro c mem same
      exact single (eq_of_beq same ▸ literal.subset mem)
    have filled : meant ≠ [] := by
      rcases literal.nil_or_begins with ⟨-, rfl⟩ | ⟨filled, -⟩
      · exact absurd rfl nonempty
      · exact filled
    show (Text.parts (· == '/') meant).length = 1
    rw [Text.parts, Text.pieces_of_neg within, List.filter_cons_of_pos (by simpa using filled)]
    rfl

theorem one_le_partCount {before name after : List Char} {data v : Json}
    (value : data.member? (String.ofList name) = some v)
    (filled : ∃ c ∈ v.display.toList, c ≠ '/') :
    1 ≤ (placeholder before name after).partCount data := by
  refine List.length_pos_iff.mpr fun empty => ?_
  have slashes := (Text.parts_eq_nil_iff _ _).mp empty
  obtain ⟨c, mem, other⟩ := filled
  have shown : (placeholder before name after).shown data = v.display.toList := by
    simp [Component.shown, value]
  rw [shown] at slashes
  exact other (eq_of_beq (List.all_eq_true.mp slashes c mem))

end Component

/-- The template that components make, with a slash before each. -/
def templatePath (components : List Component) : String :=
  String.ofList (components.flatMap fun x => '/' :: x.source)

theorem written_components {components : List Component} (sound : ∀ x ∈ components, x.Sound) :
    Written (components.flatMap fun x => '/' :: x.source)
      (Part.firstText (components.flatMap Component.parts))
      (Part.turnsOf (components.flatMap Component.parts)) := by
  have slash : ∀ c ∈ ['/'], c ≠ '\\' ∧ c ≠ '\x7b' := by simp
  induction components with
  | nil => exact .text .finish
  | cons x components ih =>
    have behind := ih fun y mem => sound y (List.mem_cons_of_mem x mem)
    have here := sound x List.mem_cons_self
    cases x with
    | literal written meant =>
      obtain ⟨-, -, literal⟩ := here
      have first : ∀ c ∈ (components.flatMap fun x => '/' :: x.source).head?,
          c ≠ '\\' ∧ c ≠ '\x7b' := by
        cases components with
        | nil => exact nofun
        | cons y components =>
          rintro c ⟨⟩
          exact slash '/' List.mem_cons_self
      exact behind.of_longer fun rest h => .append_plain slash (literal.append first h)
    | placeholder before name after =>
      obtain ⟨blank, blank', isVariable⟩ := here
      have source : (Component.placeholder before name after).source ++
          (components.flatMap fun x => '/' :: x.source) =
            placeholder before name after (components.flatMap fun x => '/' :: x.source) := by
        simp [Component.source, placeholder, ending]
      rw [List.flatMap_cons, List.cons_append, source]
      exact .hole (.append_plain slash (.tag (Layout.opening_begins _ _ _ _))) blank
        isVariable.named blank' behind

/-- Of components that can be rendered every name is bound, and the text shows each component. -/
theorem render_components {components : List Component} (sound : ∀ x ∈ components, x.Sound)
    {members : Bindings Json} {text : String}
    (rendered : render (templatePath components) (.obj members) = .ok text) :
    (∀ x ∈ components, ∀ name, x.name? = some name → (members.find? name).isSome) ∧
      text.toList = components.flatMap fun x => '/' :: x.shown (.obj members) := by
  have written : Written (templatePath components).toList
      (Part.firstText (components.flatMap Component.parts))
      (Part.turnsOf (components.flatMap Component.parts)) := by
    rw [templatePath, String.toList_ofList]
    exact written_components sound
  have named : ∀ n, .name n ∈ components.flatMap Component.parts → IsVariable n := by
    intro n mem
    obtain ⟨x, mem, inside⟩ := List.mem_flatMap.mp mem
    have here := sound x mem
    cases x with
    | literal written meant => simp [Component.parts] at inside
    | placeholder before name after =>
      obtain rfl : n = name := by simpa [Component.parts] using inside
      exact here.2.2
  have shown : (components.flatMap Component.parts).flatMap (Part.shown members) =
      components.flatMap fun x => '/' :: x.shown (.obj members) := by
    rw [List.flatMap_assoc]
    refine List.flatMap_congr fun x _ => ?_
    cases x with
    | literal written meant => exact List.append_nil _
    | placeholder before name after => exact congrArg ('/' :: ·) (List.append_nil _)
  rw [render_parts members written named, shown] at rendered
  cases condition : conditional (Part.turnsOf (components.flatMap Component.parts)) with
  | true => simp [condition] at rendered
  | false =>
    cases absent : (Part.namesOf (components.flatMap Component.parts)).find? fun name =>
      (members.find? name).isNone with
    | some name => simp [condition, absent] at rendered
    | none =>
      rw [condition, absent] at rendered
      refine ⟨fun x mem name found => ?_, ?_⟩
      · cases x with
        | literal written meant => cases found
        | placeholder before n after =>
          cases found
          have part : .name n ∈ components.flatMap Component.parts :=
            List.mem_flatMap.mpr ⟨_, mem, by simp [Component.parts]⟩
          have bound := List.find?_eq_none.mp absent _ (Part.mem_namesOf part)
          simpa [Option.isSome_iff_ne_none] using bound
      · rw [← Except.ok.inj rendered, String.toList_ofList]

end Template

namespace Context

open Template (Component templatePath)

theorem render_of_renderPath {c : Context} {template text : String}
    (h : c.renderPath template = .ok text) :
    Template.render template (.obj c.bindings.entries) = .ok text := by
  cases rendered : Template.render template (.obj c.bindings.entries) with
  | error e =>
    rw [renderPath_of_error rendered] at h
    cases h
  | ok text' =>
    rw [renderPath_of_ok rendered] at h
    exact congrArg Except.ok (Except.ok.inj h)

/-- **How long a rendered path is.**  A literal component is one part of the path, and a placeholder
as many as the text of its value has.  So the path is at least as long as the template, unless the
value of a name is null or a text without any character but slashes. -/
theorem length_segments_of_renderPath (c : Context) {components : List Component}
    (sound : ∀ x ∈ components, x.Sound) {text : String} {p : Path}
    (rendered : c.renderPath (templatePath components) = .ok text)
    (parsed : Path.parse text = .ok p) :
    1 + p.segments.length = (components.map (Component.partCount c.toJson)).sum ∧
    ((∀ x ∈ components, ∀ name, x.name? = some name → ∀ v, c.toJson.member? name = some v →
        v ≠ .null ∧ ∀ s, v = .str s → ∃ c ∈ s.toList, c ≠ '/') →
      components.length ≤ 1 + p.segments.length) := by
  obtain ⟨bound, shown⟩ := Template.render_components sound (render_of_renderPath rendered)
  have length : 1 + p.segments.length = (components.map (Component.partCount c.toJson)).sum := by
    calc
      1 + p.segments.length = p.parts.length := by simp [Path.parts, Nat.add_comm]
      _ = (Path.partsOf text.toList).length := by rw [(Path.parse_eq_ok_iff_parts.mp parsed).1]
      _ = (components.flatMap fun x => Path.partsOf (x.shown c.toJson)).length := by
        rw [shown]
        exact congrArg List.length (Component.partsOf_shown components c.toJson)
      _ = (components.map (Component.partCount c.toJson)).sum := by
        rw [List.length_flatMap]
        refine congrArg List.sum (List.map_congr_left fun x mem => ?_)
        exact Component.length_partsOf_shown (sound x mem) c.toJson
  refine ⟨length, fun valued => ?_⟩
  have each : ∀ n ∈ components.map (Component.partCount c.toJson), 1 ≤ n := by
    intro n counted
    obtain ⟨x, mem, rfl⟩ := List.mem_map.mp counted
    cases x with
    | literal written meant => exact Nat.le_refl 1
    | placeholder before name after =>
      have named : (Component.placeholder before name after).name? =
          some (String.ofList name) := rfl
      obtain ⟨v, value⟩ := Option.isSome_iff_exists.mp (bound _ mem _ named)
      have member : c.toJson.member? (String.ofList name) = some v := value
      obtain ⟨proper, filled⟩ := valued _ mem _ named v member
      exact Component.one_le_partCount member (Json.exists_mem_display proper filled)
  rw [length]
  simpa using List.length_le_sum_of_one_le _ each

/-- A value of two parts, and a component with escaped braces. -/
theorem length_segments_of_renderPath_value :
    let c := ofParams (Dict.ofPairs [("x", .str "b//c/")])
    let components : List Component :=
      [.literal ['r'] ['r'], .placeholder [] ['x'] [' '],
        .literal ['\\', '\x7b', '\x7b', 'a'] ['\x7b', '\x7b', 'a']]
    ∃ text p, c.renderPath (templatePath components) = .ok text ∧ Path.parse text = .ok p ∧
      1 + p.segments.length = 4 ∧ components.length ≤ 1 + p.segments.length := by
  intro c components
  have sound : ∀ x ∈ components, x.Sound := by
    have escaped : Template.LiteralText ['a'] ['a'] [] := .of_free (by decide)
    simp only [components, List.forall_mem_cons]
    refine ⟨⟨by decide, by decide, .of_free (by decide)⟩, ⟨by decide, by decide, by decide⟩,
      ⟨by decide, by decide, .two (by decide) escaped⟩, List.forall_mem_nil _⟩
  have rendered : c.renderPath (templatePath components) = .ok "/r/b//c//\x7b\x7ba" := by cbv
  have parsed : Path.parse "/r/b//c//\x7b\x7ba" = .ok ⟨"r", ["b", "c", "\x7b\x7ba"]⟩ := by decide
  obtain ⟨count, long⟩ := length_segments_of_renderPath c sound rendered parsed
  have value : c.toJson.member? "x" = some (.str "b//c/") := rfl
  refine ⟨_, _, rendered, parsed, rfl, long fun x mem name named v bound => ?_⟩
  simp only [components, List.mem_cons, List.not_mem_nil, or_false] at mem
  rcases mem with rfl | rfl | rfl
  · cases named
  · cases named
    cases value.symm.trans bound
    refine ⟨Json.noConfusion, fun s same => ?_⟩
    cases same
    exact ⟨'b', by decide, by decide⟩
  · cases named

/-- Null leaves nothing between its slashes, so the path is shorter than its template. -/
theorem renderPath_shortens :
    ¬ ∀ (c : Context) (components : List Component), (∀ x ∈ components, x.Sound) →
      ∀ text p, c.renderPath (templatePath components) = .ok text → Path.parse text = .ok p →
        components.length ≤ 1 + p.segments.length := by
  intro long
  have sound : ∀ x ∈ [Component.literal ['r'] ['r'], .placeholder [] ['x'] [],
      .literal ['a'] ['a']], x.Sound := by
    simp only [List.forall_mem_cons]
    exact ⟨⟨by decide, by decide, .of_free (by decide)⟩, ⟨by decide, by decide, by decide⟩,
      ⟨by decide, by decide, .of_free (by decide)⟩, List.forall_mem_nil _⟩
  have rendered : (ofParams (Dict.ofPairs [("x", .null)])).renderPath (templatePath
      [.literal ['r'] ['r'], .placeholder [] ['x'] [], .literal ['a'] ['a']]) = .ok "/r//a" := by
    cbv
  have parsed : Path.parse "/r//a" = .ok ⟨"r", ["a"]⟩ := by decide
  exact absurd (long _ _ sound _ _ rendered parsed) (by decide)

end Context

end TreeQuery

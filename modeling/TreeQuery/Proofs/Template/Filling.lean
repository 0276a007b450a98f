import TreeQuery.Proofs.Template.Turns
import TreeQuery.Template.Render

/-!
# Filling placeholders

To render a template of literal texts and placeholders is to fill in the values of the names
(`render_written`): nothing is indented or escaped, and each value stands where its name stood.

`Part` takes such a template apart in any way, with several texts side by side or none between two
names.  The leftmost name without a value decides about the error (`fill_parts`).
-/

namespace TreeQuery.Template

variable (members : Bindings Json)

/-- The value that a name gives way to, as it is written. -/
def worth (name : List Char) : Except Error (List Char) :=
  match members.find? (String.ofList name) with
  | some v => .ok v.display.toList
  | none => .error (.missingVariable (some (String.ofList name)))

/-- Literal texts with the values of the names between them. -/
def fill (t : List Char) : Turns → Except Error (List Char)
  | [] => .ok t
  | (name, u) :: turns => do
    let v ← worth members name
    let more ← fill u turns
    return t ++ (v ++ more)

/-- At the outermost place, where nothing is indented. -/
structure Writing.Outside (w : Writing) : Prop where
  scopes : w.scopes = [Scope.outermost]
  indent : w.indent = none

theorem Writing.Outside.write {w : Writing} (h : w.Outside) (t : List Char) :
    (w.write t).Outside ∧ (w.write t).out = w.out ++ String.ofList t := by
  unfold Writing.write
  cases t with
  | nil => exact ⟨h, by simp⟩
  | cons c t =>
    rw [h.indent]
    exact ⟨⟨h.scopes, h.indent⟩, rfl⟩

/-- A name leads from the outermost place to the member of that name. -/
theorem resolve_name (name : String) :
    ∃ way, resolve (.obj members) [Scope.outermost] [.name name] =
      .ok ⟨members.find? name, way⟩ := by
  have unnamed : findNamed [Scope.outermost] name = none := rfl
  have followed : follow (some (.obj members)) [name] = .ok (members.find? name) := by
    simp [follow]
  refine ⟨if (members.find? name).isSome then some [name] else none, ?_⟩
  have first : leadingUps [.name name] = 0 := rfl
  have below : names [.name name] = [name] := rfl
  have inData : Scope.outermost.value = none ∧ Scope.outermost.way = [] := ⟨rfl, rfl⟩
  simp [resolve, first, below, unnamed, inData, followed, Except.map]

/-- An expression that is only a name writes the value of the name. -/
theorem writeElement_nameCall {name : List Char} (helper : isHelper (String.ofList name) = false)
    {w : Writing} (outside : w.Outside) (depth : Nat) :
    writeElement (.obj members) (depth + 1) (.expression (nameCall name)) w =
      (worth members name).map w.write := by
  obtain ⟨way, found⟩ := resolve_name members (String.ofList name)
  have head : headName (.obj members) w.scopes (nameCall name).head =
      .ok (String.ofList name) := rfl
  have bare : (nameCall name).isBare = true := rfl
  have value : evaluate (.obj members) w.scopes (nameCall name).head =
      .ok ⟨some (String.ofList name), members.find? (String.ofList name), way⟩ := by
    rw [outside.scopes]
    simp only [evaluate, nameCall, find, roundVariable?, found, Except.map]
  unfold writeElement worth
  simp only [head, bare, value, bind, Except.bind, helper]
  cases members.find? (String.ofList name) <;> rfl

theorem foldlM_textElements (t : List Char) (es : List Element) (depth : Nat) (w : Writing) :
    (textElements t ++ es).foldlM (fun w e => writeElement (.obj members) (depth + 1) e w) w =
      es.foldlM (fun w e => writeElement (.obj members) (depth + 1) e w) (w.write t) := by
  unfold textElements
  cases t with
  | nil => rfl
  | cons c t => rfl

theorem elementsOf_cons (t name u : List Char) (turns : Turns) :
    elementsOf t ((name, u) :: turns) =
      textElements t ++ .expression (nameCall name) :: elementsOf u turns := by
  simp [elementsOf]

/-- The elements are written by filling in the values. -/
theorem foldlM_elementsOf {turns : Turns}
    (helper : ∀ turn ∈ turns, isHelper (String.ofList turn.1) = false) (t : List Char) (depth : Nat)
    {w : Writing} (outside : w.Outside) :
    ((elementsOf t turns).foldlM (fun w e => writeElement (.obj members) (depth + 1) e w) w).map
        Writing.out =
      (fill members t turns).map fun text => w.out ++ String.ofList text := by
  induction turns generalizing t w with
  | nil =>
    have text := foldlM_textElements members t [] depth w
    rw [List.append_nil] at text
    rw [elementsOf, List.flatMap_nil, List.append_nil, text]
    exact congrArg Except.ok (outside.write t).2
  | cons turn turns ih =>
    obtain ⟨name, u⟩ := turn
    obtain ⟨written, out⟩ := outside.write t
    have value := writeElement_nameCall members (helper _ List.mem_cons_self) written depth
    rw [elementsOf_cons, foldlM_textElements, List.foldlM_cons, value]
    unfold fill
    cases worth members name with
    | error e => rfl
    | ok v =>
      obtain ⟨written', out'⟩ := written.write v
      have later := ih (fun turn mem => helper turn (List.mem_cons_of_mem _ mem)) u written'
      refine later.trans ?_
      rw [out', out]
      cases fill members u turns with
      | error e => rfl
      | ok more =>
        refine congrArg Except.ok ?_
        simp [String.append_assoc]

/-- **Rendering is filling in.** -/
theorem render_written {template : String} {t : List Char} {turns : Turns}
    (h : Written template.toList t turns) (other : ∀ turn ∈ turns, turn.1 ≠ ['t', 'h', 'i', 's'])
    (helper : ∀ turn ∈ turns, isHelper (String.ofList turn.1) = false) :
    render template (.obj members) =
      if conditional turns then .error .malformed
      else (fill members t turns).map String.ofList := by
  rw [render, parse_eq_elementsOf h other]
  cases conditional turns with
  | true => rfl
  | false =>
    have depth : 4 * template.length + 1000 = (4 * template.length + 998) + 1 + 1 := by omega
    have outside : Writing.start.Outside := ⟨rfl, rfl⟩
    have written := foldlM_elementsOf members helper t (4 * template.length + 998) outside
    rw [depth]
    refine written.trans ?_
    simp [Writing.start]

/-! ## Parts -/

/-- A part of a template: a literal text, by what it means, or a placeholder, by its name. -/
inductive Part where
  /-- A literal text. -/
  | text (t : List Char)
  /-- A placeholder. -/
  | name (n : List Char)

namespace Part

/-- The literal text that the parts begin with. -/
def firstText : List Part → List Char
  | [] => []
  | .text t :: parts => t ++ firstText parts
  | .name _ :: _ => []

/-- The names of the parts, with the literal text behind each. -/
def turnsOf : List Part → Turns
  | [] => []
  | .text _ :: parts => turnsOf parts
  | .name n :: parts => (n, firstText parts) :: turnsOf parts

/-- The names of the parts, from left to right. -/
def namesOf (parts : List Part) : List String :=
  parts.filterMap fun part => match part with
    | .text _ => none
    | .name n => some (String.ofList n)

/-- The text that a part gives way to. -/
def shown : Part → List Char
  | .text t => t
  | .name n => ((members.find? (String.ofList n)).map Json.display).getD "" |>.toList

end Part

theorem fill_append (t u : List Char) (turns : Turns) :
    fill members (t ++ u) turns = (fill members u turns).map (t ++ ·) := by
  cases turns with
  | nil => rfl
  | cons turn turns =>
    simp only [fill]
    cases worth members turn.1 with
    | error e => rfl
    | ok v =>
      show Except.bind (fill members turn.2 turns) _ = Except.map _ (Except.bind _ _)
      cases fill members turn.2 turns with
      | error e => rfl
      | ok more => exact congrArg Except.ok (List.append_assoc t u (v ++ more))

/-- **Filling shows every part, unless a name has no value.**  Then it fails, with the leftmost such
name. -/
theorem fill_parts (parts : List Part) :
    fill members (Part.firstText parts) (Part.turnsOf parts) =
      match (Part.namesOf parts).find? fun name => (members.find? name).isNone with
      | none => .ok (parts.flatMap (Part.shown members))
      | some name => .error (.missingVariable (some name)) := by
  induction parts with
  | nil => rfl
  | cons part parts ih =>
    cases part with
    | text t =>
      rw [Part.firstText, Part.turnsOf, fill_append, ih]
      have names : Part.namesOf (.text t :: parts) = Part.namesOf parts := rfl
      rw [names]
      cases (Part.namesOf parts).find? fun name => (members.find? name).isNone <;> rfl
    | name n =>
      have names : Part.namesOf (.name n :: parts) = String.ofList n :: Part.namesOf parts := rfl
      rw [Part.firstText, Part.turnsOf, fill, ih, names, List.find?_cons]
      unfold worth
      cases value : members.find? (String.ofList n) with
      | none => rfl
      | some v =>
        have here : Part.shown members (.name n) = v.display.toList := by
          simp [Part.shown, value]
        cases (Part.namesOf parts).find? fun name => (members.find? name).isNone with
        | none => exact congrArg (fun shown => Except.ok (shown ++ _)) here.symm
        | some name => rfl

theorem Part.mem_of_mem_turnsOf {turn : List Char × List Char} {parts : List Part}
    (h : turn ∈ turnsOf parts) : .name turn.1 ∈ parts := by
  induction parts with
  | nil => cases h
  | cons part parts ih =>
    cases part with
    | text t => exact List.mem_cons_of_mem _ (ih h)
    | name n =>
      rcases List.mem_cons.mp h with rfl | h
      · exact List.mem_cons_self
      · exact List.mem_cons_of_mem _ (ih h)

theorem Part.mem_namesOf {n : List Char} {parts : List Part} (h : .name n ∈ parts) :
    String.ofList n ∈ namesOf parts :=
  List.mem_filterMap.mpr ⟨_, h, rfl⟩

/-- A name of a variable: neither of a helper nor of the data as a whole. -/
structure IsVariable (name : List Char) : Prop where
  named : IsName name
  other : name ≠ ['t', 'h', 'i', 's']
  helper : isHelper (String.ofList name) = false

instance (name : List Char) : Decidable (IsVariable name) :=
  decidable_of_iff (IsName name ∧ name ≠ ['t', 'h', 'i', 's'] ∧
      isHelper (String.ofList name) = false)
    ⟨fun h => ⟨h.1, h.2.1, h.2.2⟩, fun h => ⟨h.named, h.other, h.helper⟩⟩

/-- Rendering shows every part, if no name begins with the word for a failed condition. -/
theorem render_parts {template : String} {parts : List Part}
    (h : Written template.toList (Part.firstText parts) (Part.turnsOf parts))
    (sound : ∀ n, .name n ∈ parts → IsVariable n) :
    render template (.obj members) =
      if conditional (Part.turnsOf parts) then .error .malformed
      else match (Part.namesOf parts).find? fun name => (members.find? name).isNone with
        | none => .ok (String.ofList (parts.flatMap (Part.shown members)))
        | some name => .error (.missingVariable (some name)) := by
  have sound' : ∀ turn ∈ Part.turnsOf parts, IsVariable turn.1 := fun turn mem =>
    sound turn.1 (Part.mem_of_mem_turnsOf mem)
  rw [render_written members h (fun turn mem => (sound' turn mem).other)
    (fun turn mem => (sound' turn mem).helper), fill_parts]
  cases (Part.namesOf parts).find? fun name => (members.find? name).isNone <;> rfl

end TreeQuery.Template

import Mathlib
import TreeQuery.Plan.File
import TreeQuery.Proofs.Plan.Validity
import TreeQuery.Proofs.Text.Digits

/-!
# Why a plan is refused

`Breaks` says which rules a plan breaks, each by itself and for the plan as a whole, and
`Violation.rank` in which order the rules are looked at.  A plan may break several rules at once; it
is refused for the first of them (`violation?_eq_some_iff`).

The search carries along the names that were used, and these are the names of the selections before
the one that is looked at.  So `flaw?` finds the first flaw that a selection has behind others
(`flaw?_eq_some`), and the search finds the first selection that has one
(`selectionViolation?_eq_some`).
-/

namespace TreeQuery.Plan

/-- What is wrong with a selection behind others. -/
inductive Flawed (made : List Selection) (s : Selection) : Violation → Prop where
  | blank : Text.allBlank s.path.toList = true → Flawed made s (.blankPath made.length)
  | unnamed : s.output = some "" → Flawed made s (.emptyOutput made.length)
  | repeated {name : String} : s.output = some name → (∃ t ∈ made, t.output = some name) →
    Flawed made s (.repeatedOutput made.length name)

/-- What is wrong with a plan. -/
inductive Breaks (p : Plan) : Violation → Prop where
  | unnamed : p.name = "" → Breaks p .emptyName
  | empty : p.selections = [] → Breaks p .noSelections
  | selection {made later : List Selection} {s : Selection} {v : Violation} :
    p.selections = made ++ s :: later → Flawed made s v → Breaks p v

/-- The place of a rule in the order in which the rules are looked at: two for the plan, then three
for each selection. -/
def Violation.rank : Violation → Nat
  | .emptyName => 0
  | .noSelections => 1
  | .blankPath index => 3 * index + 2
  | .emptyOutput index => 3 * index + 3
  | .repeatedOutput index _ => 3 * index + 4

variable {made rest : List Selection} {s : Selection} {used : List String} {v w : Violation}
  {p : Plan}

theorem Flawed.rank_bounds (h : Flawed made s v) :
    3 * made.length + 2 ≤ v.rank ∧ v.rank < 3 * (made.length + 1) + 2 := by
  cases h <;> simp only [Violation.rank] <;> omega

theorem Flawed.two_le_rank (h : Flawed made s v) : 2 ≤ v.rank :=
  Nat.le_trans (Nat.le_add_left 2 _) h.rank_bounds.1

theorem Flawed.eq_of_rank (h : Flawed made s v) (h' : Flawed made s w) (same : v.rank = w.rank) :
    v = w := by
  cases h with
  | blank =>
    cases h' with
    | blank => rfl
    | _ => simp only [Violation.rank] at same; omega
  | unnamed =>
    cases h' with
    | unnamed => rfl
    | _ => simp only [Violation.rank] at same; omega
  | repeated named =>
    cases h' with
    | repeated named' =>
      cases named.symm.trans named'
      rfl
    | _ => simp only [Violation.rank] at same; omega

/-! ## One selection -/

/-- The first flaw of a selection with the given index, where the names `used` belong to others. -/
def flaw? (index : Nat) (used : List String) (s : Selection) : Option Violation :=
  if Text.allBlank s.path.toList then some (.blankPath index)
  else match s.output with
    | none => none
    | some output =>
      if output.isEmpty then some (.emptyOutput index)
      else if used.contains output then some (.repeatedOutput index output)
      else none

theorem selectionViolation?_cons (index : Nat) (used : List String) (s : Selection)
    (rest : List Selection) :
    selectionViolation? index used (s :: rest) =
      (flaw? index used s).or
        (selectionViolation? (index + 1) (s.output.toList ++ used) rest) := by
  rw [selectionViolation?, flaw?]
  cases Text.allBlank s.path.toList with
  | true => rfl
  | false =>
    cases s.output with
    | none => rfl
    | some output =>
      by_cases empty : output.isEmpty = true
      · simp [empty]
      · by_cases again : output ∈ used <;> simp [empty, again]

/-- Whether names are those of the results before a selection. -/
def UsedBy (made : List Selection) (used : List String) : Prop :=
  ∀ name, name ∈ used ↔ ∃ t ∈ made, t.output = some name

theorem UsedBy.concat (h : UsedBy made used) (s : Selection) :
    UsedBy (made ++ [s]) (s.output.toList ++ used) := by
  intro name
  rw [List.mem_append, Option.mem_toList, h name]
  constructor
  · rintro (here | ⟨t, mem, before⟩)
    · exact ⟨s, by simp, here⟩
    · exact ⟨t, List.mem_append_left _ mem, before⟩
  · rintro ⟨t, mem, named⟩
    rcases List.mem_append.mp mem with mem | mem
    · exact .inr ⟨t, mem, named⟩
    · obtain rfl := List.mem_singleton.mp mem
      exact .inl named

/-- **The flaw that is found is the first one.** -/
theorem flaw?_eq_some (names : UsedBy made used) (h : flaw? made.length used s = some v) :
    Flawed made s v ∧ ∀ w, Flawed made s w → v.rank ≤ w.rank := by
  unfold flaw? at h
  split at h
  · next blank =>
    cases h
    exact ⟨.blank blank, fun w other => other.rank_bounds.1⟩
  · next printed =>
    split at h
    · cases h
    · next output named =>
      split at h
      · next empty =>
        cases h
        obtain rfl := String.isEmpty_iff.mp empty
        refine ⟨.unnamed named, fun w other => ?_⟩
        cases other with
        | blank blank => exact absurd blank printed
        | unnamed => exact Nat.le_refl _
        | repeated => exact Nat.le_succ _
      · next present =>
        split at h
        · next again =>
          cases h
          have before := (names output).mp (List.contains_iff_mem.mp again)
          refine ⟨.repeated named before, fun w other => ?_⟩
          cases other with
          | blank blank => exact absurd blank printed
          | unnamed none => cases named.symm.trans none; exact absurd rfl present
          | repeated => exact Nat.le_refl _
        · cases h

/-- **No flaw is found where there is none.** -/
theorem flaw?_eq_none (names : UsedBy made used) (h : flaw? made.length used s = none)
    (w : Violation) :
    ¬ Flawed made s w := by
  unfold flaw? at h
  split at h
  · cases h
  · next printed =>
    rintro (blank | none | ⟨named, before⟩)
    · exact printed blank
    · simp [none] at h
    · have again := (names _).mpr before
      simp only [named] at h
      split at h
      · cases h
      · simp [again] at h

/-! ## The search -/

/-- **The first selection with a flaw is found**, and its first flaw. -/
theorem selectionViolation?_eq_some (names : UsedBy made used)
    (h : selectionViolation? made.length used rest = some v) :
    ∃ between s later, rest = between ++ s :: later ∧ Flawed (made ++ between) s v ∧
      (∀ w, Flawed (made ++ between) s w → v.rank ≤ w.rank) ∧
      ∀ front t back, between = front ++ t :: back → ∀ w, ¬ Flawed (made ++ front) t w := by
  induction rest generalizing made used with
  | nil => cases h
  | cons s rest ih =>
    rw [selectionViolation?_cons] at h
    cases here : flaw? made.length used s with
    | some found =>
      rw [here] at h
      cases h
      obtain ⟨flawed, least⟩ := flaw?_eq_some names here
      exact ⟨[], s, rest, rfl, by simpa using flawed, by simpa using least, by simp⟩
    | none =>
      have length : made.length + 1 = (made ++ [s]).length := by simp
      rw [here, Option.none_or, length] at h
      obtain ⟨between, t, later, rfl, flawed, least, sound⟩ := ih (names.concat s) h
      have shift : ∀ front, made ++ s :: front = made ++ [s] ++ front := by simp
      refine ⟨s :: between, t, later, rfl, by rwa [shift], by rwa [shift], ?_⟩
      rintro (_ | ⟨_, front⟩) t' back split
      · cases split
        simpa using flaw?_eq_none names here
      · cases split
        rw [shift]
        exact sound front t' back rfl

/-! ## The plan -/

/-- A valid plan breaks no rule. -/
theorem Valid.not_breaks (valid : p.Valid) (v : Violation) : ¬ p.Breaks v := by
  intro breaks
  cases breaks with
  | unnamed unnamed => exact valid.named unnamed
  | empty empty => exact valid.selects empty
  | @selection made later s _ split flawed =>
    have mem : s ∈ p.selections := split ▸ List.mem_append_right _ List.mem_cons_self
    cases flawed with
    | blank blank => exact absurd blank (by simp [valid.printed s mem])
    | unnamed empty => exact valid.outputs_named s mem empty
    | repeated named before =>
      obtain ⟨t, before, same⟩ := before
      have nodup := valid.outputs_nodup
      rw [split, List.filterMap_append, List.filterMap_cons_some named] at nodup
      have listed := List.mem_filterMap.mpr ⟨t, before, same⟩
      exact (List.nodup_append.mp nodup).2.2 _ listed _ List.mem_cons_self rfl

/-- A plan breaks each rule in one way only. -/
theorem Breaks.eq_of_rank (h : p.Breaks v) (h' : p.Breaks w) (same : v.rank = w.rank) : v = w := by
  cases h with
  | unnamed =>
    cases h' with
    | unnamed => rfl
    | empty => cases same
    | selection _ flawed => exact absurd (same ▸ flawed.two_le_rank) (by decide)
  | empty =>
    cases h' with
    | unnamed => cases same
    | empty => rfl
    | selection _ flawed => exact absurd (same ▸ flawed.two_le_rank) (by decide)
  | selection split flawed =>
    cases h' with
    | unnamed => exact absurd (same ▸ flawed.two_le_rank) (by decide)
    | empty => exact absurd (same ▸ flawed.two_le_rank) (by decide)
    | selection split' flawed' =>
      -- The rank tells the selection.
      have bounds := flawed.rank_bounds
      have bounds' := flawed'.rank_bounds
      obtain ⟨rfl, rest⟩ := List.append_inj (split.symm.trans split') (by omega)
      obtain ⟨rfl, -⟩ := List.cons.inj rest
      exact flawed.eq_of_rank flawed' same

/-- What is found is broken, and no rule before it is. -/
theorem breaks_of_violation? (h : p.violation? = some v) :
    p.Breaks v ∧ ∀ w, p.Breaks w → v.rank ≤ w.rank := by
  unfold violation? at h
  split at h
  · next unnamed =>
    cases h
    exact ⟨.unnamed (String.isEmpty_iff.mp unnamed), fun w _ => Nat.zero_le _⟩
  · next named =>
    split at h
    · next empty =>
      cases h
      refine ⟨.empty (List.isEmpty_iff.mp empty), fun w other => ?_⟩
      cases other with
      | unnamed unnamed => exact absurd (String.isEmpty_iff.mpr unnamed) named
      | empty => exact Nat.le_refl _
      | selection _ flawed => exact Nat.le_of_succ_le flawed.two_le_rank
    · next filled =>
      have names : UsedBy [] [] := by simp [UsedBy]
      obtain ⟨made, s, later, split, flawed, least, sound⟩ := selectionViolation?_eq_some names h
      rw [List.nil_append] at flawed least
      refine ⟨.selection split flawed, fun w other => ?_⟩
      cases other with
      | unnamed unnamed => exact absurd (String.isEmpty_iff.mpr unnamed) named
      | empty empty => exact absurd (List.isEmpty_iff.mpr empty) filled
      | @selection made' later' s' _ split' flawed' =>
        -- The other selection stands at the same place or behind, as those before have no flaw.
        rcases List.append_eq_append_iff.mp (split.symm.trans split') with
          ⟨between, rfl, rest⟩ | ⟨between, rfl, rest⟩
        · rcases between with _ | ⟨t, between⟩
          · obtain ⟨rfl, -⟩ := List.cons.inj rest
            exact least w (by simpa using flawed')
          · have := flawed.rank_bounds
            have := flawed'.rank_bounds
            simp only [List.length_append, List.length_cons] at this
            omega
        · rcases between with _ | ⟨t, between⟩
          · obtain ⟨rfl, -⟩ := List.cons.inj rest
            exact least w (by simpa using flawed')
          · obtain ⟨rfl, -⟩ := List.cons.inj rest
            exact absurd flawed' (sound made' s' between rfl w)

/-- **A plan is refused for the first rule that it breaks.** -/
theorem violation?_eq_some_iff :
    p.violation? = some v ↔ p.Breaks v ∧ ∀ w, p.Breaks w → v.rank ≤ w.rank := by
  refine ⟨breaks_of_violation?, fun ⟨breaks, least⟩ => ?_⟩
  cases found : p.violation? with
  | none => exact absurd breaks ((violation?_eq_none_iff.mp found).not_breaks v)
  | some w =>
    obtain ⟨breaks', least'⟩ := breaks_of_violation? found
    have same := Nat.le_antisymm (least w breaks') (least' v breaks)
    rw [breaks.eq_of_rank breaks' same]

/-! ## Messages -/

/-- **A message tells one violation.** -/
theorem Violation.message_injective : Function.Injective Violation.message := by
  intro v w same
  have chars := congrArg String.toList same
  cases v <;> cases w <;>
    simp [Violation.message, Nat.toList_repr, String.toList_inj,
      Text.toDigits_append_inj (by decide : ' '.isDigit = false)] at chars ⊢ <;>
    exact chars

/-! ## Loading -/

theorem load_eq_ok_iff {text : String} : load text = .ok p ↔ ofYaml? text = some p ∧ p.Valid := by
  rw [load, ← violation?_eq_none_iff]
  cases ofYaml? text with
  | none => simp
  | some q =>
    by_cases same : q = p
    · subst same
      cases found : q.violation? <;> simp [found]
    · cases found : q.violation? <;> simp [found, same]

theorem load_eq_invalid_iff {text : String} :
    load text = .error (.ofCause (.invalid v)) ↔
      ∃ p, ofYaml? text = some p ∧ p.violation? = some v := by
  rw [load]
  cases ofYaml? text with
  | none => simp [Failure.ofCause]
  | some q => cases found : q.violation? <;> simp [Failure.ofCause, found]

/-- **A text is loaded as a plan exactly if the plan that it writes is valid**, and else it is
refused: a text that writes no plan as unreadable, and a plan for the first rule that it breaks,
with a message that tells the rule and the selection. -/
theorem load_eq_first_violation (text : String) :
    (∀ p, load text = .ok p ↔ ofYaml? text = some p ∧ p.Valid) ∧
    (∀ v, load text = .error (.ofCause (.invalid v)) ↔
      ∃ p, ofYaml? text = some p ∧ p.Breaks v ∧ ∀ w, p.Breaks w → v.rank ≤ w.rank) ∧
    (load text = .error ⟨[.planText], .unreadable⟩ ↔ ofYaml? text = none) ∧
    Function.Injective Violation.message := by
  refine ⟨fun p => load_eq_ok_iff, fun v => ?invalid, ?unreadable, Violation.message_injective⟩
  case invalid => simp only [load_eq_invalid_iff, violation?_eq_some_iff]
  case unreadable =>
    rw [load]
    cases ofYaml? text with
    | none => simp
    | some q => cases found : q.violation? <;> simp [Failure.ofCause, found]

/-- A text that is loaded, one whose plan breaks two rules, and one that writes no plan.  The second
is refused for the name that is used again, as the blank path stands behind it. -/
theorem load_eq_first_violation_written :
    let sound := "name: p\nselections:\n- path: /a\n  output: x\n- path: /b\n"
    let flawed :=
      "name: p\nselections:\n- path: /a\n  output: x\n- path: /b\n  output: x\n- path: ' '\n"
    (∃ p, load sound = .ok p ∧ p.Valid) ∧
      (∃ p, ofYaml? flawed = some p ∧ p.Breaks (.repeatedOutput 1 "x") ∧ p.Breaks (.blankPath 2) ∧
        load flawed = .error (.ofCause (.invalid (.repeatedOutput 1 "x")))) ∧
      load "name: p" = .error ⟨[.planText], .unreadable⟩ := by
  intro sound flawed
  let p : Plan :=
    ⟨"p", none, .plain, Dict.empty, [⟨"/a", some "x", none⟩, ⟨"/b", none, none⟩]⟩
  let q : Plan := ⟨"p", none, .plain, Dict.empty,
    [⟨"/a", some "x", none⟩, ⟨"/b", some "x", none⟩, ⟨" ", none, none⟩]⟩
  have read : ofYaml? sound = some p := by
    -- Evaluation does not look behind the names that are local here.
    simp only [sound, p]
    cbv
  have valid : p.Valid := violation?_eq_none_iff.mp (by decide)
  have read' : ofYaml? flawed = some q := by
    simp only [flawed, q]
    cbv
  have first : q.Breaks (.repeatedOutput 1 "x") ∧
      ∀ w, q.Breaks w → (Violation.repeatedOutput 1 "x").rank ≤ w.rank :=
    violation?_eq_some_iff.mp (by decide)
  have blank : q.Breaks (.blankPath 2) :=
    @Breaks.selection q (q.selections.take 2) [] _ _ rfl (.blank (by decide))
  have incomplete : ofYaml? "name: p" = none := by cbv
  exact ⟨⟨p, ((load_eq_first_violation sound).1 p).mpr ⟨read, valid⟩, valid⟩,
    ⟨q, read', first.1, blank, ((load_eq_first_violation flawed).2.1 _).mpr ⟨q, read', first⟩⟩,
    (load_eq_first_violation _).2.2.1.mpr incomplete⟩

end TreeQuery.Plan

import Mathlib.Data.List.Forall2
import Mathlib.Data.List.Nodup
import TreeQuery.Json.Mismatch

/-!
# Forms of a record

The same record can be written in many ways: as an object, in which fields that hold their default
may be missing and members with other names do not count, or as an array, which lists the fields in
order and may end before the first one of those at its end that hold their default.  `Json.IsForm`
says which values these are; it knows of a field only how it may be written and whether it holds its
default, so that the field of a record may be a record with forms of its own.

The forms that are objects are closed under the binding of other names (`IsForm.insert_other`),
under another way to write a field (`IsForm.insert`) and under the omission of a default
(`IsForm.omit`).
-/

namespace TreeQuery

namespace Bindings

variable {α : Type}

/-- The bindings of the other names. -/
def without (name : String) (bindings : Bindings α) : Bindings α :=
  bindings.filter fun entry => entry.1 ≠ name

theorem find?_without_self (name : String) (bindings : Bindings α) :
    find? name (without name bindings) = none := by
  induction bindings with
  | nil => rfl
  | cons entry rest ih =>
    obtain ⟨other, value⟩ := entry
    by_cases same : other = name
    · simpa [without, same] using ih
    · simpa [without, same, find?, Ne.symm same] using ih

theorem find?_without_of_ne {name other : String} (h : name ≠ other) (bindings : Bindings α) :
    find? name (without other bindings) = find? name bindings := by
  induction bindings with
  | nil => rfl
  | cons entry rest ih =>
    obtain ⟨head, value⟩ := entry
    by_cases here : name = head
    · subst here
      simp [without, find?, h]
    · by_cases same : head = other
      · simpa [without, same, find?, same ▸ here] using ih
      · simpa [without, same, find?, here] using ih

end Bindings

namespace Json

/-- A field of a record, for what it holds there. -/
structure Field where
  /-- The name of the member of an object that gives the field. -/
  name : String
  /-- The values that write what the field holds. -/
  Written : Json → Prop
  /-- Whether the field holds what it holds when it is absent. -/
  Default : Prop

/-- Whether a value, if there is one, leaves a field with what it holds. -/
def Field.Given (f : Field) : Option Json → Prop
  | none => f.Default
  | some v => f.Written v

/-- The values that give every one of the fields. -/
def IsForm (fields : List Field) : Json → Prop
  | .obj members => ∀ f ∈ fields, f.Given (Bindings.find? f.name members)
  | .arr items =>
    items.length ≤ fields.length ∧ ∀ entry ∈ fields.zipIdx, entry.1.Given items[entry.2]?
  | _ => False

variable {fields : List Field} {members : Bindings Json} {f : Field} {name : String}

theorem isForm_obj_iff : IsForm fields (.obj members) ↔
    ∀ f ∈ fields, f.Given (Bindings.find? f.name members) := Iff.rfl

theorem isForm_arr_iff {items : List Json} : IsForm fields (.arr items) ↔
    items.length ≤ fields.length ∧ ∀ entry ∈ fields.zipIdx, entry.1.Given items[entry.2]? :=
  Iff.rfl

theorem Field.eq_of_name (nodup : (fields.map Field.name).Nodup) {g : Field} (hf : f ∈ fields)
    (hg : g ∈ fields) (same : f.name = g.name) : f = g :=
  List.inj_on_of_nodup_map nodup hf hg same

/-- A member with the name of no field does not count. -/
theorem IsForm.insert_other (h : IsForm fields (.obj members))
    (other : name ∉ fields.map Field.name) (value : Json) :
    IsForm fields (.obj (Bindings.insert name value members)) := by
  intro f mem
  have ne : f.name ≠ name := fun eq => other (eq ▸ List.mem_map_of_mem mem)
  rw [Bindings.find?_insert_of_ne ne]
  exact h f mem

/-- A field may be written in any of its ways. -/
theorem IsForm.insert (h : IsForm fields (.obj members)) (nodup : (fields.map Field.name).Nodup)
    (mem : f ∈ fields) {value : Json} (written : f.Written value) :
    IsForm fields (.obj (Bindings.insert f.name value members)) := by
  intro g mem'
  by_cases same : g.name = f.name
  · obtain rfl := Field.eq_of_name nodup mem' mem same
    rw [Bindings.find?_insert_self]
    exact written
  · rw [Bindings.find?_insert_of_ne same]
    exact h g mem'

/-- A field that holds its default may be missing. -/
theorem IsForm.omit (h : IsForm fields (.obj members)) (nodup : (fields.map Field.name).Nodup)
    (mem : f ∈ fields) (holds : f.Default) :
    IsForm fields (.obj (Bindings.without f.name members)) := by
  intro g mem'
  by_cases same : g.name = f.name
  · obtain rfl := Field.eq_of_name nodup mem' mem same
    rw [Bindings.find?_without_self]
    exact holds
  · rw [Bindings.find?_without_of_ne same]
    exact h g mem'

/-- The fields may be listed. -/
theorem isForm_arr {items : List Json} (h : List.Forall₂ Field.Written fields items) :
    IsForm fields (.arr items) := by
  refine ⟨Nat.le_of_eq h.length_eq.symm, ?_⟩
  rintro ⟨f, i⟩ mem
  have at_i : fields[i]? = some f := List.mem_zipIdx_iff_getElem?.mp mem
  obtain ⟨lt, rfl⟩ := List.getElem?_eq_some_iff.mp at_i
  have lt' : i < items.length := h.length_eq ▸ lt
  rw [List.getElem?_eq_getElem lt']
  exact h.get lt lt'

/-! ## Readers -/

section Read

variable {α β ε : Type}

theorem bind_eq_ok_iff {x : Except ε α} {g : α → Except ε β} {b : β} :
    (x >>= g) = .ok b ↔ ∃ a, x = .ok a ∧ g a = .ok b := by
  cases x with
  | error e => exact ⟨(nomatch ·), fun ⟨_, h, _⟩ => nomatch h⟩
  | ok a =>
    constructor
    · exact fun h => ⟨a, rfl, h⟩
    · rintro ⟨_, ⟨⟩, h⟩
      exact h

theorem mapM_eq_ok_iff {read : α → Except ε β} {items : List α} {found : List β} :
    items.mapM read = .ok found ↔ List.Forall₂ (fun b a => read a = .ok b) found items := by
  induction items generalizing found with
  | nil =>
    rw [List.mapM_nil]
    constructor
    · rintro ⟨⟩
      exact .nil
    · rintro ⟨⟩
      rfl
  | cons item items ih =>
    rw [List.mapM_cons, bind_eq_ok_iff]
    constructor
    · rintro ⟨b, first, h⟩
      obtain ⟨bs, others, ⟨⟩⟩ := bind_eq_ok_iff.mp h
      exact .cons first (ih.mp others)
    · rintro (_ | ⟨first, others⟩)
      exact ⟨_, first, bind_eq_ok_iff.mpr ⟨_, ih.mpr others, rfl⟩⟩

variable {read : Json → Except Mismatch α} {o : Option Json} {a : α} {v : Json}

theorem orElse_eq_ok_iff {mismatch : Mismatch} {x : Option α} :
    orElse mismatch x = .ok a ↔ x = some a := by
  cases x <;> simp [orElse]

theorem noMoreThan_eq_ok_iff {n : Nat} {items : List Json} {u : Unit} :
    noMoreThan n items = .ok u ↔ items.length ≤ n := by
  unfold noMoreThan
  split <;> simp <;> omega

theorem readText_eq_ok_iff {s : String} : readText v = .ok s ↔ v = .str s := by
  cases v <;> simp [readText]

theorem readTruth_eq_ok_iff {b : Bool} : readTruth v = .ok b ↔ v = .bool b := by
  cases v <;> simp [readTruth]

theorem readTextOrNull_eq_ok_iff {s : Option String} :
    readTextOrNull v = .ok s ↔ v = textOrNull s := by
  cases s <;> cases v <;> simp [readTextOrNull, readText, textOrNull, Except.map]

theorem readMap_eq_ok_iff {d : Dict Json} :
    readMap v = .ok d ↔ ∃ members, v = .obj members ∧ Dict.ofPairs members = d := by
  cases v <;> simp [readMap]

theorem readList_eq_ok_iff {found : List α} :
    readList read v = .ok found ↔
      ∃ items, v = .arr items ∧ List.Forall₂ (fun a v => read v = .ok a) found items := by
  cases v <;> simp [readList, mapM_eq_ok_iff]

/-- A field without a default is given by what reads as what it holds. -/
theorem Field.given_iff_some (f : Field) (required : ¬ f.Default)
    (reads : ∀ v, read v = .ok a ↔ f.Written v) :
    f.Given o ↔ readField read o = .ok (some a) := by
  cases o with
  | none => simpa [readField, Field.Given] using required
  | some v =>
    rw [Field.Given, ← reads, readField]
    cases read v <;> simp [Except.map]

/-- A field with a default is given by what reads as what it holds, or by nothing if that is the
default. -/
theorem Field.given_iff_getD (f : Field) {default : α} (holds : f.Default ↔ a = default)
    (reads : ∀ v, read v = .ok a ↔ f.Written v) :
    f.Given o ↔ ∃ x, readField read o = .ok x ∧ x.getD default = a := by
  cases o with
  | none => simp [readField, Field.Given, holds, eq_comm]
  | some v =>
    rw [Field.Given, ← reads, readField]
    cases read v <;> simp [Except.map]

theorem given_text {s : String} :
    Field.Given ⟨name, (· = .str s), False⟩ o ↔ readField readText o = .ok (some s) :=
  Field.given_iff_some _ not_false fun _ => readText_eq_ok_iff

theorem given_textOrNull {s : Option String} :
    Field.Given ⟨name, (· = textOrNull s), s = none⟩ o ↔
      ∃ x, readField readTextOrNull o = .ok x ∧ x.join = s := by
  have join : ∀ x : Option (Option String), x.join = x.getD none := by rintro (_ | _) <;> rfl
  simp only [join]
  exact Field.given_iff_getD _ Iff.rfl fun _ => readTextOrNull_eq_ok_iff

end Read

end Json

end TreeQuery

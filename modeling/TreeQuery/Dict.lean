/-!
# Dictionaries

A dictionary binds names to values and lists its bindings in ascending order of the names, code
point by code point.  The order of insertion leaves no trace: a later binding of a name replaces
the earlier one in its place.

Values that contain dictionaries of themselves hold a bare list of bindings, so look-up and
insertion are stated for lists first; `Dict` adds the proof that the list is ordered.
-/

namespace TreeQuery

/-- Bindings of names. -/
abbrev Bindings (α : Type) := List (String × α)

namespace Bindings

variable {α : Type}

/-- Every name stands before the ones that are greater, and none stands twice. -/
def Ordered (bindings : Bindings α) : Prop := bindings.Pairwise fun a b => a.1 < b.1

/-- The value bound to a name. -/
def find? (name : String) : Bindings α → Option α
  | [] => none
  | (other, value) :: rest => if name = other then some value else find? name rest

/-- Binds a name, in its place in the order or in place of its earlier binding. -/
def insert (name : String) (value : α) : Bindings α → Bindings α
  | [] => [(name, value)]
  | (other, previous) :: rest =>
    if name < other then (name, value) :: (other, previous) :: rest
    else if name = other then (name, value) :: rest
    else (other, previous) :: insert name value rest

/-- The bindings of a list of pairs in any order, of which the last for each name counts. -/
def ofPairs (pairs : List (String × α)) : Bindings α :=
  pairs.foldl (fun found pair => insert pair.1 pair.2 found) []

@[simp] theorem find?_nil (name : String) : find? name ([] : Bindings α) = none := rfl

@[simp] theorem find?_insert_self (name : String) (value : α) (bindings : Bindings α) :
    find? name (insert name value bindings) = some value := by
  induction bindings with
  | nil => simp [insert, find?]
  | cons entry rest ih =>
    obtain ⟨other, previous⟩ := entry
    simp only [insert]
    split
    · simp [find?]
    · split
      · simp [find?]
      · next h => simp [find?, h, ih]

theorem find?_insert_of_ne {name other : String} (h : name ≠ other) (value : α)
    (bindings : Bindings α) : find? name (insert other value bindings) = find? name bindings := by
  induction bindings with
  | nil => simp [insert, find?, h]
  | cons entry rest ih =>
    obtain ⟨head, previous⟩ := entry
    simp only [insert]
    split
    · simp [find?, h]
    · split
      · next heq => simp [find?, ← heq, h]
      · simp [find?, ih]

theorem eq_or_mem_of_mem_insert {name : String} {value : α} {entry : String × α}
    {bindings : Bindings α} (h : entry ∈ insert name value bindings) :
    entry.1 = name ∨ entry ∈ bindings := by
  induction bindings with
  | nil => simp_all [insert]
  | cons head rest ih =>
    obtain ⟨other, previous⟩ := head
    simp only [insert] at h
    split at h
    · simp only [List.mem_cons] at h ⊢
      rcases h with rfl | h | h <;> simp_all
    · split at h
      · simp only [List.mem_cons] at h ⊢
        rcases h with rfl | h <;> simp_all
      · simp only [List.mem_cons] at h ⊢
        rcases h with rfl | h
        · simp
        · rcases ih h with h | h <;> simp [h]

/-- Insertion keeps the order. -/
theorem Ordered.insert {bindings : Bindings α} (h : Ordered bindings) (name : String) (value : α) :
    Ordered (Bindings.insert name value bindings) := by
  induction bindings with
  | nil => simp [Ordered, Bindings.insert]
  | cons entry rest ih =>
    obtain ⟨other, previous⟩ := entry
    have tail : Ordered rest := (List.pairwise_cons.1 h).2
    have above := (List.pairwise_cons.1 h).1
    simp only [Bindings.insert]
    split
    · next lt =>
      refine List.pairwise_cons.2 ⟨fun e he => ?_, h⟩
      rcases List.mem_cons.1 he with rfl | he
      · exact lt
      · exact String.lt_trans lt (above e he)
    · split
      · next eq => exact List.pairwise_cons.2 ⟨fun e he => eq ▸ above e he, tail⟩
      · next nlt ne =>
        refine List.pairwise_cons.2 ⟨fun e he => ?_, ih tail⟩
        rcases eq_or_mem_of_mem_insert he with eq | he
        · rcases Std.lt_trichotomy other name with lt | eq' | lt
          · exact eq ▸ lt
          · exact absurd eq'.symm ne
          · exact absurd lt nlt
        · exact above e he

/-- Bindings made from pairs are ordered. -/
theorem ordered_ofPairs (pairs : List (String × α)) : Ordered (ofPairs pairs) := by
  have key : ∀ (pairs : List (String × α)) (found : Bindings α), Ordered found →
      Ordered (pairs.foldl (fun found pair => Bindings.insert pair.1 pair.2 found) found) := by
    intro pairs
    induction pairs with
    | nil => exact fun _ h => h
    | cons pair pairs ih => exact fun _ h => ih _ (h.insert pair.1 pair.2)
  exact key pairs [] List.Pairwise.nil

end Bindings

/-- A dictionary: bindings in ascending order of their names. -/
structure Dict (α : Type) where
  /-- The bindings, each name once. -/
  entries : Bindings α
  /-- The names ascend. -/
  ordered : entries.Ordered

namespace Dict

variable {α : Type}

/-- The dictionary without bindings. -/
def empty : Dict α := ⟨[], List.Pairwise.nil⟩

/-- The value bound to a name. -/
def find? (d : Dict α) (name : String) : Option α := d.entries.find? name

/-- Binds a name, in place of its earlier binding if it has one. -/
def insert (d : Dict α) (name : String) (value : α) : Dict α :=
  ⟨d.entries.insert name value, d.ordered.insert name value⟩

/-- The dictionary of a list of pairs, of which the last for each name counts. -/
def ofPairs (pairs : List (String × α)) : Dict α :=
  ⟨Bindings.ofPairs pairs, Bindings.ordered_ofPairs pairs⟩

@[simp] theorem find?_empty (name : String) : (empty : Dict α).find? name = none := rfl

@[simp] theorem find?_insert_self (d : Dict α) (name : String) (value : α) :
    (d.insert name value).find? name = some value :=
  Bindings.find?_insert_self name value d.entries

theorem find?_insert_of_ne (d : Dict α) {name other : String} (h : name ≠ other) (value : α) :
    (d.insert other value).find? name = d.find? name :=
  Bindings.find?_insert_of_ne h value d.entries

end Dict

end TreeQuery

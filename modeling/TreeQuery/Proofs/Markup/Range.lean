import TreeQuery.Markup.Fault
import TreeQuery.Proofs.Text.Bytes
import TreeQuery.Proofs.Text.Digits
import TreeQuery.Proofs.Text.Pieces

/-!
# The range that a message names

Some faults of a reference are told with a range of bytes, counted from the beginning of the run of
text.  The range begins at the `&` or behind it, and ends at the `;` or, if there is none, with the
run; so it is a range within the run (`range_of_decode`).

While a run is decoded, the bytes up to the next `&` and those of the pieces that are left are
together the bytes of the run.  `ranged_inj` says that a message tells its range, and only messages
of such faults begin in this way (`Fault.range_of_message`).
-/

namespace TreeQuery.Markup

open Text (byteLength pieces)

namespace ReferenceFault

/-- The range of bytes that a fault is about, if its message names one. -/
def range? : ReferenceFault → Option (Nat × Nat)
  | .unfinished first last => some (first, last)
  | .unknown first last _ => some (first, last)
  | .null first last => some (first, last)
  | _ => none

variable {first last first' last' : Nat} {text text' : String}

theorem toList_ranged (first last : Nat) (text : String) :
    (message.ranged first last text).toList =
      "Error while escaping character at range ".toList ++ (Nat.toDigits 10 first ++
        '.' :: '.' :: (Nat.toDigits 10 last ++ ':' :: ' ' :: text.toList)) := by
  unfold message.ranged
  rw [String.toList_append, String.toList_append, String.toList_append, String.toList_append,
    String.toList_append, Nat.toString_eq_repr, Nat.toString_eq_repr, Nat.toList_repr,
    Nat.toList_repr, List.append_assoc, List.append_assoc, List.append_assoc, List.append_assoc]
  rfl

/-- **A message tells its range.** -/
theorem ranged_inj (h : message.ranged first last text = message.ranged first' last' text') :
    first = first' ∧ last = last' ∧ text = text' := by
  have chars := congrArg String.toList h
  rw [toList_ranged, toList_ranged, List.append_right_inj, Text.toDigits_append_inj (by decide),
    List.cons_inj_right, Text.toDigits_append_inj (by decide), List.cons_inj_right,
    String.toList_inj] at chars
  exact chars

/-- How a message with a range begins. -/
theorem take_ranged (first last : Nat) (text : String) :
    (message.ranged first last text).toList.take 2 = ['E', 'r'] := by
  have word : "Error while escaping character at range ".toList =
    'E' :: 'r' :: "ror while escaping character at range ".toList := rfl
  rw [toList_ranged, word]
  rfl

theorem range_of_message {fault : ReferenceFault}
    (h : fault.message = message.ranged first last text) : fault.range? = some (first, last) := by
  have begins : fault.message.toList.take 2 = ['E', 'r'] := h ▸ take_ranged first last text
  cases fault with
  | unfinished a b =>
    obtain ⟨rfl, rfl, -⟩ := ranged_inj h
    rfl
  | unknown a b name =>
    obtain ⟨rfl, rfl, -⟩ := ranged_inj h
    rfl
  | null a b =>
    obtain ⟨rfl, rfl, -⟩ := ranged_inj h
    rfl
  | _ => simp [message] at begins

end ReferenceFault

theorem take_toList_append {text : String} (long : 2 ≤ text.toList.length) (more : String) :
    (text ++ more).toList.take 2 = text.toList.take 2 := by
  rw [String.toList_append, List.take_append_of_le_length long]

/-- **Only messages of faults in references name a range**, and it is the range of the fault. -/
theorem Fault.range_of_message {cause : Fault} {first last : Nat} {text : String}
    (h : cause.message = ReferenceFault.message.ranged first last text) :
    ∃ fault, cause = .reference fault ∧ fault.range? = some (first, last) := by
  have begins : cause.message.toList.take 2 = ['E', 'r'] :=
    h ▸ ReferenceFault.take_ranged first last text
  cases cause with
  | reference fault => exact ⟨fault, rfl, ReferenceFault.range_of_message h⟩
  | unfinished what =>
    unfold message at begins
    dsimp only at begins
    rw [take_toList_append (by decide)] at begins
    exact absurd begins (by decide)
  | unknownDeclaration byte =>
    unfold message at begins
    dsimp only at begins
    rw [String.append_assoc, String.append_assoc, take_toList_append (by decide)] at begins
    exact absurd begins (by decide)
  | emptyDoctype => exact absurd begins (by decide)
  | mismatchedEnd expected found =>
    unfold message at begins
    dsimp only at begins
    rw [String.append_assoc, String.append_assoc, String.append_assoc,
      take_toList_append (by decide)] at begins
    exact absurd begins (by decide)

/-! ## Decoding -/

variable {fault : ReferenceFault} {a b : Nat}

theorem exists_of_codePoint {base : Nat} {wrong : Nat → ReferenceFault} {digits : List Char}
    (h : codePoint base wrong digits = .error fault) : ∃ byte, fault = wrong byte := by
  rw [codePoint] at h
  generalize 0 = n at h
  induction digits generalizing n with
  | nil => cases h
  | cons c digits ih =>
    rw [List.foldlM_cons] at h
    cases value : digitValue? base c with
    | some d =>
      rw [value] at h
      exact ih _ h
    | none =>
      rw [value] at h
      cases h
      exact ⟨_, rfl⟩

/-- The range of a reference begins at its `&` or behind it, and ends at its `;`. -/
theorem range_of_character {first last : Nat} {name : List Char}
    (h : character first last name = .error fault) (range : fault.range? = some (a, b)) :
    a ≤ first + 1 ∧ b = last := by
  -- A number is at fault with a range only if it is zero.
  have ofCode : ∀ {base : Nat} {wrong : Nat → ReferenceFault} {digits : List Char},
      (∀ byte, (wrong byte).range? = none) →
      (codePoint base wrong digits >>= fun n => if n = 0 then .error (.null first last)
        else if n < 0xD800 || (0xDFFF < n && n < 0x110000) then .ok (Char.ofNat n)
        else .error (.noCharacter n)) = .error fault → a ≤ first + 1 ∧ b = last := by
    intro base wrong digits unranged h
    cases code : codePoint base wrong digits with
    | error other =>
      rw [code] at h
      cases h
      obtain ⟨byte, rfl⟩ := exists_of_codePoint code
      cases (unranged byte).symm.trans range
    | ok n =>
      rw [code] at h
      by_cases null : n = 0
      · cases (if_pos null).symm.trans h
        cases range
        exact ⟨Nat.le_succ _, rfl⟩
      · have h := (if_neg null).symm.trans h
        split at h
        · cases h
        · cases h
          cases range
  simp only [character] at h
  split at h
  · split at h
    · cases h
      cases range
    · exact ofCode (fun _ => rfl) h
  · split at h
    · cases h
      cases range
    · exact ofCode (fun _ => rfl) h
  · split at h
    · cases h
    · cases h
      cases range
      exact ⟨Nat.le_refl _, rfl⟩

/-- The range of a fault lies within what has been decoded and what is left. -/
theorem range_of_decodePieces {total first : Nat} {done : List Char} {ps : List (List Char)}
    (counted : first + byteLength (ps.flatMap ('&' :: ·)) = total)
    (h : decodePieces total first done ps = .error fault) (range : fault.range? = some (a, b)) :
    a ≤ b ∧ b ≤ total := by
  have single : Char.utf8Size '&' = 1 := rfl
  induction ps generalizing first done with
  | nil => cases h
  | cons piece ps ih =>
    rw [List.flatMap_cons, Text.byteLength_append, Text.byteLength_cons, single] at counted
    rw [decodePieces] at h
    split at h
    · cases h
      cases range
      omega
    · next name literal cut =>
      obtain ⟨rfl, -⟩ := Text.cutAt_eq_some (List.cons_ne_nil _ _) cut
      split at h
      · next wrong =>
        cases h
        have within := range_of_character wrong range
        simp only [Text.byteLength_append] at counted
        omega
      · exact ih (by omega) h

/-- **The range of a fault is a range of bytes of its run.** -/
theorem range_of_decode {run : List Char} (h : decode run = .error fault)
    (range : fault.range? = some (a, b)) : a ≤ b ∧ b ≤ byteLength run := by
  obtain ⟨literal, ps, cut⟩ := List.exists_cons_of_ne_nil (Text.pieces_ne_nil (· == '&') run)
  have whole := Text.flatMap_pieces '&' run
  rw [cut, List.flatMap_cons, List.cons_append] at whole
  rw [decode, cut] at h
  have counted := congrArg byteLength (List.cons.inj whole).2
  rw [Text.byteLength_append] at counted
  exact range_of_decodePieces counted h range

end TreeQuery.Markup
